import ReviewDesk.Ascending

/-!
# Keyed lists

A finite map whose keys come in an order is held as the list of its entries
with ascending keys.  Going through the list is going through the keys in
order, which is how a plan visits the pull requests it repairs.

A map is filled entry by entry.  What a change does is said by what a search
finds afterwards: the changed value under the key that was changed, and what
was there before under any other.

* `Keyed.keys` — the keys, as an ascending set;
* `get?_upsert`, `get?_modify` — what a search finds after a change;
* `mem_keys_ofList` — collecting a list of entries keeps exactly its keys;
* `mem_of_mem_ofList` — and no entry that was not in the list.
-/

namespace ReviewDesk

/-- A finite map: its entries with strictly ascending keys. -/
structure Keyed (κ ν : Type) [LT κ] where
  /-- The entries, least key first. -/
  toList : List (κ × ν)
  /-- Each key is below all that follow it. -/
  ascends : (toList.map Prod.fst).Pairwise (· < ·)

namespace Keyed

variable {κ ν : Type} [LT κ]

/-- The map without entries. -/
def empty : Keyed κ ν := ⟨[], Ascending.nil_ascends⟩

instance : EmptyCollection (Keyed κ ν) := ⟨empty⟩

/-- The keys. -/
def keys (m : Keyed κ ν) : Ascending κ := ⟨m.toList.map Prod.fst, m.ascends⟩

@[simp] theorem keys_empty : (∅ : Keyed κ ν).keys = ∅ := rfl

/-- Whether there is no entry. -/
def isEmpty (m : Keyed κ ν) : Bool := m.toList.isEmpty

theorem eq_empty_of_isEmpty {m : Keyed κ ν} (h : m.isEmpty = true) : m = ∅ := by
  cases m with
  | mk l hl =>
    obtain rfl : l = [] := List.isEmpty_iff.1 h
    rfl

section Search

variable [DecidableEq κ]

/-- The value of a key. -/
def get? (m : Keyed κ ν) (k : κ) : Option ν := (m.toList.find? (·.1 = k)).map (·.2)

/-- The value of a key, or the given one if it has none. -/
def getD (m : Keyed κ ν) (k : κ) (d : ν) : ν := (m.get? k).getD d

@[simp] theorem get?_empty {k : κ} : (∅ : Keyed κ ν).get? k = none := rfl

@[simp] theorem getD_empty {k : κ} {d : ν} : (∅ : Keyed κ ν).getD k d = d := rfl

/-- Changes the value of a key, if it has one. -/
def modify (m : Keyed κ ν) (k : κ) (change : ν → ν) : Keyed κ ν :=
  ⟨m.toList.map fun e => if e.1 = k then (e.1, change e.2) else e, by
    have hkeys : (m.toList.map fun e => if e.1 = k then (e.1, change e.2) else e).map Prod.fst =
        m.toList.map Prod.fst := by
      rw [List.map_map]
      exact List.map_congr_left fun e _ => by simp only [Function.comp]; split <;> rfl
    rw [hkeys]
    exact m.ascends⟩

/-- A change of the value of one key is found there and nowhere else. -/
theorem get?_modify (m : Keyed κ ν) (k j : κ) (change : ν → ν) :
    (m.modify k change).get? j = (m.get? j).map fun v => if j = k then change v else v := by
  simp only [get?, modify]
  induction m.toList with
  | nil => rfl
  | cons e rest ih =>
    by_cases hkey : e.1 = j
    · subst hkey
      by_cases hek : e.1 = k <;> simp [hek]
    · have hpass : (if e.1 = k then (e.1, change e.2) else e).1 ≠ j := by split <;> exact hkey
      simpa [List.find?_cons, hkey, hpass] using ih

end Search

section Ordered

variable [DecidableLT κ]

/-- Changes the value of a key in a list with ascending keys.  A key that is not
there is put at its place, with the given value before the change. -/
def revise (k : κ) (new : ν) (change : ν → ν) : List (κ × ν) → List (κ × ν)
  | [] => [(k, change new)]
  | e :: rest =>
    if k < e.1 then (k, change new) :: e :: rest
    else if e.1 < k then e :: revise k new change rest
    else (e.1, change e.2) :: rest

theorem keys_revise (k : κ) (new : ν) (change : ν → ν) (l : List (κ × ν)) :
    (revise k new change l).map Prod.fst = Ascending.place k (l.map Prod.fst) := by
  induction l with
  | nil => rfl
  | cons e rest ih =>
    by_cases hke : k < e.1
    · simp [revise, Ascending.place, hke]
    · by_cases hek : e.1 < k <;> simp [revise, Ascending.place, hke, hek, ih]

variable [LE κ] [Std.IsLinearOrder κ] [Std.LawfulOrderLT κ]

theorem find?_revise_self [DecidableEq κ] (k : κ) (new : ν) (change : ν → ν) {l : List (κ × ν)}
    (hl : (l.map Prod.fst).Pairwise (· < ·)) :
    ((revise k new change l).find? (·.1 = k)).map (·.2) =
      some (change (((l.find? (·.1 = k)).map (·.2)).getD new)) := by
  induction l with
  | nil => simp [revise]
  | cons e rest ih =>
    obtain ⟨hbelow, hrest⟩ := List.pairwise_cons.1 hl
    by_cases hke : k < e.1
    · -- all keys of the list are above the new one
      have habove : (e :: rest).find? (·.1 = k) = none := by
        refine List.find?_eq_none.2 fun f hf => ?_
        have hkf : k < f.1 := by
          rcases List.mem_cons.1 hf with rfl | hf
          · exact hke
          · exact Std.lt_trans hke (hbelow f.1 (List.mem_map_of_mem hf))
        simpa using (Std.ne_of_lt hkf).symm
      simp [revise, hke, habove]
    · by_cases hek : e.1 < k
      · have hne : e.1 ≠ k := Std.ne_of_lt hek
        simpa [revise, hke, hek, List.find?_cons, hne] using ih hrest
      · have heq : e.1 = k := by
          rcases Std.lt_trichotomy e.1 k with h | h | h
          · exact absurd h hek
          · exact h
          · exact absurd h hke
        simp [revise, heq, Std.lt_irrefl]

theorem find?_revise_of_ne [DecidableEq κ] {k j : κ} (hne : k ≠ j) (new : ν) (change : ν → ν)
    (l : List (κ × ν)) :
    ((revise k new change l).find? (·.1 = j)).map (·.2) = (l.find? (·.1 = j)).map (·.2) := by
  induction l with
  | nil => simp [revise, hne]
  | cons e rest ih =>
    by_cases hke : k < e.1
    · simp [revise, hke, List.find?_cons, hne]
    · by_cases hek : e.1 < k
      · have hlater : revise k new change (e :: rest) = e :: revise k new change rest := by
          simp [revise, hke, hek]
        rw [hlater]
        by_cases hej : e.1 = j
        · simp [hej]
        · simpa [List.find?_cons, hej] using ih
      · have heq : e.1 = k := Std.le_antisymm (Std.not_lt.1 hke) (Std.not_lt.1 hek)
        simp [revise, heq, Std.lt_irrefl, hne]

/-- The map with the value of a key changed; a new key has the given value
before the change. -/
def upsert (m : Keyed κ ν) (k : κ) (new : ν) (change : ν → ν) : Keyed κ ν :=
  ⟨revise k new change m.toList, by
    rw [keys_revise]; exact Ascending.place_ascends m.ascends⟩

@[simp] theorem mem_keys_upsert {m : Keyed κ ν} {k j : κ} {new : ν} {change : ν → ν} :
    j ∈ (m.upsert k new change).keys ↔ j = k ∨ j ∈ m.keys := by
  have hkeys : ((m.upsert k new change).keys).toList = Ascending.place k m.keys.toList :=
    keys_revise k new change m.toList
  rw [← Ascending.mem_toList, hkeys, Ascending.mem_place, Ascending.mem_toList]

/-- What is put under one key is found there and nowhere else. -/
theorem get?_upsert [DecidableEq κ] (m : Keyed κ ν) (k j : κ) (new : ν) (change : ν → ν) :
    (m.upsert k new change).get? j =
      if k = j then some (change (m.getD k new)) else m.get? j := by
  by_cases hkj : k = j
  · subst hkj
    rw [if_pos rfl]
    exact find?_revise_self k new change m.ascends
  · rw [if_neg hkj]
    exact find?_revise_of_ne hkj new change m.toList

omit [LE κ] [Std.IsLinearOrder κ] [Std.LawfulOrderLT κ] in
theorem mem_of_mem_revise_id {k : κ} {v : ν} {e : κ × ν} {l : List (κ × ν)}
    (h : e ∈ revise k v id l) : e = (k, v) ∨ e ∈ l := by
  induction l with
  | nil => exact .inl (List.mem_singleton.1 h)
  | cons f rest ih =>
    unfold revise at h
    split at h
    · exact List.mem_cons.1 h
    · split at h
      · rcases List.mem_cons.1 h with rfl | h
        · exact .inr List.mem_cons_self
        · exact (ih h).imp_right (List.mem_cons_of_mem f)
      · exact .inr h

/-- The map with the given entries; of two entries with one key the later one
counts. -/
def ofList : List (κ × ν) → Keyed κ ν
  | [] => ∅
  | (k, v) :: rest => (ofList rest).upsert k v id

/-- A key has an entry exactly when it is listed. -/
@[simp] theorem mem_keys_ofList {l : List (κ × ν)} {k : κ} :
    k ∈ (ofList l).keys ↔ k ∈ l.map Prod.fst := by
  induction l with
  | nil => exact iff_of_false Ascending.not_mem_empty List.not_mem_nil
  | cons e rest ih => rw [ofList, mem_keys_upsert, ih, List.map_cons, List.mem_cons]

/-- An entry of a collected map was listed. -/
theorem mem_of_mem_ofList {l : List (κ × ν)} {e : κ × ν} (h : e ∈ (ofList l).toList) : e ∈ l := by
  induction l with
  | nil => exact absurd h List.not_mem_nil
  | cons f rest ih =>
    rcases mem_of_mem_revise_id h with rfl | h
    · exact List.mem_cons_self
    · exact List.mem_cons_of_mem f (ih h)

/-- Values that are made of the entries are found as they would be made afterwards. -/
theorem get?_ofList_map [DecidableEq κ] {α ω : Type} (key : α → κ) (value : α → ν)
    (make : κ → ν → ω) (l : List α) (k : κ) :
    (ofList (l.map fun a => (key a, make (key a) (value a)))).get? k =
      ((ofList (l.map fun a => (key a, value a))).get? k).map (make k) := by
  induction l with
  | nil => rfl
  | cons a rest ih =>
    simp only [List.map_cons, ofList, get?_upsert, getD, id]
    split
    · rename_i hkey
      subst hkey
      rw [ih, Option.map_some]
      cases (ofList (rest.map fun a => (key a, value a))).get? (key a) <;> rfl
    · exact ih

end Ordered

end Keyed

end ReviewDesk
