/-!
# Ascending sets

A finite set of things that come in an order is held as the list of its
members from the least to the greatest, each once.  Every set then has one
list, so equal sets are equal values, and "in ascending order" is a property
of the representation and not of the operation that prints it.

This file proves, for every linear order:

* `Ascending.ext` — two sets with the same members are the same value;
* `mem_ofList`, `mem_insert`, `mem_erase`, `mem_diff`, `mem_inter` — what each
  operation does to membership, which is all that can be said of it.
-/

namespace ReviewDesk

/-- A finite set: its members in strictly ascending order. -/
structure Ascending (α : Type) [LT α] where
  /-- The members, least first. -/
  toList : List α
  /-- Each member is below all that follow it. -/
  ascends : toList.Pairwise (· < ·)

namespace Ascending

variable {α : Type} [LT α]

instance : Membership α (Ascending α) := ⟨fun s a => a ∈ s.toList⟩

theorem mem_toList {s : Ascending α} {a : α} : a ∈ s.toList ↔ a ∈ s := Iff.rfl

instance [DecidableEq α] (a : α) (s : Ascending α) : Decidable (a ∈ s) :=
  inferInstanceAs (Decidable (a ∈ s.toList))

theorem nil_ascends : ([] : List α).Pairwise (· < ·) := .nil

/-- The set without members. -/
def empty : Ascending α := ⟨[], nil_ascends⟩

instance : EmptyCollection (Ascending α) := ⟨empty⟩

instance : Inhabited (Ascending α) := ⟨∅⟩

instance [DecidableEq α] : DecidableEq (Ascending α) := fun s t =>
  decidable_of_iff (s.toList = t.toList) <| by
    cases s; cases t; simp

theorem not_mem_empty {a : α} : a ∉ (∅ : Ascending α) := List.not_mem_nil

/-- The number of members. -/
def size (s : Ascending α) : Nat := s.toList.length

/-- Whether there is no member. -/
def isEmpty (s : Ascending α) : Bool := s.toList.isEmpty

theorem eq_empty_of_isEmpty {s : Ascending α} (h : s.isEmpty = true) : s = ∅ := by
  cases s with
  | mk l hl =>
    obtain rfl : l = [] := List.isEmpty_iff.1 h
    rfl

/-- The members of `s` that pass `keep`. -/
def filter (s : Ascending α) (keep : α → Bool) : Ascending α :=
  ⟨s.toList.filter keep, s.ascends.filter keep⟩

@[simp] theorem mem_filter {s : Ascending α} {keep : α → Bool} {a : α} :
    a ∈ s.filter keep ↔ a ∈ s ∧ keep a = true := List.mem_filter

section Decided

variable [DecidableEq α]

/-- The members of `s` other than `a`. -/
def erase (s : Ascending α) (a : α) : Ascending α := s.filter (· ≠ a)

/-- The members of `s` that are not in `t`. -/
def diff (s t : Ascending α) : Ascending α := s.filter (· ∉ t)

/-- The members of `s` that are in `t`. -/
def inter (s t : Ascending α) : Ascending α := s.filter (· ∈ t)

@[simp] theorem mem_erase {s : Ascending α} {a b : α} : b ∈ s.erase a ↔ b ∈ s ∧ b ≠ a := by
  simp [erase]

@[simp] theorem mem_diff {s t : Ascending α} {a : α} : a ∈ s.diff t ↔ a ∈ s ∧ a ∉ t := by
  simp [diff]

@[simp] theorem mem_inter {s t : Ascending α} {a : α} : a ∈ s.inter t ↔ a ∈ s ∧ a ∈ t := by
  simp [inter]

end Decided

section Ordered

variable [LE α] [DecidableLT α] [Std.IsLinearOrder α] [Std.LawfulOrderLT α]

/-- Puts `a` at its place in an ascending list, unless it is there already. -/
def place (a : α) : List α → List α
  | [] => [a]
  | b :: rest =>
    if a < b then a :: b :: rest
    else if b < a then b :: place a rest
    else b :: rest

theorem mem_place {a b : α} {l : List α} : b ∈ place a l ↔ b = a ∨ b ∈ l := by
  induction l with
  | nil => simp [place]
  | cons c rest ih =>
    by_cases hac : a < c
    · simp [place, hac]
    · by_cases hca : c < a
      · simp only [place, hac, hca, if_true, if_false, List.mem_cons, ih]
        constructor
        · rintro (h | h | h) <;> simp [h]
        · rintro (h | h | h) <;> simp [h]
      · have : a = c := by
          rcases Std.lt_trichotomy a c with h | h | h
          · exact absurd h hac
          · exact h
          · exact absurd h hca
        subst this
        simp [place, hac]

theorem place_ascends {a : α} {l : List α} (h : l.Pairwise (· < ·)) :
    (place a l).Pairwise (· < ·) := by
  induction l with
  | nil => simp [place]
  | cons c rest ih =>
    obtain ⟨hc, hrest⟩ := List.pairwise_cons.1 h
    by_cases hac : a < c
    · simp only [place, hac, if_true]
      refine List.pairwise_cons.2 ⟨fun x hx => ?_, h⟩
      rcases List.mem_cons.1 hx with rfl | hx
      · exact hac
      · exact Std.lt_trans hac (hc x hx)
    · by_cases hca : c < a
      · simp only [place, hac, hca, if_true, if_false]
        refine List.pairwise_cons.2 ⟨fun x hx => ?_, ih hrest⟩
        rcases mem_place.1 hx with rfl | hx
        · exact hca
        · exact hc x hx
      · simpa only [place, hac, hca, if_false] using h

/-- The set with `a` added. -/
def insert (s : Ascending α) (a : α) : Ascending α := ⟨place a s.toList, place_ascends s.ascends⟩

@[simp] theorem mem_insert {s : Ascending α} {a b : α} : b ∈ s.insert a ↔ b = a ∨ b ∈ s :=
  mem_place

/-- The set of the entries of a list; repeated entries count once. -/
def ofList : List α → Ascending α
  | [] => ∅
  | a :: rest => (ofList rest).insert a

@[simp] theorem mem_ofList {l : List α} {a : α} : a ∈ ofList l ↔ a ∈ l := by
  induction l with
  | nil => simp [ofList, not_mem_empty]
  | cons b rest ih => simp [ofList, ih]

omit [DecidableLT α] in
/-- Two ascending lists with the same entries are the same list. -/
theorem eq_of_mem_iff {l m : List α} (hl : l.Pairwise (· < ·)) (hm : m.Pairwise (· < ·))
    (h : ∀ a, a ∈ l ↔ a ∈ m) : l = m := by
  induction l generalizing m with
  | nil =>
    cases m with
    | nil => rfl
    | cons b _ => exact absurd ((h b).2 List.mem_cons_self) List.not_mem_nil
  | cons a l ih =>
    cases m with
    | nil => exact absurd ((h a).1 List.mem_cons_self) List.not_mem_nil
    | cons b m =>
      obtain ⟨ha, hl'⟩ := List.pairwise_cons.1 hl
      obtain ⟨hb, hm'⟩ := List.pairwise_cons.1 hm
      have hab : a = b := by
        rcases List.mem_cons.1 ((h a).1 List.mem_cons_self) with h' | h'
        · exact h'
        · rcases List.mem_cons.1 ((h b).2 List.mem_cons_self) with h'' | h''
          · exact h''.symm
          · exact absurd (Std.lt_trans (ha b h'') (hb a h')) Std.lt_irrefl
      subst hab
      refine congrArg _ (ih hl' hm' fun x => ?_)
      have hx := h x
      simp only [List.mem_cons] at hx
      constructor
      · intro hxl
        rcases hx.1 (Or.inr hxl) with rfl | hxm
        · exact absurd (ha _ hxl) Std.lt_irrefl
        · exact hxm
      · intro hxm
        rcases hx.2 (Or.inr hxm) with rfl | hxl
        · exact absurd (hb _ hxm) Std.lt_irrefl
        · exact hxl

omit [DecidableLT α] in
/-- **One value per set.**  Sets with the same members are equal. -/
theorem ext {s t : Ascending α} (h : ∀ a, a ∈ s ↔ a ∈ t) : s = t := by
  cases s with | mk l hl =>
  cases t with | mk m hm =>
  obtain rfl : l = m := eq_of_mem_iff hl hm h
  rfl

/-- Reading the members off and collecting them again gives the same set. -/
theorem ofList_toList (s : Ascending α) : ofList s.toList = s :=
  ext fun _ => by rw [mem_ofList, mem_toList]

omit [DecidableLT α] [Std.IsLinearOrder α] in
/-- No member is listed twice. -/
theorem nodup (s : Ascending α) : s.toList.Nodup :=
  s.ascends.imp Std.ne_of_lt

theorem place_perm {a : α} {l : List α} (h : a ∉ l) : (place a l).Perm (a :: l) := by
  induction l with
  | nil => exact .refl _
  | cons b rest ih =>
      have hab : a ≠ b := fun heq => h (heq ▸ List.mem_cons_self)
      have hrest : a ∉ rest := fun hmem => h (List.mem_cons_of_mem b hmem)
      by_cases hlt : a < b
      · simp [place, hlt]
      · have hgt : b < a := by
          rcases Std.lt_trichotomy a b with h' | h' | h'
          · exact absurd h' hlt
          · exact absurd h' hab
          · exact h'
        simp only [place, hlt, hgt, if_true, if_false]
        exact ((ih hrest).cons b).trans (.swap a b rest)

/-- Somebody new makes a set larger by one. -/
theorem size_insert {s : Ascending α} {a : α} (h : a ∉ s) : (s.insert a).size = s.size + 1 :=
  (place_perm h).length_eq

/-- Entries that are all different make as many members. -/
theorem size_ofList {l : List α} (h : l.Nodup) : (ofList l).size = l.length := by
  induction l with
  | nil => rfl
  | cons a rest ih =>
      obtain ⟨hnotMem, hrest⟩ := List.nodup_cons.1 h
      have hnew : a ∉ ofList rest := fun hmem => hnotMem (mem_ofList.1 hmem)
      calc (ofList (a :: rest)).size
          = (ofList rest).size + 1 := size_insert hnew
        _ = (a :: rest).length := by rw [ih hrest, List.length_cons]

omit [DecidableLT α] [Std.IsLinearOrder α] in
/-- A member who leaves makes a set smaller by one. -/
theorem size_erase [DecidableEq α] {s : Ascending α} {a : α} (h : a ∈ s) :
    (s.erase a).size + 1 = s.size := by
  have herase : (s.erase a).toList = s.toList.erase a := by
    rw [s.nodup.erase_eq_filter]
    exact List.filter_congr fun b _ => by simp [bne, BEq.beq]
  have hpos : 0 < s.toList.length := List.length_pos_of_mem h
  rw [size, herase, List.length_erase_of_mem h]
  exact Nat.sub_add_cancel hpos

end Ordered

end Ascending

end ReviewDesk
