import ReviewDesk.Draw.Pick

/-!
# What a pick leaves to chance

A pick shuffles all eligible candidates and keeps the first ones, unless all of them fit.
Two things about the shuffle hold for every stream of words.  The place that is drawn for an
entry is never behind it, so every exchange is one between two entries of the list, and in
the end each candidate is still there once.  And no index is drawn without taking a word, so
`n` candidates cost `n - 1` words at least.

Neither depends on how many candidates are kept.  The limit only says where the shuffled
list is cut off; even if nobody is kept, the words are gone.

* `exists_places_eq_skip` — places take words from the front of the stream, one at least for
  each place;
* `le_of_getElem?_places` — and each place is within the part of the list that is still to be
  shuffled;
* `picks_are_cut_off_shuffles` — what is picked, for every limit at once.
-/

namespace ReviewDesk

namespace Words

/-! ## Words that are taken -/

/-- The stream behind its first `k` words. -/
def skip : Nat → Words → Words
  | 0, w => w
  | k + 1, w => skip k w.next.2

theorem skip_add (j k : Nat) (w : Words) : (w.skip j).skip k = w.skip (j + k) := by
  induction j generalizing w with
  | zero => rw [Nat.zero_add, skip]
  | succ j ih => rw [Nat.succ_add, skip, skip, ih]

theorem taken_skip (k : Nat) (w : Words) : (w.skip k).taken = w.taken + k := by
  induction k generalizing w with
  | zero => rfl
  | succ k ih =>
      rw [skip, ih, taken_next]
      omega

theorem exists_indexWithin_eq_skip (n tries : Nat) (w : Words) :
    ∃ k, (Draw.indexWithin n tries w).2 = w.skip (k + 1) := by
  induction tries generalizing w with
  | zero => exact ⟨0, rfl⟩
  | succ tries ih =>
      by_cases haccepts : Draw.accepts n w.next.1.toNat = true
      · exact ⟨0, by simp only [Draw.indexWithin, haccepts, if_true, skip]⟩
      · obtain ⟨k, hk⟩ := ih w.next.2
        refine ⟨k + 1, ?_⟩
        rw [Draw.indexWithin, if_neg haccepts, hk]
        rfl

/-- An index is drawn from the front of the stream, and takes a word at least. -/
theorem exists_indexBelow_eq_skip (n : Nat) (w : Words) :
    ∃ k, (w.indexBelow n).2 = w.skip (k + 1) :=
  exists_indexWithin_eq_skip n _ w

theorem places_succ (count : Nat) (w : Words) :
    w.places (count + 1) =
      ((w.indexBelow (count + 2)).1 :: ((w.indexBelow (count + 2)).2.places count).1,
        ((w.indexBelow (count + 2)).2.places count).2) := rfl

/-- Places are drawn from the front of the stream, each with a word at least. -/
theorem exists_places_eq_skip (count : Nat) (w : Words) :
    ∃ k, count ≤ k ∧ (w.places count).2 = w.skip k := by
  induction count generalizing w with
  | zero => exact ⟨0, Nat.le_refl 0, rfl⟩
  | succ count ih =>
      obtain ⟨j, hfirst⟩ := exists_indexBelow_eq_skip (count + 2) w
      obtain ⟨k, hcount, hothers⟩ := ih (w.indexBelow (count + 2)).2
      refine ⟨j + 1 + k, by omega, ?_⟩
      rw [places_succ, hothers, hfirst, skip_add]

/-- The place for an entry is not behind it. -/
theorem le_of_getElem?_places {count i j : Nat} {w : Words}
    (h : (w.places count).1[i]? = some j) : j ≤ count - i := by
  induction count generalizing w i with
  | zero => cases h
  | succ count ih =>
      rw [places_succ] at h
      cases i with
      | zero =>
          rw [List.getElem?_cons_zero, Option.some.injEq] at h
          have hfirst : (w.indexBelow (count + 2)).1 < count + 2 :=
            Draw.indexBelow_lt (Nat.succ_pos _) w
          rw [h] at hfirst
          exact Nat.le_of_lt_succ hfirst
      | succ i =>
          rw [List.getElem?_cons_succ] at h
          have hothers := ih h
          omega

/-! ## Picks -/

section Picks

variable {α : Type} [LT α] [LE α] [DecidableEq α] [Std.LawfulOrderLT α]

/-- **Picks are cut off shuffles.**  For every pool, every excluded set and every stream of
words, as many eligible candidates are picked as the limit allows, all of them different.  If
all of them fit, they are taken in ascending order and no word is drawn.  Otherwise there is
one arrangement of all of them, made by exchanging each from the last one to the second with
one that is not behind it, and whatever the limit is, the first ones of this arrangement are
picked and the same words are gone: at least one for each candidate but one.  Who is picked
alone is the only one of a pick with limit 1, and there is somebody exactly if somebody is
eligible. -/
theorem picks_are_cut_off_shuffles (pool exclude : Ascending α) (w : Words) :
    let eligible := pool.diff exclude
    (∀ a, a ∈ eligible ↔ a ∈ pool ∧ a ∉ exclude) ∧
    eligible.toList.Pairwise (· < ·) ∧
    (∀ limit, let picked := (w.pick pool exclude limit).1
      picked.length = min limit eligible.size ∧ picked.Nodup ∧ ∀ a ∈ picked, a ∈ eligible) ∧
    (∀ limit, eligible.size ≤ limit → w.pick pool exclude limit = (eligible.toList, w)) ∧
    (∃ places drawn, places.length = eligible.size - 1 ∧
      (∀ i j, places[i]? = some j → j < eligible.size - i) ∧
      (Draw.shuffleBy places eligible.toList).Perm eligible.toList ∧
      eligible.size - 1 ≤ drawn ∧ (w.skip drawn).taken = w.taken + drawn ∧
      ∀ limit, limit < eligible.size → w.pick pool exclude limit =
        ((Draw.shuffleBy places eligible.toList).take limit, w.skip drawn)) ∧
    (w.pickOne pool exclude).1.toList = (w.pick pool exclude 1).1 ∧
    (w.pickOne pool exclude).2 = (w.pick pool exclude 1).2 ∧
    ((∃ a ∈ eligible, (w.pickOne pool exclude).1 = some a) ↔ ∃ a, a ∈ eligible) := by
  intro eligible
  have hmem : ∀ a, a ∈ eligible ↔ a ∈ pool ∧ a ∉ exclude := fun a => Ascending.mem_diff
  have hone : (w.pickOne pool exclude).1.toList = (w.pick pool exclude 1).1 := by
    have hlength : (w.pick pool exclude 1).1.length ≤ 1 := length_pick_le
    rw [pickOne]
    rcases hpicked : (w.pick pool exclude 1).1 with _ | ⟨a, _ | ⟨b, rest⟩⟩
    · rfl
    · rfl
    · rw [hpicked] at hlength
      simp at hlength
  refine ⟨hmem, eligible.ascends, fun limit => ?_, fun limit => pick_of_le w, ?_, hone, rfl, ?_⟩
  · exact ⟨length_pick, nodup_pick, fun a ha => (hmem a).2 (mem_of_mem_pick ha)⟩
  · obtain ⟨drawn, hdrawn, hskip⟩ := exists_places_eq_skip (eligible.size - 1) w
    refine ⟨(w.places (eligible.size - 1)).1, drawn, length_places _ w, fun i j hj => ?_,
      Draw.shuffleBy_perm _ _, hdrawn, taken_skip drawn w, fun limit hlimit => ?_⟩
    · have hplace := le_of_getElem?_places hj
      obtain ⟨hi, -⟩ := List.getElem?_eq_some_iff.1 hj
      rw [length_places] at hi
      omega
    · rw [pick_of_lt w hlimit, ← hskip]
      rfl
  · constructor
    · rintro ⟨a, ha, -⟩
      exact ⟨a, ha⟩
    · rintro ⟨a, ha⟩
      cases hpicked : (w.pickOne pool exclude).1 with
      | some b => exact ⟨b, (hmem b).2 (mem_of_pickOne hpicked), rfl⟩
      | none =>
          obtain ⟨hpool, hallowed⟩ := (hmem a).1 ha
          exact absurd ((pickOne_eq_none hpicked).1 a hpool) hallowed

end Picks

/-- Of four candidates one is excluded.  With room for three all others are taken, and with
room for none two words at least are gone all the same. -/
theorem threeOfFour_picked :
    let pool : Ascending String := .ofList ["a", "b", "c", "d"]
    let w : Words := ⟨[0xffffffff, 7], 1, 0⟩
    w.pick pool (.ofList ["b"]) 3 = (["a", "c", "d"], w) ∧
      (w.pick pool (.ofList ["b"]) 0).1 = [] ∧ 2 ≤ (w.pick pool (.ofList ["b"]) 0).2.taken ∧
      (w.pick pool (.ofList ["b"]) 2).1.Nodup ∧ (w.pick pool (.ofList ["b"]) 2).1.length = 2 ∧
      ∃ a ∈ pool.diff (.ofList ["b"]), (w.pickOne pool (.ofList ["b"])).1 = some a := by
  intro pool w
  have hsize : (pool.diff (.ofList ["b"])).size = 3 := by decide
  obtain ⟨-, -, hpicked, hall, ⟨places, drawn, -, -, -, hdrawn, htaken, hcut⟩, -, -, hone⟩ :=
    picks_are_cut_off_shuffles pool (.ofList ["b"]) w
  obtain ⟨htwo, hdistinct, -⟩ := hpicked 2
  have hnone := hcut 0 (by rw [hsize]; decide)
  refine ⟨hall 3 (Nat.le_of_eq hsize), by rw [hnone]; rfl, ?_, hdistinct, ?_,
    hone.2 ⟨"a", by decide⟩⟩
  · rw [hnone, htaken]
    rw [hsize] at hdrawn
    exact Nat.le_trans hdrawn (Nat.le_add_left _ _)
  · rw [htwo, hsize]
    rfl

end Words

end ReviewDesk
