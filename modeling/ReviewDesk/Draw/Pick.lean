import ReviewDesk.Ascending
import ReviewDesk.Draw.Shuffle

/-!
# Picking candidates

Reviewers are picked from a pool of candidates less those who are excluded.
If all of them fit the limit they are all taken, in ascending order, and
nothing is left to chance.  Otherwise the whole eligible list is shuffled and
its first entries are taken, so that every choice is as likely as any other.

* `mem_of_mem_pick` — only eligible candidates are picked;
* `length_pick_le`, `length_pick` — and as many of them as there are, up to the limit;
* `pick_of_le` — when all of them fit, the stream is left alone.
-/

namespace ReviewDesk

namespace Words

variable {α : Type} [LT α] [DecidableEq α]

/-- Picks at most `limit` members of `pool` that are not in `exclude`. -/
def pick (pool exclude : Ascending α) (limit : Nat) (w : Words) : List α × Words :=
  let eligible := (pool.diff exclude).toList
  if limit < eligible.length then
    let shuffled := w.shuffle eligible
    (shuffled.1.take limit, shuffled.2)
  else (eligible, w)

/-- Picks one member of `pool` that is not in `exclude`, if there is one. -/
def pickOne (pool exclude : Ascending α) (w : Words) : Option α × Words :=
  let picked := w.pick pool exclude 1
  (picked.1.head?, picked.2)

/-- When all eligible candidates fit, they are taken in order and no word is
drawn. -/
theorem pick_of_le {pool exclude : Ascending α} {limit : Nat} (w : Words)
    (h : (pool.diff exclude).size ≤ limit) :
    w.pick pool exclude limit = ((pool.diff exclude).toList, w) :=
  if_neg (Nat.not_lt.2 h)

/-- A picked candidate is in the pool and not excluded. -/
theorem mem_of_mem_pick {pool exclude : Ascending α} {limit : Nat} {w : Words} {a : α}
    (h : a ∈ (w.pick pool exclude limit).1) : a ∈ pool ∧ a ∉ exclude := by
  rw [← Ascending.mem_diff, ← Ascending.mem_toList]
  dsimp only [pick] at h
  split at h
  · exact (Draw.shuffleBy_perm _ _).mem_iff.1 (List.mem_of_mem_take h)
  · exact h

/-- No more candidates are picked than the limit. -/
theorem length_pick_le {pool exclude : Ascending α} {limit : Nat} {w : Words} :
    (w.pick pool exclude limit).1.length ≤ limit := by
  dsimp only [pick]
  split
  · exact List.length_take_le _ _
  · rename_i h
    exact Nat.not_lt.1 h

/-- Somebody picked alone is in the pool and not excluded. -/
theorem mem_of_pickOne {pool exclude : Ascending α} {w : Words} {a : α}
    (h : (w.pickOne pool exclude).1 = some a) : a ∈ pool ∧ a ∉ exclude :=
  mem_of_mem_pick (List.mem_of_head? h)

/-- When there are more, the first ones of a shuffle are taken. -/
theorem pick_of_lt {pool exclude : Ascending α} {limit : Nat} (w : Words)
    (h : limit < (pool.diff exclude).size) :
    w.pick pool exclude limit =
      ((w.shuffle (pool.diff exclude).toList).1.take limit,
        (w.shuffle (pool.diff exclude).toList).2) :=
  if_pos h

/-- As many candidates are picked as there are, up to the limit. -/
theorem length_pick {pool exclude : Ascending α} {limit : Nat} {w : Words} :
    (w.pick pool exclude limit).1.length = min limit (pool.diff exclude).size := by
  by_cases hmany : limit < (pool.diff exclude).size
  · rw [pick_of_lt w hmany, List.length_take, (shuffle_perm _ w).length_eq]
    rfl
  · have hfew : (pool.diff exclude).size ≤ limit := Nat.not_lt.1 hmany
    rw [pick_of_le w hfew]
    exact (Nat.min_eq_right hfew).symm

/-- Nobody is picked twice. -/
theorem nodup_pick [LE α] [Std.LawfulOrderLT α] {pool exclude : Ascending α} {limit : Nat}
    {w : Words} : (w.pick pool exclude limit).1.Nodup := by
  have heligible := (pool.diff exclude).nodup
  by_cases hmany : limit < (pool.diff exclude).size
  · rw [pick_of_lt w hmany]
    have hshuffled := (shuffle_perm (pool.diff exclude).toList w).nodup_iff.2 heligible
    exact hshuffled.sublist (List.take_sublist _ _)
  · rw [pick_of_le w (Nat.not_lt.1 hmany)]
    exact heligible

/-- Nobody is picked only if the whole pool is excluded, and then no word is
drawn. -/
theorem pickOne_eq_none {pool exclude : Ascending α} {w : Words}
    (h : (w.pickOne pool exclude).1 = none) :
    (∀ a ∈ pool, a ∈ exclude) ∧ (w.pickOne pool exclude).2 = w := by
  have hnobody : (w.pick pool exclude 1).1 = [] := List.head?_eq_none_iff.1 h
  -- more than one candidate would be shuffled, and a shuffle loses nobody
  have hfew : (pool.diff exclude).size ≤ 1 := by
    apply Nat.not_lt.1
    intro hmany
    have hlength := (shuffle_perm (pool.diff exclude).toList w).length_eq
    rw [pick_of_lt w hmany] at hnobody
    have hzero := congrArg List.length hnobody
    simp only [List.length_take, hlength, List.length_nil] at hzero
    simp only [Ascending.size] at hmany
    omega
  have hpick := pick_of_le w hfew
  have hempty : (pool.diff exclude).toList = [] := by
    rw [← hnobody, hpick]
  refine ⟨fun a ha => ?_, congrArg Prod.snd hpick⟩
  apply Decidable.byContradiction
  intro hnot
  have hmem : a ∈ (pool.diff exclude).toList := Ascending.mem_diff.2 ⟨ha, hnot⟩
  rw [hempty] at hmem
  cases hmem

/-- From an empty pool nobody is picked, and no word is drawn. -/
theorem pickOne_empty (exclude : Ascending α) (w : Words) : w.pickOne ∅ exclude = (none, w) := rfl

end Words

end ReviewDesk
