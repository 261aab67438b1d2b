import ReviewDesk.Draw.Bounded

/-!
# Shuffles

A list is shuffled from its last place down to its second: each place is
exchanged with a place drawn at or before it.  The drawn places are kept apart
from the exchanges, so that a shuffle is a function of its places, of which
the stream of words gives one list.

* `shuffleBy_perm` — whatever the places, the entries stay the same;
* `length_places` — shuffling `n` entries draws `n - 1` places.
-/

namespace ReviewDesk

namespace Draw

variable {α : Type}

/-- The list with the entries at two places exchanged. -/
def swap (l : List α) (i j : Nat) : List α :=
  match l[i]?, l[j]? with
  | some a, some b => (l.set i b).set j a
  | _, _ => l

/-- Exchanges place `k` with the first of `k` given places, then place `k - 1`
with the second, and so on down to place 1. -/
def shuffleBy : List Nat → List α → List α
  | [], l => l
  | j :: places, l => shuffleBy places (swap l (places.length + 1) j)

/-- Exchanging two places keeps the entries. -/
theorem swap_perm (l : List α) (i j : Nat) : (swap l i j).Perm l := by
  unfold swap
  split
  · rename_i a b ha hb
    obtain ⟨hi, rfl⟩ := List.getElem?_eq_some_iff.1 ha
    obtain ⟨hj, rfl⟩ := List.getElem?_eq_some_iff.1 hb
    exact List.set_set_perm hi hj
  · exact .refl l

/-- A shuffle keeps the entries. -/
theorem shuffleBy_perm (places : List Nat) (l : List α) : (shuffleBy places l).Perm l := by
  induction places generalizing l with
  | nil => exact .refl l
  | cons j places ih => exact (ih _).trans (swap_perm l _ j)

end Draw

namespace Words

/-- Draws the places for `k + 1` entries: below `k + 1`, below `k`, down to
below 2. -/
def places : Nat → Words → List Nat × Words
  | 0, w => ([], w)
  | k + 1, w =>
    let first := w.indexBelow (k + 2)
    let others := places k first.2
    (first.1 :: others.1, others.2)

/-- Shuffles a list. -/
def shuffle {α : Type} (l : List α) (w : Words) : List α × Words :=
  let drawn := w.places (l.length - 1)
  (Draw.shuffleBy drawn.1 l, drawn.2)

/-- Whatever the stream, shuffling keeps the entries. -/
theorem shuffle_perm {α : Type} (l : List α) (w : Words) : (w.shuffle l).1.Perm l :=
  Draw.shuffleBy_perm _ _

/-- Shuffling `k + 1` entries draws `k` places. -/
@[simp] theorem length_places (k : Nat) (w : Words) : (w.places k).1.length = k := by
  induction k generalizing w with
  | zero => rfl
  | succ k ih => simp [places, ih]

end Words

end ReviewDesk
