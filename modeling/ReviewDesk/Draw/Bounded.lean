import ReviewDesk.Draw.Words

/-!
# Fair indices

An index below `n` is drawn from a 32-bit word `v` by looking at the product
`v * n`: its upper half is the index, its lower half decides whether the word
counts.  Only words whose lower half stays within the *zone* are accepted, the
others are skipped, and the zone is chosen so that every index has the same
number of accepted words.

* `index_lt` — the index of a word is below the bound;
* `indexBelow_lt` — so is the index that is drawn, whatever the stream.
-/

namespace ReviewDesk

namespace Draw

/-- The number of 32-bit words. -/
def wordCount : Nat := 1 <<< 32

/-- The largest lower half with which a word counts: `n` shifted up until its
top bit is the word's top bit, less one. -/
def zone (n : Nat) : Nat := n <<< (31 - n.log2) - 1

/-- Whether the word `v` counts in a draw below `n`. -/
def accepts (n v : Nat) : Bool := v * n % wordCount ≤ zone n

/-- The index below `n` that the word `v` stands for. -/
def index (n v : Nat) : Nat := v * n / wordCount

theorem index_lt {n v : Nat} (hn : 0 < n) (hv : v < wordCount) : index n v < n :=
  Nat.div_lt_of_lt_mul (Nat.mul_lt_mul_of_pos_right hv hn)

/-- Skips at most `tries` words that do not count and gives the index of the
word after them. -/
def indexWithin (n : Nat) : Nat → Words → Nat × Words
  | 0, w => (index n w.next.1.toNat, w.next.2)
  | tries + 1, w =>
    if accepts n w.next.1.toNat then (index n w.next.1.toNat, w.next.2)
    else indexWithin n tries w.next.2

end Draw

namespace Words

/-- Draws an index below `n`.  The generator gives every word within 2³²
steps, the word 0 always counts, so the search ends before its bound does. -/
def indexBelow (n : Nat) (w : Words) : Nat × Words :=
  Draw.indexWithin n (w.queued.length + Draw.wordCount) w

end Words

namespace Draw

theorem indexWithin_lt {n : Nat} (hn : 0 < n) (tries : Nat) (w : Words) :
    (indexWithin n tries w).1 < n := by
  induction tries generalizing w with
  | zero => exact index_lt hn w.next.1.toNat_lt
  | succ tries ih =>
    unfold indexWithin
    split
    · exact index_lt hn w.next.1.toNat_lt
    · exact ih _

/-- A drawn index is below its bound. -/
theorem indexBelow_lt {n : Nat} (hn : 0 < n) (w : Words) : (w.indexBelow n).1 < n :=
  indexWithin_lt hn _ w

end Draw

end ReviewDesk
