/-!
# Random words

Every random choice is steered by a stream of 32-bit words.  The stream hands
out some words that are known in advance and goes on with a linear
congruential generator, whose state is the last word it gave.  It also counts
what was taken, so that "draws nothing" can be said and checked.

* `taken_next` — taking a word counts one.
-/

namespace ReviewDesk

/-- A stream of 32-bit words. -/
structure Words where
  /-- Words that come before the generator's. -/
  queued : List UInt32
  /-- The generator's state: its last word, or the seed. -/
  state : UInt32
  /-- How many words were taken so far. -/
  taken : Nat := 0
deriving DecidableEq, Inhabited

namespace Words

/-- The generator's step.  Its multiplier and increment give it the full
period: every word comes once in 2³² steps. -/
def scramble (x : UInt32) : UInt32 := x * 1664525 + 1013904223

/-- Takes the next word. -/
def next (w : Words) : UInt32 × Words :=
  match w.queued with
  | v :: later => (v, { w with queued := later, taken := w.taken + 1 })
  | [] => let v := scramble w.state; (v, { w with state := v, taken := w.taken + 1 })

/-- Taking a word counts one. -/
@[simp] theorem taken_next (w : Words) : w.next.2.taken = w.taken + 1 := by
  unfold next; split <;> rfl

end Words

end ReviewDesk
