import ReviewDesk.Proofs.AllOrNothing
import ReviewDesk.Proofs.Effect

/-!
# Histories

A history is a list of calls, one after the other on the same store.  Each call
has its own time and its own stream of words, so nothing is assumed of the
clock or of the draws, and each may answer or fail.

A call that fails leaves no trace and one that answers has one of the listed
effects.  So what every effect keeps is kept by every history.

* `next_cases` — what a single call makes of a store;
* `after_induction` — what calls keep, histories keep.
-/

namespace ReviewDesk

/-- An operation, when it is called, and the words it may draw. -/
structure Call where
  op : Operation
  now : Instant
  words : Words
deriving DecidableEq

namespace Call

/-- The store after a call, whether it answers or fails. -/
def next (c : Call) (s : Store) : Store :=
  match c.op.run c.now ⟨s, c.words⟩ with
  | .ok _ o => o.store
  | .error _ o => o.store

/-- What a call answers, if it does not fail. -/
def answer? (c : Call) (s : Store) : Option Answer :=
  match c.op.run c.now ⟨s, c.words⟩ with
  | .ok a _ => some a
  | .error _ _ => none

/-- A call that fails leaves the store alone. -/
theorem next_of_answer?_eq_none {c : Call} {s : Store} (h : c.answer? s = none) :
    c.next s = s := by
  unfold answer? at h
  unfold next
  cases hrun : c.op.run c.now ⟨s, c.words⟩ with
  | ok a o => simp [hrun] at h
  | error f o => exact Operation.store_of_error hrun

/-- A call that answers has one of the listed effects. -/
theorem effect_of_answer? {c : Call} {s : Store} {a : Answer} (h : c.answer? s = some a) :
    Effect c.now s c.op a (c.next s) := by
  unfold answer? at h
  unfold next
  cases hrun : c.op.run c.now ⟨s, c.words⟩ with
  | ok b o =>
      obtain rfl : b = a := by simpa [hrun] using h
      exact Operation.effect_of_ok hrun
  | error f o => simp [hrun] at h

/-- A call leaves the store alone or has one of the listed effects. -/
theorem next_cases (c : Call) (s : Store) :
    c.next s = s ∨ ∃ a, Effect c.now s c.op a (c.next s) := by
  cases h : c.answer? s with
  | none => exact .inl (next_of_answer?_eq_none h)
  | some a => exact .inr ⟨a, effect_of_answer? h⟩

end Call

namespace Store

/-- The store after a history. -/
def after (s : Store) (calls : List Call) : Store := calls.foldl (fun s c => c.next s) s

theorem after_append (s : Store) (calls later : List Call) :
    s.after (calls ++ later) = (s.after calls).after later :=
  List.foldl_append

/-- **Induction along a history.**  What holds at first and is kept by every
effect holds after every history. -/
theorem after_induction {P : Store → Prop} {s : Store} (first : P s)
    (step : ∀ {now s op a s'}, Effect now s op a s' → P s → P s') (calls : List Call) :
    P (s.after calls) := by
  induction calls generalizing s with
  | nil => exact first
  | cons c later ih =>
      have hnext : P (c.next s) := by
        rcases c.next_cases s with hsame | ⟨a, heffect⟩
        · rw [hsame]
          exact first
        · exact step heffect first
      exact ih hnext

end Store

end ReviewDesk
