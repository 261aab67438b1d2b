import ReviewDesk.Draw.Words
import ReviewDesk.Failure
import ReviewDesk.Store.Read
import ReviewDesk.Store.Write

/-!
# The desk

An operation works at a desk with a store and a stream of random words.  It
reads and writes the store, draws words, and either answers or fails with a
cause.  A fault of the store has the cause "internal", but for a key that is
taken, where the operation may know a better one.

A transaction gives back the store as it was if what it holds fails.  Words are
not given back: what was drawn stays drawn.

* `transaction_error` — a failed transaction leaves the store as it was.
-/

namespace ReviewDesk

/-- What an operation works with. -/
structure Office where
  store : Store := {}
  words : Words
deriving DecidableEq, Inhabited

/-- An operation with an answer of type `α`. -/
abbrev Desk (α : Type) := EStateM Failure Office α

/-- The cause of a failure that a fault of the store leads to, where a taken key
has the cause `clash`. -/
def Fault.cause (clash : Failure) (f : Fault) : Failure := if f.isClash then clash else .internal

namespace Desk

variable {α : Type}

/-- Asks the store. -/
def ask (question : Store → Except Fault α) : Desk α := fun o =>
  match question o.store with
  | .ok a => .ok a o
  | .error f => .error (f.cause .internal) o

/-- Changes the store; if a key is taken, fails with the cause `clash`. -/
def changeUnless (clash : Failure) (statement : Store → Except Fault Store) : Desk Unit := fun o =>
  match statement o.store with
  | .ok s => .ok () { o with store := s }
  | .error f => .error (f.cause clash) o

/-- Changes the store. -/
def change (statement : Store → Except Fault Store) : Desk Unit :=
  changeUnless .internal statement

/-- Draws from the stream of words. -/
def draw (chance : Words → α × Words) : Desk α := fun o =>
  let drawn := chance o.words
  .ok drawn.1 { o with words := drawn.2 }

/-- The value, or the given cause if there is none. -/
def orFail (cause : Failure) : Option α → Desk α
  | some a => pure a
  | none => throw cause

/-- Runs an operation so that it changes the store wholly or not at all. -/
def transaction (body : Desk α) : Desk α := fun o =>
  if o.store.isOpen then
    match body o with
    | .ok a o' => .ok a o'
    | .error f o' => .error f { o' with store := o.store }
  else .error .internal o

/-- **All or nothing.**  A transaction that fails leaves the store as it was. -/
theorem transaction_error {body : Desk α} {o o' : Office} {f : Failure}
    (h : transaction body o = .error f o') : o'.store = o.store := by
  unfold transaction at h
  split at h
  · split at h
    · cases h
    · cases h; rfl
  · cases h; rfl

end Desk

end ReviewDesk
