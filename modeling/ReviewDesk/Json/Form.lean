import ReviewDesk.Json.Draft

/-!
# Forms

A form says which record a caller has to hand in.  A draft is read against it
from the front, and the first problem found decides: either the text is
malformed there, or the value is unfit, because it has the wrong type or a
field comes twice or never.

Fields may come in any order, and fields that the form does not know are
skipped as long as they are well formed.  A record may also be handed in as the
list of its values in the order of the form.

* `Form.fields_and` — two forms taken together have the fields of both.
-/

namespace ReviewDesk

namespace Json

/-- Why a draft could not be read. -/
inductive Misread where
  /-- The text goes wrong before all was read. -/
  | malformed
  /-- The value is not what was asked for. -/
  | unfit
deriving DecidableEq, Repr

/-- What is wrong with a value that has the wrong type: it is malformed if it
has no value at all. -/
def Draft.mismatch : Draft → Misread
  | .broken => .malformed
  | .number isInRange => if isInRange then .unfit else .malformed
  | .text none => .malformed
  | _ => .unfit

/-- Reads a text. -/
def Draft.readText : Draft → Except Misread String
  | .text (some s) => .ok s
  | d => .error d.mismatch

/-- Reads a truth value. -/
def Draft.readBool : Draft → Except Misread Bool
  | .bool b => .ok b
  | d => .error d.mismatch

/-- Reads a list. -/
def Draft.readList {α : Type} (read : Draft → Except Misread α) : Draft → Except Misread (List α)
  | .list items isClosed => do
    let values ← items.mapM read
    if isClosed then .ok values else .error .malformed
  | d => .error d.mismatch

/-- A field of a form whose values found so far are kept in a `σ`. -/
structure Field (σ : Type) where
  name : String
  /-- Whether its value was found. -/
  isFilled : σ → Bool
  /-- Reads its value. -/
  fill : Draft → σ → Except Misread σ

/-- A form for records of type `α`, which keeps the values found so far in a
`σ`. -/
structure Form (σ α : Type) where
  /-- No value found. -/
  blank : σ
  fields : List (Field σ)
  /-- The record, if all values were found. -/
  complete : σ → Option α

namespace Form

variable {σ τ α β : Type}

/-- The form with one field. -/
def field (name : String) (read : Draft → Except Misread α) : Form (Option α) α where
  blank := none
  fields := [{
    name
    isFilled := Option.isSome
    fill := fun d _ => some <$> read d }]
  complete := id

/-- A field of the first of two forms taken together. -/
def left (f : Field σ) : Field (σ × τ) where
  name := f.name
  isFilled s := f.isFilled s.1
  fill d s := (·, s.2) <$> f.fill d s.1

/-- A field of the second of two forms taken together. -/
def right (f : Field τ) : Field (σ × τ) where
  name := f.name
  isFilled s := f.isFilled s.2
  fill d s := (s.1, ·) <$> f.fill d s.2

/-- Two forms taken together. -/
def and (f : Form σ α) (g : Form τ β) : Form (σ × τ) (α × β) where
  blank := (f.blank, g.blank)
  fields := f.fields.map left ++ g.fields.map right
  complete s := do return (← f.complete s.1, ← g.complete s.2)

/-- The form for what `build` makes of a record. -/
def map (build : α → β) (f : Form σ α) : Form σ β where
  blank := f.blank
  fields := f.fields
  complete s := (f.complete s).map build

/-- Two forms taken together have the fields of both, in order. -/
theorem fields_and (f : Form σ α) (g : Form τ β) :
    (f.and g).fields.map (·.name) = f.fields.map (·.name) ++ g.fields.map (·.name) := by
  simp [and, left, right, Function.comp_def]

/-- Reads the entries of a record. -/
def readEntries (fields : List (Field σ)) :
    List (Option String × Draft) → σ → Except Misread σ
  | [], s => .ok s
  | (none, _) :: _, _ => .error .malformed
  | (some name, d) :: rest, s =>
    match fields.find? (·.name = name) with
    | none => if d.isClosed then readEntries fields rest s else .error .malformed
    | some f =>
      if f.isFilled s then .error .unfit
      else do readEntries fields rest (← f.fill d s)

/-- Reads the values of a record that was handed in as a list. -/
def readItems (isClosed : Bool) : List (Field σ) → List Draft → σ → Except Misread σ
  | [], [], s => if isClosed then .ok s else .error .malformed
  | [], _ :: _, _ => .error .malformed
  | _ :: _, [], _ => .error (if isClosed then .unfit else .malformed)
  | f :: fields, d :: items, s => do readItems isClosed fields items (← f.fill d s)

/-- Reads a record. -/
def read (form : Form σ α) (d : Draft) : Except Misread α := do
  let found ← match d with
    | .record entries isClosed => do
      let found ← readEntries form.fields entries form.blank
      if isClosed then .ok found else .error .malformed
    | .list items isClosed => readItems isClosed form.fields items form.blank
    | d => .error d.mismatch
  match form.complete found with
  | some a => .ok a
  | none => .error .unfit

end Form

end Json

end ReviewDesk
