import ReviewDesk.Json.Value

/-!
# The status of a pull request

A pull request is open until it is merged.  The status is stored as a text,
and only the two texts that stand for a status can be read again.

* `ofStored?_eq_some_iff` — reading a stored text gives a status exactly when
  the text is the one that is stored for it.
-/

namespace ReviewDesk

/-- The status of a pull request. -/
inductive Status where
  | opened
  | merged
deriving DecidableEq, Repr

namespace Status

/-- The text of a status, both in the store and in answers. -/
def text : Status → String
  | opened => "OPEN"
  | merged => "MERGED"

/-- The status that a stored text stands for. -/
def ofStored? (s : String) : Option Status :=
  if s = opened.text then some opened
  else if s = merged.text then some merged
  else none

theorem ofStored?_eq_some_iff {s : String} {t : Status} : ofStored? s = some t ↔ s = t.text := by
  unfold ofStored?
  split
  · rename_i h; subst h; cases t <;> simp [text]
  · rename_i ho
    split
    · rename_i h; subst h; cases t <;> simp [text]
    · rename_i hm
      cases t
      · simpa using ho
      · simpa using hm

/-- The status in an answer. -/
def toJson (s : Status) : Json := .text s.text

/-- The status that a JSON value stands for: its text, or a record of one field
that has this text as its name and no value. -/
def ofJson? : Json → Option Status
  | .text s => ofStored? s
  | .record [(name, .null)] => ofStored? name
  | _ => none

end Status

end ReviewDesk
