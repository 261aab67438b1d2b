import ReviewDesk.Text.Percent
import ReviewDesk.Text.Pieces
import ReviewDesk.Text.Utf8

/-!
# Parameters of a URL

Behind its question mark a URL has a list of names and values, parted by
ampersands; in each part the first equals sign parts the name from the value,
and an empty part does not count.  A plus is a blank, percent signs stand for
bytes, and what is no UTF-8 is read as the replacement character.

* `entries_of_not_mem` — a part alone is one entry.
-/

namespace ReviewDesk

namespace Parameters

/-- The text that a name or a value stands for. -/
def decoded (cs : List Char) : String :=
  Utf8.decodeLossy (Percent.bytes (cs.map fun c => if c = '+' then ' ' else c))

/-- The name and the value of a part. -/
def entry (part : List Char) : String × String :=
  (decoded (part.takeWhile (· ≠ '=')), decoded ((part.dropWhile (· ≠ '=')).drop 1))

/-- The names and values in a text. -/
def entries (cs : List Char) : List (String × String) :=
  ((Pieces.cutAt '&' cs).filter (! ·.isEmpty)).map entry

/-- The value of a name that comes exactly once. -/
def single? (name : String) (cs : List Char) : Option String :=
  match (entries cs).filter (·.1 = name) with
  | [(_, value)] => some value
  | _ => none

/-- A part alone is one entry. -/
theorem entries_of_not_mem {part : List Char} (h : '&' ∉ part) (hne : part ≠ []) :
    entries part = [entry part] := by
  simp [entries, Pieces.cutAt_of_not_mem h, hne]

end Parameters

end ReviewDesk
