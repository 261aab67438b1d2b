import ReviewDesk.Text.Hexadecimal
import ReviewDesk.Time.Instant

/-!
# JSON values and their text

Everything the service answers is a JSON value.  A time is a value of its own
and becomes a text only when it is written, so whoever looks at an answer need
not guess which of its texts are times.

The text of a value has no blanks.  In a string only the quote, the backslash
and the control characters below the blank are escaped, five of them by a
letter and the others by their number.

* `escape_eq_self_iff` — every character but those stands for itself.
-/

namespace ReviewDesk

/-- A JSON value. -/
inductive Json where
  | null
  | bool (b : Bool)
  | int (n : Int)
  | text (s : String)
  | time (t : Instant)
  | list (items : List Json)
  /-- A record: its fields in the order they are written. -/
  | record (fields : List (String × Json))
deriving Inhabited

namespace Json

/-- A character of a string as it is written between the quotes. -/
def escape (c : Char) : List Char :=
  if c = '"' then ['\\', '"']
  else if c = '\\' then ['\\', '\\']
  else if c.toNat < 32 then
    match c.toNat with
    | 8 => ['\\', 'b']
    | 9 => ['\\', 't']
    | 10 => ['\\', 'n']
    | 12 => ['\\', 'f']
    | 13 => ['\\', 'r']
    | n => ['\\', 'u', '0', '0', Hexadecimal.digit (n / 16),
      Hexadecimal.digit (n % 16)]
  else [c]

/-- A string in its quotes. -/
def quote (s : List Char) : List Char := '"' :: s.flatMap escape ++ ['"']

/-- An integer. -/
def intChars (n : Int) : List Char :=
  if n < 0 then '-' :: Decimal.digits n.natAbs else Decimal.digits n.natAbs

mutual

/-- The text of a value. -/
def chars : Json → List Char
  | .null => "null".toList
  | .bool true => "true".toList
  | .bool false => "false".toList
  | .int n => intChars n
  | .text s => quote s.toList
  | .time t => quote t.chars
  | .list items => '[' :: itemsChars items ++ [']']
  | .record fields => '\x7b' :: fieldsChars fields ++ ['\x7d']

/-- The texts of the items of a list, with commas between them. -/
def itemsChars : List Json → List Char
  | [] => []
  | [v] => v.chars
  | v :: rest => v.chars ++ ',' :: itemsChars rest

/-- The names and values of the fields of a record, with commas between them. -/
def fieldsChars : List (String × Json) → List Char
  | [] => []
  | [(name, v)] => quote name.toList ++ ':' :: v.chars
  | (name, v) :: rest => quote name.toList ++ ':' :: v.chars ++ ',' :: fieldsChars rest

end

/-- The text of a value. -/
def render (v : Json) : String := String.ofList v.chars

/-- The value of a field that may be missing: nothing is written for it. -/
def optional (name : String) : Option Json → List (String × Json)
  | some v => [(name, v)]
  | none => []

/-- A character stands for itself exactly if it is no quote, no backslash and
no control character. -/
theorem escape_eq_self_iff (c : Char) :
    escape c = [c] ↔ c ≠ '"' ∧ c ≠ '\\' ∧ 32 ≤ c.toNat := by
  unfold escape
  split
  · rename_i h; simp [h]
  · rename_i hq
    split
    · rename_i h; simp [h]
    · rename_i hb
      split
      · rename_i hc
        refine iff_of_false ?_ (by omega)
        split <;> simp
      · rename_i hc
        exact iff_of_true rfl ⟨hq, hb, by omega⟩

end Json

end ReviewDesk
