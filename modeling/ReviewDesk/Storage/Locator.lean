import ReviewDesk.Text.Ascii
import ReviewDesk.Text.Decimal
import ReviewDesk.Text.Percent
import ReviewDesk.Text.Pieces
import ReviewDesk.Text.Utf8

/-!
# Locators of files

Who gives access to files is told by a locator which one.  It is the path, or a
URL with the scheme `file`, written small, of this machine.  Such a URL has a
path and perhaps options behind a question mark; in both percent signs stand
for bytes, and a byte zero hides what stands behind it.  A fragment does not
count, and neither does an option without a name.
-/

namespace ReviewDesk

/-- What tells which file, and how. -/
structure Locator where
  path : List UInt8
  /-- Names and values, in their order. -/
  options : List (String × String) := []
deriving DecidableEq

namespace Locator

/-- What URLs of files start with. -/
def scheme : List Char := "file:".toList

/-- Whether a locator is a URL. -/
def isUrl (text : List Char) : Bool := scheme.isPrefixOf text

/-- The bytes that a part of a URL stands for. -/
def bytes (part : List Char) : List UInt8 := (Percent.bytes part).takeWhile (· ≠ 0)

/-- The option that is written so, if it has a name. -/
def option? (text : List Char) : Option (String × String) :=
  let (name, value) := Pieces.leading (· ≠ '=') text
  if (bytes name).isEmpty then none
  else some (Utf8.decodeLossy (bytes name), Utf8.decodeLossy (bytes (value.drop 1)))

/-- What stands behind the name of the machine; or else that name, if it is
another machine. -/
def behindMachine : List Char → Except String (List Char)
  | '/' :: '/' :: rest =>
    let (name, rest) := Pieces.leading (· ≠ '/') rest
    if name = [] ∨ name = "localhost".toList then .ok rest else .error (String.ofList name)
  | rest => .ok rest

/-- The locator that a text is; or else the other machine that it names. -/
def ofText (text : List Char) : Except String Locator :=
  if isUrl text then do
    let rest ← behindMachine (text.drop scheme.length)
    let (path, options) := Pieces.leading (· ≠ '?') (rest.takeWhile (· ≠ '#'))
    return {
      path := bytes path
      options := (Pieces.cutAt '&' (options.drop 1)).filterMap option? }
  else .ok { path := text.flatMap String.utf8EncodeChar }

/-- The value of the first option with a name. -/
def first? (l : Locator) (name : String) : Option String :=
  (l.options.find? (·.1 = name)).map (·.2)

/-- The value of the last option with a name. -/
def last? (l : Locator) (name : String) : Option String :=
  ((l.options.filter (·.1 = name)).getLast?).map (·.2)

/-- A number from digits, if it is below 2³¹; else zero. -/
def small (base : Nat) (digits : List Nat) : Nat :=
  let n := digits.foldl (fun n d => n * base + d) 0
  if n < 1 <<< 31 then n else 0

/-- The number at the start of a value, in hexadecimal digits behind `0x`. -/
def number : List Char → Nat
  | cs@('0' :: x :: rest) =>
    let digits := (rest.map Hexadecimal.digit?).takeWhile Option.isSome
    if (x = 'x' ∨ x = 'X') ∧ digits ≠ [] then small 16 (digits.filterMap id) else decimal cs
  | cs => decimal cs
where
  /-- The number in decimal digits. -/
  decimal (cs : List Char) : Nat :=
    small 10 (((cs.map Decimal.digit?).takeWhile Option.isSome).filterMap id)

/-- Whether a value switches something on: one of three words, or a number of
which the last byte is not zero. -/
def isOn (value : String) : Bool :=
  if (value.toList.head?.bind Decimal.digit?).isSome then number value.toList % 256 ≠ 0
  else ["on", "yes", "true"].contains (Ascii.lower value)

end Locator

end ReviewDesk
