import ReviewDesk.Http.Token
import ReviewDesk.Text.Pieces
import ReviewDesk.Text.Utf8

/-!
# Heads of requests

A request comes as bytes: a first line with its method, its target and the
version of the protocol, a line for each header field, and an empty line.  A
line ends with a line feed, before which a carriage return may stand, and empty
lines before the first one are skipped.

What cannot be read so is refused, and so is what is too long: a target, the
name of a field, the list of fields, or the head as a whole.

* `fields_length_le` — no head has more than a hundred fields.
-/

namespace ReviewDesk

namespace Http

/-- Why bytes are refused before anybody looks for what they ask. -/
inductive Refusal where
  | malformed
  | longTarget
  | largeHead
deriving DecidableEq, Repr

/-- The status of the response to bytes that are refused. -/
def Refusal.status : Refusal → Nat
  | malformed => 400
  | longTarget => 414
  | largeHead => 431

/-- The version of the protocol. -/
inductive Version where
  /-- Version 1.0. -/
  | old
  /-- Version 1.1. -/
  | current
deriving DecidableEq, Repr

/-- A header field: its name in lower case and its value. -/
abbrev Field := String × String

/-- The head of a request. -/
structure Head where
  method : String
  target : String
  version : Version
  fields : List Field
deriving DecidableEq

namespace Lines

/-- Whether a byte can be part of a method or a field's name. -/
def isTokenByte (b : UInt8) : Bool := Token.isChar (Ascii.char b)

/-- Whether a byte can be part of a target. -/
def isTargetByte (b : UInt8) : Bool := 32 < b && b ≠ 127

/-- Whether a byte is white space around a value. -/
def isPadding (b : UInt8) : Bool := b = 32 || b = 9

/-- Whether a byte can be part of a value. -/
def isValueByte (b : UInt8) : Bool := b = 9 || (32 ≤ b && b ≠ 127)

/-- What stands behind the end of a line, if a line ends here. -/
def behindLine? : List UInt8 → Option (List UInt8)
  | 10 :: rest => some rest
  | 13 :: 10 :: rest => some rest
  | _ => none

/-- What stands behind a blank, if one stands here. -/
def behindBlank? : List UInt8 → Option (List UInt8)
  | 32 :: rest => some rest
  | _ => none

/-- What stands behind the empty lines at the start. -/
def skipEmptyLines : List UInt8 → List UInt8
  | 10 :: rest => skipEmptyLines rest
  | 13 :: 10 :: rest => skipEmptyLines rest
  | bytes => bytes

/-- A version and what stands behind it. -/
def version? (bytes : List UInt8) : Option (Version × List UInt8) :=
  let rest := bytes.drop 8
  match Ascii.text (bytes.take 8) with
  | "HTTP/1.0" => some (.old, rest)
  | "HTTP/1.1" => some (.current, rest)
  | _ => none

/-- The method, the bytes of the target and the version of a first line, and
what stands behind it. -/
def firstLine? (bytes : List UInt8) :
    Option ((String × List UInt8 × Version) × List UInt8) := do
  let (method, rest) := Pieces.leading isTokenByte bytes
  let (target, rest) := Pieces.leading isTargetByte (← behindBlank? rest)
  let (version, rest) ← version? (← behindBlank? rest)
  let rest ← behindLine? rest
  if method.isEmpty || target.isEmpty then none
  else some ((Ascii.text method, target, version), rest)

/-- A value without the white space around it. -/
def trim (bytes : List UInt8) : List UInt8 :=
  ((bytes.dropWhile isPadding).reverse.dropWhile isPadding).reverse

/-- A field and what stands behind its line. -/
def field? (bytes : List UInt8) : Option (Field × List UInt8) :=
  match Pieces.leading isTokenByte bytes with
  | ([], _) => none
  | (name, 58 :: rest) =>
    let (value, rest) := Pieces.leading isValueByte rest
    (behindLine? rest).map fun rest =>
      ((Ascii.lower (Ascii.text name), Utf8.decodeLossy (trim value)), rest)
  | _ => none

/-- The fields up to the empty line that ends them, at most as many as there is
room for, and what stands behind. -/
def fields (room : Nat) (bytes : List UInt8) : Except Refusal (List Field × List UInt8) :=
  match behindLine? bytes with
  | some rest => .ok ([], rest)
  | none =>
    match field? bytes, room with
    | none, _ => .error .malformed
    | some _, 0 => .error .largeHead
    | some (field, rest), room + 1 =>
      (fields room rest).map fun (later, rest) => (field :: later, rest)

theorem fields_length_le {room : Nat} {bytes rest : List UInt8} {fs : List Field}
    (h : fields room bytes = .ok (fs, rest)) : fs.length ≤ room := by
  fun_induction fields room bytes generalizing fs rest with
  | case1 => cases h; exact Nat.zero_le _
  | case2 => cases h
  | case3 => cases h
  | case4 bytes _ field behind room _ ih =>
    cases hl : fields room behind with
    | error e => rw [hl] at h; cases h
    | ok later =>
      rw [hl] at h
      cases h
      exact Nat.succ_le_succ (ih hl)

end Lines

namespace Head

/-- The most bytes of a head. -/
def maxLength : Nat := 8192 + 4096 * 100

/-- The most fields of a head. -/
def maxFields : Nat := 100

/-- The most bytes of a target. -/
def maxTarget : Nat := 65534

/-- The most bytes of a field's name. -/
def maxName : Nat := 65535

/-- Goes on only if a condition holds. -/
def require (isKept : Bool) (refusal : Refusal) : Except Refusal Unit :=
  if isKept then .ok () else .error refusal

/-- What an empty place is refused for, or what stands there. -/
def orMalformed {α : Type} (a? : Option α) : Except Refusal α :=
  a?.elim (.error .malformed) .ok

/-- Reads a head; what stands behind it is the rest. -/
def read (bytes : List UInt8) : Except Refusal (Head × List UInt8) := do
  let start := Lines.skipEmptyLines bytes
  let ((method, target, version), rest) ← orMalformed (Lines.firstLine? start)
  let (fields, rest) ← Lines.fields maxFields rest
  require (bytes.length - rest.length ≤ maxLength) .largeHead
  require (target.length ≤ maxTarget) .longTarget
  require (fields.all fun f => f.1.length ≤ maxName) .largeHead
  return (⟨method, ← orMalformed (Utf8.decode? target), version, fields⟩, rest)

end Head

end Http

end ReviewDesk
