import ReviewDesk.Text.Decimal

/-!
# UTF-8

Bytes are read as characters one after the other.  After each byte either a
character is complete, or more bytes are wanted and the next one is confined to
a range, which rules out overlong forms, surrogates and numbers above the last
character.  A byte that does not fit ends what came before it as broken and is
looked at again as the start of a character.

Reading gives the pieces of the text, characters and broken ones: strict
reading refuses the first broken piece and tells where it stands, lenient
reading puts the replacement character in the place of each.

* `decode?_eq_none_iff` — strict reading fails exactly if a piece is broken.
-/

namespace ReviewDesk

namespace Utf8

/-- A character of which some bytes are still to come. -/
structure Unfinished where
  /-- How many bytes have come. -/
  seen : Nat
  /-- How many bytes are to come. -/
  wanted : Nat
  /-- The least byte that may come next. -/
  low : Nat
  /-- The greatest byte that may come next. -/
  high : Nat
  /-- The bits so far. -/
  bits : Nat
deriving DecidableEq

/-- What bytes turn out to be. -/
inductive Piece where
  | char (c : Char)
  /-- So many bytes that cannot be part of a character. -/
  | broken (length : Nat)
  /-- The start of a character behind which the text ends. -/
  | cut
deriving DecidableEq

namespace Piece

/-- The character, if it is one. -/
def char? : Piece → Option Char
  | char c => some c
  | _ => none

/-- Whether it is a character. -/
def isChar (p : Piece) : Bool := p.char?.isSome

/-- How many bytes are broken, unless the text ends among them. -/
def brokenLength? : Piece → Option Nat
  | broken n => some n
  | _ => none

end Piece

/-- What a byte is at the start of a character. -/
inductive Lead where
  | char (c : Char)
  | unfinished (u : Unfinished)
  | broken

/-- Looks at a byte as the start of a character. -/
def lead (b : Nat) : Lead :=
  if b < 0x80 then .char (Char.ofNat b)
  else if b < 0xC2 then .broken
  else if b < 0xE0 then .unfinished ⟨1, 1, 0x80, 0xBF, b - 0xC0⟩
  else if b = 0xE0 then .unfinished ⟨1, 2, 0xA0, 0xBF, 0⟩
  else if b = 0xED then .unfinished ⟨1, 2, 0x80, 0x9F, 0xD⟩
  else if b < 0xF0 then .unfinished ⟨1, 2, 0x80, 0xBF, b - 0xE0⟩
  else if b = 0xF0 then .unfinished ⟨1, 3, 0x90, 0xBF, 0⟩
  else if b < 0xF4 then .unfinished ⟨1, 3, 0x80, 0xBF, b - 0xF0⟩
  else if b = 0xF4 then .unfinished ⟨1, 3, 0x80, 0x8F, 4⟩
  else .broken

/-- How far reading has come: the pieces so far, last first, and the character
that is unfinished. -/
structure Reading where
  done : List Piece := []
  open? : Option Unfinished := none

namespace Reading

/-- Reads a byte as the start of a character. -/
def start (done : List Piece) (b : Nat) : Reading :=
  match lead b with
  | .char c => ⟨.char c :: done, none⟩
  | .unfinished u => ⟨done, some u⟩
  | .broken => ⟨.broken 1 :: done, none⟩

/-- Reads a byte. -/
def step (r : Reading) (byte : UInt8) : Reading :=
  let b := byte.toNat
  match r.open? with
  | none => start r.done b
  | some u =>
    if u.low ≤ b ∧ b ≤ u.high then
      let bits := u.bits * 64 + (b - 0x80)
      if u.wanted ≤ 1 then ⟨.char (Char.ofNat bits) :: r.done, none⟩
      else ⟨r.done, some ⟨u.seen + 1, u.wanted - 1, 0x80, 0xBF, bits⟩⟩
    else start (.broken u.seen :: r.done) b

/-- The pieces read, first one first; an unfinished character is cut. -/
def finish (r : Reading) : List Piece :=
  (if r.open?.isSome then .cut :: r.done else r.done).reverse

end Reading

/-- Reads bytes. -/
def read (bytes : List UInt8) : List Piece := (bytes.foldl Reading.step {}).finish

/-- Where bytes stop being text. -/
structure Fault where
  /-- How many bytes stand before. -/
  index : Nat
  /-- How many bytes are broken; none, if the text ends within a character. -/
  length? : Option Nat
deriving DecidableEq

/-- What is said of bytes that stop being text. -/
def Fault.message (f : Fault) : String :=
  let number (n : Nat) : String := String.ofList (Decimal.digits n)
  match f.length? with
  | some n => "invalid utf-8 sequence of " ++ number n ++ " bytes from index " ++ number f.index
  | none => "incomplete utf-8 byte sequence from index " ++ number f.index

/-- Reads bytes that must not have a broken piece. -/
def decode (bytes : List UInt8) : Except Fault String :=
  let pieces := read bytes
  let chars := (pieces.takeWhile Piece.isChar).filterMap Piece.char?
  match pieces.find? (! ·.isChar) with
  | none => .ok (String.ofList chars)
  | some piece => .error ⟨chars.foldl (· + ·.utf8Size) 0, piece.brokenLength?⟩

/-- The text of bytes that have no broken piece. -/
def decode? (bytes : List UInt8) : Option String := (decode bytes).toOption

/-- Reads bytes and puts the replacement character in the place of every
broken piece. -/
def decodeLossy (bytes : List UInt8) : String :=
  String.ofList ((read bytes).map (·.char?.getD '\ufffd'))

/-- The bytes of a text. -/
def encode (s : String) : List UInt8 := s.toList.flatMap String.utf8EncodeChar

/-- Strict reading fails exactly if a piece is broken. -/
theorem decode?_eq_none_iff {bytes : List UInt8} :
    decode? bytes = none ↔ ∃ p ∈ read bytes, p.isChar = false := by
  unfold decode? decode
  dsimp only
  split
  · rename_i h
    simpa [Except.toOption] using h
  · rename_i p h
    simp only [Except.toOption, true_iff]
    exact ⟨p, List.mem_of_find?_eq_some h, by simpa using List.find?_some h⟩

end Utf8

end ReviewDesk
