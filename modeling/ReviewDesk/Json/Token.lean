import ReviewDesk.Json.Numeral
import ReviewDesk.Text.Ascii
import ReviewDesk.Text.Hexadecimal
import ReviewDesk.Text.Utf8

/-!
# JSON tokens

Bytes are cut into the tokens of a JSON text from left to right, one byte at a
time, up to the first byte that cannot be part of one.  What lies behind that
byte has no tokens, so a text that breaks off and one that goes wrong look the
same.

A string token holds its text, unless it has none: its bytes may not be UTF-8,
or an escape may name half of a surrogate pair.  Such a string is a token all
the same, since it can stand where nobody reads it.
-/

namespace ReviewDesk

namespace Json

/-- A token of a JSON text. -/
inductive Token where
  | openList
  | closeList
  | openRecord
  | closeRecord
  | comma
  | colon
  | null
  | bool (b : Bool)
  | number (isInRange : Bool)
  /-- A string with its text, if it has one. -/
  | text (s : Option String)
deriving DecidableEq, Repr

/-- A string of which the closing quote is still to come. -/
structure OpenText where
  /-- The bytes of its text so far, last first. -/
  bytes : List UInt8 := []
  /-- The first half of a surrogate pair, if one has just been named. -/
  half? : Option Nat := none
  /-- Whether it has a text so far. -/
  isSound : Bool := true

namespace OpenText

/-- The string without the half of a pair that stays alone. -/
def settle (t : OpenText) : OpenText :=
  if t.half?.isSome then { t with half? := none, isSound := false } else t

/-- The string with one more byte. -/
def byte (t : OpenText) (b : UInt8) : OpenText :=
  let t := t.settle
  { t with bytes := b :: t.bytes }

/-- The string with one more character, given by its number. -/
def char (t : OpenText) (n : Nat) : OpenText :=
  { t with bytes := (String.utf8EncodeChar (Char.ofNat n)).reverse ++ t.bytes, half? := none }

/-- The string with one more unit of UTF-16. -/
def unit (t : OpenText) (u : Nat) : OpenText :=
  let isFirst := 0xD800 ≤ u ∧ u < 0xDC00
  let isSecond := 0xDC00 ≤ u ∧ u < 0xE000
  match t.half? with
  | some h =>
    if isSecond then t.char (0x10000 + (h - 0xD800) * 0x400 + (u - 0xDC00))
    else { t with half? := none, isSound := false }
  | none =>
    if isFirst then { t with half? := some u }
    else if isSecond then { t with isSound := false }
    else t.char u

/-- The token of a string whose closing quote has come. -/
def token (t : OpenText) : Token :=
  let t := t.settle
  .text (if t.isSound then Utf8.decode? t.bytes.reverse else none)

end OpenText

/-- What is being scanned. -/
inductive Scan where
  /-- Nothing: a token may start. -/
  | idle
  /-- A string. -/
  | text (t : OpenText)
  /-- A string, behind a backslash. -/
  | escape (t : OpenText)
  /-- A string, within the four digits of a unit. -/
  | unit (t : OpenText) (missing value : Nat)
  /-- A number, behind its minus. -/
  | minus
  /-- A number, behind its leading zero. -/
  | zero
  /-- A number, within its digits, of which the last ones may not count. -/
  | digits (n : Numeral) (isFull : Bool)
  /-- A number, behind its point. -/
  | point (n : Numeral)
  /-- A number, within its fraction, of which the last digits may not count. -/
  | fraction (n : Numeral) (isFull : Bool)
  /-- A number, behind the mark of its power. -/
  | mark (n : Numeral)
  /-- A number, behind the sign of its power. -/
  | sign (n : Numeral) (isNegative : Bool)
  /-- A number, within the digits of its power. -/
  | power (n : Numeral) (isNegative : Bool) (value : Nat)
  /-- A word, of which the given bytes are to come. -/
  | word (missing : List UInt8) (token : Token)
  /-- Nothing any more. -/
  | stopped

/-- The tokens so far, last first, and what is being scanned. -/
structure Scanner where
  tokens : List Token := []
  scan : Scan := .idle

namespace Scanner

/-- The value of a digit. -/
def digit? (b : UInt8) : Option Nat :=
  if 48 ≤ b.toNat ∧ b.toNat ≤ 57 then some (b.toNat - 48) else none

/-- The byte that a letter behind a backslash stands for. -/
def escaped? (b : UInt8) : Option UInt8 :=
  match Ascii.char b with
  | '"' => some 34
  | '\\' => some 92
  | '/' => some 47
  | 'b' => some 8
  | 'f' => some 12
  | 'n' => some 10
  | 'r' => some 13
  | 't' => some 9
  | _ => none

/-- Stops for good. -/
def stop (tokens : List Token) : Scanner := ⟨tokens, .stopped⟩

/-- Looks at a byte as the start of a token. -/
def start (tokens : List Token) (b : UInt8) : Scanner :=
  match Ascii.char b with
  | ' ' | '\t' | '\n' | '\r' => ⟨tokens, .idle⟩
  | '[' => ⟨.openList :: tokens, .idle⟩
  | ']' => ⟨.closeList :: tokens, .idle⟩
  | '\x7b' => ⟨.openRecord :: tokens, .idle⟩
  | '\x7d' => ⟨.closeRecord :: tokens, .idle⟩
  | ',' => ⟨.comma :: tokens, .idle⟩
  | ':' => ⟨.colon :: tokens, .idle⟩
  | '"' => ⟨tokens, .text {}⟩
  | '-' => ⟨tokens, .minus⟩
  | 't' => ⟨tokens, .word [114, 117, 101] (.bool true)⟩
  | 'f' => ⟨tokens, .word [97, 108, 115, 101] (.bool false)⟩
  | 'n' => ⟨tokens, .word [117, 108, 108] .null⟩
  | _ =>
    match digit? b with
    | some 0 => ⟨tokens, .zero⟩
    | some d => ⟨tokens, .digits ⟨d, 0⟩ false⟩
    | none => stop tokens

/-- Ends a number at a byte that is no part of it. -/
def finish (tokens : List Token) (n : Numeral) (b : UInt8) : Scanner :=
  start (.number n.isInRange :: tokens) b

/-- Whether a byte marks the power of a number. -/
def isMark (b : UInt8) : Bool := b = 101 || b = 69

/-- Goes on with a number behind its last digit before the point. -/
def afterDigits (tokens : List Token) (n : Numeral) (b : UInt8) : Scanner :=
  if b = 46 then ⟨tokens, .point n⟩
  else if isMark b then ⟨tokens, .mark n⟩
  else finish tokens n b

/-- Takes one more digit before the point: once the word is full, digits only
count. -/
def pushDigit (n : Numeral) (isFull : Bool) (d : Nat) : Scan :=
  if isFull then .digits (n.scaled 1) true
  else
    match n.push? d with
    | some m => .digits m false
    | none => .digits (n.scaled 1) true

/-- Takes one more digit behind the point: once the word is full, digits do not
matter. -/
def pushFraction (n : Numeral) (isFull : Bool) (d : Nat) : Scan :=
  if isFull then .fraction n true
  else
    match n.push? d with
    | some m => .fraction (m.scaled (-1)) false
    | none => .fraction n true

/-- A bound above which a power need not be known exactly. -/
def powerBound : Nat := 1000000000

/-- The power with one more digit. -/
def pushPower (value d : Nat) : Nat := min powerBound (value * 10 + d)

/-- The number with its power. -/
def powered (n : Numeral) (isNegative : Bool) (value : Nat) : Numeral :=
  n.scaled (if isNegative then -(value : Int) else value)

/-- Takes a byte. -/
def step (s : Scanner) (b : UInt8) : Scanner :=
  let tokens := s.tokens
  match s.scan with
  | .idle => start tokens b
  | .text t =>
    if b = 34 then ⟨t.token :: tokens, .idle⟩
    else if b = 92 then ⟨tokens, .escape t⟩
    else if b < 32 then stop tokens
    else ⟨tokens, .text (t.byte b)⟩
  | .escape t =>
    if b = 117 then ⟨tokens, .unit t 4 0⟩
    else
      match escaped? b with
      | some c => ⟨tokens, .text (t.byte c)⟩
      | none => stop tokens
  | .unit t missing value =>
    match Hexadecimal.digit? (Ascii.char b) with
    | some d =>
      let value := value * 16 + d
      if missing ≤ 1 then ⟨tokens, .text (t.unit value)⟩ else ⟨tokens, .unit t (missing - 1) value⟩
    | none => stop tokens
  | .minus =>
    match digit? b with
    | some 0 => ⟨tokens, .zero⟩
    | some d => ⟨tokens, .digits ⟨d, 0⟩ false⟩
    | none => stop tokens
  | .zero => if (digit? b).isSome then stop tokens else afterDigits tokens ⟨0, 0⟩ b
  | .digits n isFull =>
    match digit? b with
    | some d => ⟨tokens, pushDigit n isFull d⟩
    | none => afterDigits tokens n b
  | .point n =>
    match digit? b with
    | some d => ⟨tokens, pushFraction n false d⟩
    | none => stop tokens
  | .fraction n isFull =>
    match digit? b with
    | some d => ⟨tokens, pushFraction n isFull d⟩
    | none => if isMark b then ⟨tokens, .mark n⟩ else finish tokens n b
  | .mark n =>
    if b = 43 then ⟨tokens, .sign n false⟩
    else if b = 45 then ⟨tokens, .sign n true⟩
    else
      match digit? b with
      | some d => ⟨tokens, .power n false d⟩
      | none => stop tokens
  | .sign n isNegative =>
    match digit? b with
    | some d => ⟨tokens, .power n isNegative d⟩
    | none => stop tokens
  | .power n isNegative value =>
    match digit? b with
    | some d => ⟨tokens, .power n isNegative (pushPower value d)⟩
    | none => finish tokens (powered n isNegative value) b
  | .word missing token =>
    match missing with
    | [c] => if b = c then ⟨token :: tokens, .idle⟩ else stop tokens
    | c :: rest => if b = c then ⟨tokens, .word rest token⟩ else stop tokens
    | [] => stop tokens
  | .stopped => s

/-- The tokens, first one first; the end of the text ends a number. -/
def result (s : Scanner) : List Token :=
  let number (n : Numeral) : List Token := .number n.isInRange :: s.tokens
  (match s.scan with
    | .zero => number ⟨0, 0⟩
    | .digits n _ => number n
    | .fraction n _ => number n
    | .power n isNegative value => number (powered n isNegative value)
    | _ => s.tokens).reverse

end Scanner

/-- The tokens of a text, up to the first byte that cannot be part of one. -/
def tokens (text : List UInt8) : List Token := (text.foldl Scanner.step {}).result

end Json

end ReviewDesk
