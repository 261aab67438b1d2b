import ReviewDesk.Text.Ascii
import ReviewDesk.Text.Hexadecimal

/-!
# Percent signs for bytes

Within a URL a percent sign with two hexadecimal digits behind it stands for a
byte.  Every other percent sign stands for itself, and every other character
for its bytes in UTF-8.

* `bytes_byte` — any byte can be written so;
* `bytes_encode` — what is written for bytes is read as them.
-/

namespace ReviewDesk

namespace Percent

/-- The byte that two hexadecimal digits stand for. -/
def byte? (a b : Char) : Option UInt8 := do
  return ((← Hexadecimal.digit? a) * 16 + (← Hexadecimal.digit? b)).toUInt8

/-- The bytes that a part of a URL stands for. -/
def bytes : List Char → List UInt8
  | [] => []
  | '%' :: a :: b :: rest =>
    match byte? a b with
    | some v => v :: bytes rest
    | none => 37 :: bytes (a :: b :: rest)
  | c :: rest => String.utf8EncodeChar c ++ bytes rest

/-- A byte as it can always be written. -/
def byte (v : UInt8) : List Char :=
  ['%', Hexadecimal.digit (v.toNat / 16), Hexadecimal.digit (v.toNat % 16)]

/-- Whether a byte is written as the character it is: a letter, a digit or one
of four marks, all of them ASCII. -/
def isPlain (v : UInt8) : Bool :=
  let c := Ascii.char v
  v.toNat < 128 && (c.isAlphanum || c = '-' || c = '_' || c = '.' || c = '~')

/-- Bytes as they are written within a URL. -/
def encode (vs : List UInt8) : List Char :=
  vs.flatMap fun v => if isPlain v then [Ascii.char v] else byte v

theorem byte?_digit {a b : Nat} (ha : a < 16) (hb : b < 16) :
    byte? (Hexadecimal.digit a) (Hexadecimal.digit b) = some (a * 16 + b).toUInt8 := by
  unfold byte?
  rw [Hexadecimal.digit?_digit a ha, Hexadecimal.digit?_digit b hb]
  rfl

theorem bytes_byte (v : UInt8) (rest : List Char) : bytes (byte v ++ rest) = v :: bytes rest := by
  have hv : v.toNat < 256 := v.toNat_lt
  have hsum : v.toNat / 16 * 16 + v.toNat % 16 = v.toNat := by omega
  have h := byte?_digit (show v.toNat / 16 < 16 by omega) (show v.toNat % 16 < 16 by omega)
  rw [hsum] at h
  simp [byte, bytes, h]

theorem bytes_char {v : UInt8} (h : isPlain v = true) (rest : List Char) :
    bytes (Ascii.char v :: rest) = v :: bytes rest := by
  have hlt : v.toNat < 128 := by
    simp only [isPlain, Bool.and_eq_true, decide_eq_true_eq] at h
    exact h.1
  have hne : Ascii.char v ≠ '%' := by
    intro hc
    rw [isPlain, hc] at h
    revert h
    simp [show '%'.isAlphanum = false from by decide]
  rw [bytes, Ascii.utf8EncodeChar_char hlt, List.singleton_append]
  exact fun _ _ _ hc _ => hne hc

/-- What is written for bytes is read as them. -/
theorem bytes_encode (vs : List UInt8) : bytes (encode vs) = vs := by
  induction vs with
  | nil => rfl
  | cons v rest ih =>
    rw [encode, List.flatMap_cons, ← encode]
    split
    · rename_i h
      rw [List.singleton_append, bytes_char h, ih]
    · rw [bytes_byte, ih]

end Percent

end ReviewDesk
