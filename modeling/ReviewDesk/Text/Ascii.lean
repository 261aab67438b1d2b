/-!
# ASCII

What travels as bytes is mostly ASCII, where a byte is the character of its
number.  Letters are compared without regard to case by their lower forms.

* `utf8EncodeChar_char` — an ASCII byte is what UTF-8 writes for its character.
-/

namespace ReviewDesk

namespace Ascii

/-- The character whose number a byte is. -/
def char (b : UInt8) : Char := Char.ofNat b.toNat

/-- The text of ASCII bytes. -/
def text (bytes : List UInt8) : String := String.ofList (bytes.map char)

/-- A text in lower case, as far as it is ASCII. -/
def lower (s : String) : String := String.ofList (s.toList.map Char.toLower)

/-- Whether a text has only characters that can be seen, blanks and tabs. -/
def isVisible (s : String) : Bool :=
  s.toList.all fun c => c = '\t' || (32 ≤ c.toNat && c.toNat < 127)

theorem toNat_char (b : UInt8) : (char b).toNat = b.toNat := by
  have h : b.toNat.isValidChar := Or.inl (by have := b.toNat_lt; omega)
  rw [char, Char.ofNat, dif_pos h]
  rfl

theorem utf8EncodeChar_char {b : UInt8} (h : b.toNat < 128) :
    String.utf8EncodeChar (char b) = [b] := by
  have hb : (char b).val.toNat = b.toNat := toNat_char b
  simp [String.utf8EncodeChar, hb, show b.toNat ≤ 127 by omega]

end Ascii

end ReviewDesk
