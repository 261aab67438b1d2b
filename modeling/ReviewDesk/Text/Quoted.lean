import ReviewDesk.Text.Printable

/-!
# Quoted values

A value that could not be used is shown in an error message between double
quotes.  What would hide in a line of text is escaped: the quote and the
backslash, the usual controls by a letter, everything else that cannot be
shown by its number in braces.

* `escape_of_isPrintable` — a character that can be shown stands for itself,
  unless it is the quote or the backslash.
-/

namespace ReviewDesk

namespace Quoted

/-- A character as it is shown between the quotes. -/
def escape (c : Char) : List Char :=
  if c = '\x00' then ['\\', '0']
  else if c = '\t' then ['\\', 't']
  else if c = '\n' then ['\\', 'n']
  else if c = '\r' then ['\\', 'r']
  else if c = '"' ∨ c = '\\' then ['\\', c]
  else if Printable.isPrintable c then [c]
  else '\\' :: 'u' :: '\x7b' :: Nat.toDigits 16 c.toNat ++ ['\x7d']

/-- A text between quotes. -/
def quote (s : String) : String := String.ofList ('"' :: s.toList.flatMap escape ++ ['"'])

theorem escape_of_isPrintable {c : Char} (h : Printable.isPrintable c = true)
    (hq : c ≠ '"') (hb : c ≠ '\\') : escape c = [c] := by
  unfold escape
  split
  · rename_i h0; subst h0; exact absurd h (by decide)
  split
  · rename_i h0; subst h0; exact absurd h (by decide)
  split
  · rename_i h0; subst h0; exact absurd h (by decide)
  split
  · rename_i h0; subst h0; exact absurd h (by decide)
  rw [if_neg (by simp [hq, hb])]

end Quoted

end ReviewDesk
