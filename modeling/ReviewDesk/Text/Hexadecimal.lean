/-!
# Hexadecimal digits

A digit below sixteen is one of the ten decimal digits or one of six letters;
letters are written small, and read in either case.

* `digit?_digit` — what is written for a number below sixteen is read as it.
-/

namespace ReviewDesk

namespace Hexadecimal

/-- The value of a digit. -/
def digit? (c : Char) : Option Nat :=
  let n := c.toNat
  if 48 ≤ n ∧ n ≤ 57 then some (n - 48)
  else if 65 ≤ n ∧ n ≤ 70 then some (n - 55)
  else if 97 ≤ n ∧ n ≤ 102 then some (n - 87)
  else none

/-- The digit of a number below sixteen. -/
def digit (n : Nat) : Char :=
  if n < 10 then Char.ofNat (48 + n) else Char.ofNat (87 + n)

/-- What is written for a number below sixteen is read as it. -/
theorem digit?_digit : ∀ n < 16, digit? (digit n) = some n := by decide

end Hexadecimal

end ReviewDesk
