/-!
# Numerals

A number in a JSON text is kept as it is scanned: as many leading digits as fit
a word of 64 bits, and a power of ten.  It is in range if the double nearest to
the digits, times the double nearest to the power, is a finite double.
-/

namespace ReviewDesk

/-- A scanned number: `significand * 10 ^ exponent`. -/
structure Numeral where
  significand : Nat
  exponent : Int
deriving DecidableEq, Repr

namespace Numeral

/-- The first number that does not fit a word of 64 bits. -/
def wordLimit : Nat := 1 <<< 64

/-- The double nearest to a natural number, ties to the even one, if it is
finite. -/
def nearestDouble (n : Nat) : Nat :=
  let dropped := n.log2 + 1 - 53
  if dropped = 0 then n
  else
    let unit := 1 <<< dropped
    let (kept, rest) := (n / unit, n % unit)
    let isUp := unit / 2 < rest ∨ rest = unit / 2 ∧ kept % 2 = 1
    (if isUp then kept + 1 else kept) * unit

/-- The least number that is rounded to infinity: half a place above the
greatest finite double. -/
def infinityLimit : Nat := (1 <<< 54 - 1) <<< 970

/-- The greatest power of ten below infinity. -/
def maxPower : Nat := 308

/-- Whether a number can be taken as a double. -/
def isInRange (n : Numeral) : Bool :=
  n.significand = 0 || n.exponent < 0 ||
    (n.exponent ≤ maxPower &&
      nearestDouble n.significand * nearestDouble (Nat.pow 10 n.exponent.toNat) < infinityLimit)

/-- The number with one more digit, if the word still holds it. -/
def push? (n : Numeral) (digit : Nat) : Option Numeral :=
  let significand := n.significand * 10 + digit
  if significand < wordLimit then some { n with significand } else none

/-- The number ten to the `power` times as large. -/
def scaled (n : Numeral) (power : Int) : Numeral := { n with exponent := n.exponent + power }

end Numeral

end ReviewDesk
