/-!
# Decimal digits

Numbers are written with the ten ASCII digits, and read digit by digit from
the left.

* `digit?_eq_some` — only the ten digits have a value, and it is below ten.
-/

namespace ReviewDesk

namespace Decimal

/-- The value of a digit. -/
def digit? (c : Char) : Option Nat :=
  if 48 ≤ c.toNat ∧ c.toNat ≤ 57 then some (c.toNat - 48) else none

/-- The digits of a number, without leading zeros. -/
def digits (n : Nat) : List Char := Nat.toDigits 10 n

/-- The digits of a number, with zeros in front up to the given width. -/
def padded (width n : Nat) : List Char :=
  List.replicate (width - (digits n).length) '0' ++ digits n

/-- The number that a list of digits stands for; nothing if one of them is no
digit. -/
def value? (cs : List Char) : Option Nat :=
  cs.foldl (fun n? c => do return (← n?) * 10 + (← digit? c)) (some 0)

theorem digit?_eq_some {c : Char} {d : Nat} (h : digit? c = some d) :
    d < 10 ∧ c.toNat = 48 + d := by
  unfold digit? at h
  split at h
  · cases h; omega
  · cases h

end Decimal

end ReviewDesk
