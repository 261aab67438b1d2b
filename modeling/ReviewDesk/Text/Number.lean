import ReviewDesk.Text.Decimal

/-!
# Numbers with a limit

A number is an optional plus and decimal digits.  It is looked at from the left,
so that of two faults the first one counts: a character that is no digit, or a
digit that takes the number beyond its limit.

* `read_le` — a number that was read keeps its limit.
-/

namespace ReviewDesk

namespace Number

/-- Why a text is no such number. -/
inductive Fault where
  | noDigits
  | badDigit
  | tooLarge
deriving DecidableEq, Repr

/-- What is said of a text that is no such number. -/
def Fault.message : Fault → String
  | noDigits => "cannot parse integer from empty string"
  | badDigit => "invalid digit found in string"
  | tooLarge => "number too large to fit in target type"

/-- The greatest port. -/
def portLimit : Nat := 65535

/-- The greatest word of 64 bits. -/
def wordLimit : Nat := 18446744073709551615

/-- Reads further digits of a number that must not exceed `limit`. -/
def readDigits (limit : Nat) : Nat → List Char → Except Fault Nat
  | n, [] => .ok n
  | n, c :: rest =>
    match Decimal.digit? c with
    | none => .error .badDigit
    | some d => if limit < n * 10 + d then .error .tooLarge else readDigits limit (n * 10 + d) rest

/-- Reads a number that must not exceed `limit`. -/
def read (limit : Nat) : List Char → Except Fault Nat
  | [] => .error .noDigits
  | '+' :: c :: rest => readDigits limit 0 (c :: rest)
  | cs => readDigits limit 0 cs

theorem readDigits_le {limit n m : Nat} {cs : List Char} (hn : n ≤ limit)
    (h : readDigits limit n cs = .ok m) : m ≤ limit := by
  induction cs generalizing n with
  | nil => cases h; exact hn
  | cons c rest ih =>
    unfold readDigits at h
    split at h
    · cases h
    · split at h
      · cases h
      · rename_i hle
        exact ih (Nat.not_lt.1 hle) h

/-- A number that was read keeps its limit. -/
theorem read_le {limit m : Nat} {cs : List Char} (h : read limit cs = .ok m) : m ≤ limit := by
  unfold read at h
  split at h
  · cases h
  · exact readDigits_le (Nat.zero_le _) h
  · exact readDigits_le (Nat.zero_le _) h

end Number

end ReviewDesk
