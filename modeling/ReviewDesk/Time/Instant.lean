import ReviewDesk.Time.Calendar
import ReviewDesk.Text.Decimal

/-!
# Instants

A point in time is a second counted from the start of 1970 in UTC and a
fraction in nanoseconds.  A leap second is the fraction above one second of
the second before it.

Instants are written as RFC 3339 says, in UTC with `Z`, and with the fewest of
0, 3, 6 or 9 fraction digits that are exact; they are read with any offset.
-/

namespace ReviewDesk

/-- A point in time. -/
structure Instant where
  /-- Whole seconds since the start of 1970. -/
  seconds : Int
  /-- Nanoseconds beyond them; above 10⁹ within a leap second. -/
  nanos : Nat := 0
deriving DecidableEq, Repr, Inhabited

namespace Instant

/-- The start of 1970. -/
def epoch : Instant := ⟨0, 0⟩

instance : LT Instant :=
  ⟨fun s t => s.seconds < t.seconds ∨ s.seconds = t.seconds ∧ s.nanos < t.nanos⟩

instance (s t : Instant) : Decidable (s < t) :=
  inferInstanceAs (Decidable (_ ∨ _ ∧ _))

instance : LE Instant := ⟨fun s t => ¬ t < s⟩

instance (s t : Instant) : Decidable (s ≤ t) := inferInstanceAs (Decidable (¬ _))

/-- The instant a number of seconds later. -/
def plusSeconds (t : Instant) (s : Nat) : Instant := { t with seconds := t.seconds + s }

/-- The day of an instant. -/
def date (t : Instant) : Date := Date.ofDays (t.seconds / 86400)

/-- The digits of a year: four of them, with a sign in front of a year before
0 or after 9999. -/
def yearChars (year : Int) : List Char :=
  if year < 0 then '-' :: Decimal.padded 4 year.natAbs
  else if 9999 < year then '+' :: Decimal.padded 5 year.natAbs
  else Decimal.padded 4 year.natAbs

/-- The fraction of a second with its point, in the fewest groups of three
digits. -/
def fractionChars (nanos : Nat) : List Char :=
  if nanos = 0 then []
  else if nanos % 1000000 = 0 then '.' :: Decimal.padded 3 (nanos / 1000000)
  else if nanos % 1000 = 0 then '.' :: Decimal.padded 6 (nanos / 1000)
  else '.' :: Decimal.padded 9 nanos

/-- The written form of an instant. -/
def chars (t : Instant) : List Char :=
  let d := t.date
  let second := (t.seconds % 86400).toNat
  let leap := t.nanos / 1000000000
  yearChars d.year ++ '-' :: Decimal.padded 2 d.month ++ '-' :: Decimal.padded 2 d.day
    ++ 'T' :: Decimal.padded 2 (second / 3600)
    ++ ':' :: Decimal.padded 2 (second / 60 % 60)
    ++ ':' :: Decimal.padded 2 (second % 60 + leap)
    ++ fractionChars (t.nanos % 1000000000) ++ ['Z']

/-- The written form of an instant. -/
def text (t : Instant) : String := String.ofList t.chars

/-- Reads a number of exactly `width` digits. -/
def number? (width : Nat) (cs : List Char) : Option (Nat × List Char) := do
  let digits := cs.take width
  if digits.length < width then none
  else return (← Decimal.value? digits, cs.drop width)

/-- Reads one of the given characters. -/
def mark? (marks : List Char) : List Char → Option (List Char)
  | c :: rest => if c ∈ marks then some rest else none
  | [] => none

/-- Reads the fraction of a second, if there is one; digits after the ninth do
not count. -/
def fraction? : List Char → Option (Nat × List Char)
  | '.' :: cs =>
    let digits := cs.takeWhile fun c => (Decimal.digit? c).isSome
    if digits.isEmpty then none
    else do
      let shown := digits.take 9
      let n ← Decimal.value? shown
      return (n * Nat.pow 10 (9 - shown.length), cs.drop digits.length)
  | cs => some (0, cs)

/-- Reads the distance from UTC, in seconds. -/
def offset? : List Char → Option Int
  | [c] => if c = 'Z' ∨ c = 'z' then some 0 else none
  | sign :: cs => do
    let (hours, cs) ← number? 2 cs
    let cs ← mark? [':'] cs
    let (minutes, cs) ← number? 2 cs
    if cs ≠ [] ∨ 23 < hours ∨ 59 < minutes then none
    else
      let distance : Int := hours * 3600 + minutes * 60
      if sign = '+' then some distance
      else if sign = '-' ∨ sign = '−' then some (-distance)
      else none
  | [] => none

/-- Reads an instant. -/
def ofChars? (cs : List Char) : Option Instant := do
  let (year, cs) ← number? 4 cs
  let cs ← mark? ['-'] cs
  let (month, cs) ← number? 2 cs
  let cs ← mark? ['-'] cs
  let (day, cs) ← number? 2 cs
  let cs ← mark? ['T', 't', ' '] cs
  let (hour, cs) ← number? 2 cs
  let cs ← mark? [':'] cs
  let (minute, cs) ← number? 2 cs
  let cs ← mark? [':'] cs
  let (second, cs) ← number? 2 cs
  let (nanos, cs) ← fraction? cs
  let offset ← offset? cs
  let date : Date := ⟨year, month, day⟩
  if ¬ date.isValid ∨ 23 < hour ∨ 59 < minute ∨ 60 < second then none
  else
    let leap := second / 60
    return {
      seconds := date.toDays * 86400 + hour * 3600 + minute * 60 + (second - leap) - offset
      nanos := nanos + leap * 1000000000 }

/-- Reads an instant. -/
def ofText? (s : String) : Option Instant := ofChars? s.toList

/-- Where the written forms of a time's years stand among each other: a signed
year comes before every plain one, `+` before `-`. -/
def yearRank (t : Instant) : Nat :=
  if 9999 < t.date.year then 0 else if t.date.year < 0 then 1 else 2

/-- The order of stored times, which is that of their written forms: within
the years 0 to 9999 it is the order of time. -/
def storedLt (s t : Instant) : Bool :=
  s.yearRank < t.yearRank ∨ s.yearRank = t.yearRank ∧ s < t

end Instant

end ReviewDesk
