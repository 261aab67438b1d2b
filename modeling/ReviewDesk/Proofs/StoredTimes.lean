import Mathlib.Algebra.Order.Group.Nat
import ReviewDesk.Time.Instant

/-!
# Stored times sort as texts

A store without a type for times keeps their written forms, and sorts these as texts.  A
stored form ends with the distance from UTC, `+00:00`, and not with `Z`: the plus sign comes
before the point and before every digit, so a fraction that breaks off comes before one that
goes on.  All other parts have a fixed width, and are filled up with zeros.

So within the years of four digits the order of the texts is the order of time.  From the
front to the back:

* `Date.ofDays_lt` — later days have later dates;
* `Decimal.padded_lt` — numbers of one width sort as texts;
* `Instant.fractionChars_lt` — fractions do, too, although they have three widths;
* `Instant.storedChars_lt_iff` — and so do stored times.
-/

namespace ReviewDesk

/-! ## Dates -/

namespace Date

/-- The year from March that a day of an era falls into, counted within the era. -/
def yearOfEra (dayOfEra : Int) : Int :=
  (dayOfEra - dayOfEra / 1460 + dayOfEra / 36524 - dayOfEra / 146096) / 365

/-- The days of this year before the given day. -/
def dayOfYear (dayOfEra : Int) : Int :=
  dayOfEra - (365 * yearOfEra dayOfEra + yearOfEra dayOfEra / 4 - yearOfEra dayOfEra / 100)

/-- The date of a day of a year from March. -/
def ofYearDay (year dayOfYear : Int) : Date :=
  let monthFromMarch := (5 * dayOfYear + 2) / 153
  let day := dayOfYear - (153 * monthFromMarch + 2) / 5 + 1
  let month := if monthFromMarch < 10 then monthFromMarch + 3 else monthFromMarch - 9
  ⟨if month ≤ 2 then year + 1 else year, month.toNat, day.toNat⟩

theorem ofDays_eq (days : Int) :
    ofDays days =
      ofYearDay (yearOfEra ((days + epochOffset) % 146097) + (days + epochOffset) / 146097 * 400)
        (dayOfYear ((days + epochOffset) % 146097)) := rfl

/-- A year has at most 366 days. -/
theorem dayOfYear_bounds {dayOfEra : Int} (hfirst : 0 ≤ dayOfEra) (hlast : dayOfEra < 146097) :
    0 ≤ dayOfYear dayOfEra ∧ dayOfYear dayOfEra ≤ 365 := by
  unfold dayOfYear
  generalize hyear : yearOfEra dayOfEra = year
  unfold yearOfEra at hyear
  by_cases hleap : dayOfEra = 146096
  · subst hleap
    omega
  · have hera : dayOfEra / 146096 = 0 := by omega
    rw [hera] at hyear
    have hcentury : year / 100 = dayOfEra / 36524 := by omega
    have hlow : year / 4 ≤ dayOfEra / 1460 := by omega
    have hhigh : dayOfEra / 1460 ≤ year / 4 + 1 := by omega
    omega

theorem yearOfEra_bounds {dayOfEra : Int} (hfirst : 0 ≤ dayOfEra) (hlast : dayOfEra < 146097) :
    0 ≤ yearOfEra dayOfEra ∧ yearOfEra dayOfEra < 400 := by
  unfold yearOfEra
  omega

theorem yearOfEra_mono {a b : Int} (h : a ≤ b) : yearOfEra a ≤ yearOfEra b := by
  unfold yearOfEra
  -- leap days are left out one at a time, and more often than they are put back
  have hyears : a - a / 1460 ≤ b - b / 1460 := by omega
  have hcenturies : a / 36524 - a / 146096 ≤ b / 36524 - b / 146096 := by omega
  omega

/-- One date is before another. -/
def IsBefore (d e : Date) : Prop :=
  d.year < e.year ∨ d.year = e.year ∧ (d.month < e.month ∨ d.month = e.month ∧ d.day < e.day)

theorem ofYearDay_lt {year day year' day' : Int} (hday : 0 ≤ day ∧ day ≤ 365)
    (hday' : 0 ≤ day' ∧ day' ≤ 365) (h : year < year' ∨ year = year' ∧ day < day') :
    (ofYearDay year day).IsBefore (ofYearDay year' day') := by
  simp only [IsBefore, ofYearDay]
  split <;> split <;> split <;> split <;> omega

theorem ofYearDay_bounds {year day : Int} (hday : 0 ≤ day ∧ day ≤ 365) :
    (ofYearDay year day).month ≤ 12 ∧ (ofYearDay year day).day ≤ 31 := by
  simp only [ofYearDay]
  split <;> omega

/-- Later days have later dates. -/
theorem ofDays_lt {m n : Int} (h : m < n) : (ofDays m).IsBefore (ofDays n) := by
  rw [ofDays_eq, ofDays_eq]
  generalize hm : m + epochOffset = a
  generalize hn : n + epochOffset = b
  have hab : a < b := by omega
  have hfirst : 0 ≤ a % 146097 ∧ a % 146097 < 146097 := by omega
  have hsecond : 0 ≤ b % 146097 ∧ b % 146097 < 146097 := by omega
  refine ofYearDay_lt (dayOfYear_bounds hfirst.1 hfirst.2)
    (dayOfYear_bounds hsecond.1 hsecond.2) ?_
  rcases (by omega : a / 146097 < b / 146097 ∨ a / 146097 = b / 146097) with hera | hera
  · have hyear := (yearOfEra_bounds hfirst.1 hfirst.2).2
    have hyear' := (yearOfEra_bounds hsecond.1 hsecond.2).1
    left
    omega
  · have hday : a % 146097 < b % 146097 := by omega
    rcases Int.lt_or_eq_of_le (yearOfEra_mono (Int.le_of_lt hday)) with hyear | hyear
    · left
      omega
    · right
      refine ⟨by omega, ?_⟩
      unfold dayOfYear
      omega

theorem ofDays_bounds (days : Int) : (ofDays days).month ≤ 12 ∧ (ofDays days).day ≤ 31 := by
  rw [ofDays_eq]
  exact ofYearDay_bounds (dayOfYear_bounds (by omega) (by omega))

end Date

/-! ## Texts that differ -/

/-- Two texts differ at some place, and there the first has the smaller character.  So the first
sorts before the second, whatever follows either of them. -/
def SortsBefore (a b : List Char) : Prop :=
  ∃ front x y back back', a = front ++ x :: back ∧ b = front ++ y :: back' ∧ x < y

namespace SortsBefore

variable {a b : List Char}

theorem of_head {x y : Char} (h : x < y) (a b : List Char) : SortsBefore (x :: a) (y :: b) :=
  ⟨[], x, y, a, b, rfl, rfl, h⟩

theorem append_left (h : SortsBefore a b) (front : List Char) :
    SortsBefore (front ++ a) (front ++ b) := by
  obtain ⟨before, x, y, back, back', rfl, rfl, hlt⟩ := h
  exact ⟨front ++ before, x, y, back, back', by simp, by simp, hlt⟩

theorem cons (h : SortsBefore a b) (c : Char) : SortsBefore (c :: a) (c :: b) :=
  h.append_left [c]

theorem append_right (h : SortsBefore a b) (u v : List Char) : SortsBefore (a ++ u) (b ++ v) := by
  obtain ⟨front, x, y, back, back', rfl, rfl, hlt⟩ := h
  exact ⟨front, x, y, back ++ u, back' ++ v, by simp, by simp, hlt⟩

protected theorem lt (h : SortsBefore a b) : a < b := by
  obtain ⟨front, x, y, back, back', rfl, rfl, hlt⟩ := h
  exact List.append_left_lt (List.cons_lt_cons_iff.2 (.inl hlt))

end SortsBefore

/-! ## Numbers of one width -/

namespace Decimal

theorem padded_one {n : Nat} (h : n < 10) : padded 1 n = [n.digitChar] := by
  rw [padded, digits, Nat.toDigits_of_lt_base h]
  rfl

/-- The last digit stands by itself. -/
theorem padded_succ {width : Nat} (hwidth : 0 < width) (n : Nat) :
    padded (width + 1) n = padded width (n / 10) ++ [(n % 10).digitChar] := by
  rcases Nat.lt_or_ge n 10 with hsmall | hlarge
  · have hzero : n / 10 = 0 := by omega
    have hsame : n % 10 = n := by omega
    have hone : width + 1 - 1 = (width - 1) + 1 := by omega
    rw [hzero, hsame, padded, padded, digits, digits, Nat.toDigits_of_lt_base hsmall,
      Nat.toDigits_of_lt_base (by decide : 0 < 10), List.length_singleton, List.length_singleton,
      hone, List.replicate_succ']
    rfl
  · rw [padded, padded, digits, digits, Nat.toDigits_of_base_le (by decide) hlarge,
      List.length_append, List.length_singleton, Nat.add_sub_add_right, List.append_assoc]

theorem digitChar_lt {m n : Nat} (h : m < n) (hn : n < 10) : m.digitChar < n.digitChar := by
  have hdigits : ∀ n < 10, ∀ m < n, m.digitChar < n.digitChar := by decide
  exact hdigits n hn m h

/-- Numbers of one width sort as texts. -/
theorem padded_lt {width m n : Nat} (h : m < n) (hn : n < Nat.pow 10 width) :
    SortsBefore (padded width m) (padded width n) := by
  induction width generalizing m n with
  | zero =>
      have hone : Nat.pow 10 0 = 1 := rfl
      omega
  | succ width ih =>
      have hpow : Nat.pow 10 (width + 1) = Nat.pow 10 width * 10 := rfl
      rcases Nat.eq_zero_or_pos width with rfl | hwidth
      · have hone : Nat.pow 10 (0 + 1) = 10 := rfl
        rw [padded_one (by omega), padded_one (by omega)]
        exact SortsBefore.of_head (digitChar_lt h (by omega)) [] []
      · rw [padded_succ hwidth, padded_succ hwidth]
        rcases (by omega : m / 10 < n / 10 ∨ m / 10 = n / 10) with hless | heq
        · exact (ih hless (by omega)).append_right _ _
        · rw [heq]
          have hlast : m % 10 < n % 10 := by omega
          exact (SortsBefore.of_head (digitChar_lt hlast (by omega)) [] []).append_left _

/-- Numbers of one width decide, and what follows them only between equal numbers. -/
theorem padded_append_lt {width m n : Nat} {u v : List Char} {next : Prop}
    (hn : n < Nat.pow 10 width) (h : m < n ∨ m = n ∧ next) (hnext : next → SortsBefore u v) :
    SortsBefore (padded width m ++ u) (padded width n ++ v) := by
  rcases h with hless | ⟨rfl, hrest⟩
  · exact (padded_lt hless hn).append_right u v
  · exact (hnext hrest).append_left _

/-- A number is written in two parts. -/
theorem padded_add {front back : Nat} (hfront : 0 < front) (hback : 0 < back) (n : Nat) :
    padded (front + back) n =
      padded front (n / Nat.pow 10 back) ++ padded back (n % Nat.pow 10 back) := by
  induction back, hback using Nat.le_induction generalizing n with
  | base =>
      have hten : Nat.pow 10 (0 + 1) = 10 := rfl
      rw [hten, padded_succ hfront]
      exact congrArg _ (padded_one (Nat.mod_lt n (by decide))).symm
  | succ back hback ih =>
      have hpow : Nat.pow 10 (back + 1) = 10 * Nat.pow 10 back := Nat.mul_comm _ _
      have hlast : n % (10 * Nat.pow 10 back) % 10 = n % 10 := Nat.mod_mul_right_mod n 10 _
      have hmiddle : n % (10 * Nat.pow 10 back) / 10 = n / 10 % Nat.pow 10 back :=
        Nat.mod_mul_right_div_self n 10 _
      rw [← Nat.add_assoc, padded_succ (by omega), ih, padded_succ hback, hpow, hlast, hmiddle,
        Nat.div_div_eq_div_mul, List.append_assoc]

/-- The plus sign comes before every number. -/
theorem plus_sortsBefore_padded {width n : Nat} (hwidth : 0 < width) (hn : n < Nat.pow 10 width)
    (u v : List Char) : SortsBefore ('+' :: u) (padded width n ++ v) := by
  induction width, hwidth using Nat.le_induction generalizing n v with
  | base =>
      have hten : n < 10 := hn
      have hdigits : ∀ n < 10, '+' < Nat.digitChar n := by decide
      exact padded_one hten ▸ SortsBefore.of_head (hdigits n hten) u v
  | succ width hwidth ih =>
      have hpow : Nat.pow 10 (width + 1) = Nat.pow 10 width * 10 := rfl
      rw [padded_succ hwidth, List.append_assoc]
      exact ih (by omega) _

end Decimal

namespace Instant

/-! ## Fractions -/

/-- The fraction of a second after its first digits, in the fewest groups of three digits: at most
`count` of them are left, and they stand for `rest`. -/
def groups : Nat → Nat → List Char
  | 0, _ => []
  | count + 1, rest =>
    if rest = 0 then []
    else Decimal.padded 3 (rest / Nat.pow 1000 count) ++ groups count (rest % Nat.pow 1000 count)

/-- A fraction is a point with the groups that it needs. -/
theorem fractionChars_eq (nanos : Nat) :
    fractionChars nanos = if nanos = 0 then [] else '.' :: groups 3 nanos := by
  have hsix : ∀ n,
      Decimal.padded 6 n = Decimal.padded 3 (n / 1000) ++ Decimal.padded 3 (n % 1000) :=
    Decimal.padded_add (by decide : 0 < 3) (by decide : 0 < 3)
  have hnine : Decimal.padded 9 nanos =
      Decimal.padded 3 (nanos / 1000000) ++ Decimal.padded 6 (nanos % 1000000) :=
    Decimal.padded_add (by decide : 0 < 3) (by decide : 0 < 6) nanos
  have hmillion : Nat.pow 1000 2 = 1000000 := rfl
  have hthousand : Nat.pow 1000 1 = 1000 := rfl
  have hone : Nat.pow 1000 0 = 1 := rfl
  simp only [fractionChars, groups, hmillion, hthousand, hone, Nat.div_one]
  by_cases hzero : nanos = 0
  · rw [if_pos hzero, if_pos hzero]
  rw [if_neg hzero, if_neg hzero, if_neg hzero]
  by_cases hmillis : nanos % 1000000 = 0
  · rw [if_pos hmillis, if_pos hmillis, List.append_nil]
  rw [if_neg hmillis, if_neg hmillis]
  by_cases hmicros : nanos % 1000 = 0
  · have hlast : nanos % 1000000 % 1000 = 0 := by omega
    have hfirst : nanos / 1000 / 1000 = nanos / 1000000 := by omega
    have hmiddle : nanos / 1000 % 1000 = nanos % 1000000 / 1000 := by omega
    rw [if_pos hmicros, if_pos hlast, hsix, hfirst, hmiddle, List.append_nil]
  · have hlast : nanos % 1000000 % 1000 ≠ 0 := by omega
    rw [if_neg hmicros, if_neg hlast, hnine, hsix, List.append_nil]

/-- Fractions sort as texts, if the sign of the distance from UTC follows. -/
theorem groups_lt {count m n : Nat} (h : m < n) (hn : n < Nat.pow 1000 count) (zone : List Char) :
    SortsBefore (groups count m ++ '+' :: zone) (groups count n ++ '+' :: zone) := by
  induction count generalizing m n with
  | zero =>
      have hone : Nat.pow 1000 0 = 1 := rfl
      omega
  | succ count ih =>
      have hpow : Nat.pow 1000 (count + 1) = 1000 * Nat.pow 1000 count := Nat.mul_comm _ _
      have hpos : 0 < Nat.pow 1000 count := Nat.pow_pos (by decide)
      have hgroup : n / Nat.pow 1000 count < Nat.pow 10 3 :=
        Nat.div_lt_of_lt_mul (Nat.mul_comm _ _ ▸ hpow ▸ hn)
      rw [groups, groups, if_neg (Nat.ne_zero_of_lt h), List.append_assoc]
      rcases Nat.eq_zero_or_pos m with rfl | hm
      · exact Decimal.plus_sortsBefore_padded (by decide) hgroup _ _
      · rw [if_neg (Nat.ne_of_gt hm), List.append_assoc]
        refine Decimal.padded_append_lt hgroup ?_ fun hrest => ih hrest (Nat.mod_lt n hpos)
        rcases Nat.lt_or_eq_of_le (Nat.div_le_div_right (Nat.le_of_lt h)) with hless | heq
        · exact .inl hless
        · have hdivm := Nat.div_add_mod m (Nat.pow 1000 count)
          have hdivn := Nat.div_add_mod n (Nat.pow 1000 count)
          rw [heq] at hdivm
          exact .inr ⟨heq, by omega⟩

/-- Fractions of a second sort as texts, if the sign of the distance from UTC follows. -/
theorem fractionChars_lt {m n : Nat} (h : m < n) (hn : n < 1000000000) (zone : List Char) :
    SortsBefore (fractionChars m ++ '+' :: zone) (fractionChars n ++ '+' :: zone) := by
  rw [fractionChars_eq, fractionChars_eq, if_neg (Nat.ne_zero_of_lt h)]
  rcases Nat.eq_zero_or_pos m with rfl | hm
  · exact SortsBefore.of_head (by decide) _ _
  · rw [if_neg (Nat.ne_of_gt hm)]
    have hall : n < Nat.pow 1000 3 := hn
    exact (groups_lt h hall zone).cons '.'

/-! ## Stored times -/

/-- A time that clocks can show: a leap second is the last one of a minute. -/
def IsReal (t : Instant) : Prop :=
  t.nanos < 1000000000 ∨ t.nanos < 2000000000 ∧ t.seconds % 60 = 59

/-- Times in the years that have four digits. -/
def HasPlainYear (t : Instant) : Prop := 0 ≤ t.date.year ∧ t.date.year ≤ 9999

/-- The form in which a store keeps a time: the written form, with the distance from UTC in
figures. -/
def storedChars (t : Instant) : List Char := t.chars.dropLast ++ ['+', '0', '0', ':', '0', '0']

/-- The seconds of a time that are over in its day. -/
def secondOfDay (t : Instant) : Nat := (t.seconds % 86400).toNat

theorem storedChars_eq {t : Instant} (h : t.HasPlainYear) :
    t.storedChars = Decimal.padded 4 t.date.year.natAbs ++ '-' ::
      (Decimal.padded 2 t.date.month ++ '-' ::
      (Decimal.padded 2 t.date.day ++ 'T' ::
      (Decimal.padded 2 (t.secondOfDay / 3600) ++ ':' ::
      (Decimal.padded 2 (t.secondOfDay / 60 % 60) ++ ':' ::
      (Decimal.padded 2 (t.secondOfDay % 60 + t.nanos / 1000000000) ++
      (fractionChars (t.nanos % 1000000000) ++ '+' :: ['0', '0', ':', '0', '0'])))))) := by
  have hyear : yearChars t.date.year = Decimal.padded 4 t.date.year.natAbs := by
    rw [yearChars, if_neg (Int.not_lt.2 h.1), if_neg (Int.not_lt.2 h.2)]
  rw [storedChars, chars, List.dropLast_concat, hyear]
  simp only [List.append_assoc, List.cons_append, secondOfDay]

/-- A later time has a later date, or the same date and a later time of day. -/
theorem date_or_secondOfDay_lt {s t : Instant} (h : s < t) :
    s.date.IsBefore t.date ∨ s.date = t.date ∧
      (s.secondOfDay < t.secondOfDay ∨ s.secondOfDay = t.secondOfDay ∧
        s.seconds = t.seconds ∧ s.nanos < t.nanos) := by
  have hlt : s.seconds < t.seconds ∨ s.seconds = t.seconds ∧ s.nanos < t.nanos := h
  unfold secondOfDay
  rcases (by omega : s.seconds / 86400 < t.seconds / 86400 ∨
    s.seconds / 86400 = t.seconds / 86400) with hday | hday
  · exact .inl (Date.ofDays_lt hday)
  · exact .inr ⟨congrArg Date.ofDays hday, by omega⟩

/-- Within the years of four digits the stored form of a later time is a later text. -/
theorem storedChars_lt {s t : Instant} (hs : s.HasPlainYear) (ht : t.HasPlainYear)
    (hreal : s.IsReal) (hreal' : t.IsReal) (h : s < t) :
    SortsBefore s.storedChars t.storedChars := by
  rw [storedChars_eq hs, storedChars_eq ht]
  obtain ⟨hmonth, hday⟩ : t.date.month ≤ 12 ∧ t.date.day ≤ 31 := Date.ofDays_bounds _
  have hover : t.secondOfDay < 86400 := by
    unfold secondOfDay
    omega
  have hten : Nat.pow 10 2 = 100 := rfl
  have hthousands : Nat.pow 10 4 = 10000 := rfl
  unfold HasPlainYear at hs ht
  unfold IsReal at hreal hreal'
  -- the first part that differs decides
  have hparts : s.date.year.natAbs < t.date.year.natAbs ∨ s.date.year.natAbs = t.date.year.natAbs ∧
      (s.date.month < t.date.month ∨ s.date.month = t.date.month ∧
      (s.date.day < t.date.day ∨ s.date.day = t.date.day ∧
      (s.secondOfDay / 3600 < t.secondOfDay / 3600 ∨ s.secondOfDay / 3600 = t.secondOfDay / 3600 ∧
      (s.secondOfDay / 60 % 60 < t.secondOfDay / 60 % 60 ∨
        s.secondOfDay / 60 % 60 = t.secondOfDay / 60 % 60 ∧
      (s.secondOfDay % 60 + s.nanos / 1000000000 < t.secondOfDay % 60 + t.nanos / 1000000000 ∨
        s.secondOfDay % 60 + s.nanos / 1000000000 = t.secondOfDay % 60 + t.nanos / 1000000000 ∧
      s.nanos % 1000000000 < t.nanos % 1000000000))))) := by
    rcases date_or_secondOfDay_lt h with hdate | ⟨hdate, hclock⟩
    · unfold Date.IsBefore at hdate
      omega
    · unfold secondOfDay at hclock ⊢
      rw [hdate]
      omega
  refine Decimal.padded_append_lt (by omega) hparts fun hparts => SortsBefore.cons ?_ _
  refine Decimal.padded_append_lt (by omega) hparts fun hparts => SortsBefore.cons ?_ _
  refine Decimal.padded_append_lt (by omega) hparts fun hparts => SortsBefore.cons ?_ _
  refine Decimal.padded_append_lt (by omega) hparts fun hparts => SortsBefore.cons ?_ _
  refine Decimal.padded_append_lt (by omega) hparts fun hparts => SortsBefore.cons ?_ _
  refine Decimal.padded_append_lt (by omega) hparts fun hparts => ?_
  exact fractionChars_lt hparts (Nat.mod_lt _ (by decide)) _

/-- Within the years of four digits the stored order is the order of time. -/
theorem storedLt_iff_lt {s t : Instant} (hs : s.HasPlainYear) (ht : t.HasPlainYear) :
    s.storedLt t = true ↔ s < t := by
  have hrank : ∀ {u : Instant}, u.HasPlainYear → u.yearRank = 2 := by
    intro u hu
    rw [yearRank, if_neg (Int.not_lt.2 hu.2), if_neg (Int.not_lt.2 hu.1)]
  simp [storedLt, hrank hs, hrank ht]

theorem trichotomy (s t : Instant) : s < t ∨ s = t ∨ t < s := by
  have hlt : ∀ u v : Instant,
      u < v ↔ u.seconds < v.seconds ∨ u.seconds = v.seconds ∧ u.nanos < v.nanos := fun _ _ => .rfl
  have heq : s = t ↔ s.seconds = t.seconds ∧ s.nanos = t.nanos := by
    cases s
    cases t
    exact Iff.of_eq (mk.injEq ..)
  rw [hlt, hlt, heq]
  omega

/-- Within the years of four digits the stored forms sort as texts as the times do. -/
theorem storedChars_lt_iff {s t : Instant} (hs : s.HasPlainYear) (ht : t.HasPlainYear)
    (hreal : s.IsReal) (hreal' : t.IsReal) : s.storedChars < t.storedChars ↔ s < t := by
  constructor
  · intro h
    rcases trichotomy s t with hless | rfl | hmore
    · exact hless
    · exact absurd h (List.lt_irrefl _)
    · exact absurd (storedChars_lt ht hs hreal' hreal hmore).lt (List.lt_asymm h)
  · intro h
    exact (storedChars_lt hs ht hreal hreal' h).lt

end Instant

end ReviewDesk
