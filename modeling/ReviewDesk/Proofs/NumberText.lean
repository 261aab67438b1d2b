import Mathlib.Data.List.TakeWhile
import ReviewDesk.Text.Blank
import ReviewDesk.Text.Number

/-!
# Numbers as they are written

A text is a number within a limit if it is an optional plus and one or more digits whose value
keeps the limit; zeros in front do not count.  The reader does not look at it that way: it goes
from the left, keeps the value so far, and stops at the first character that it cannot use.

Both views agree because the value of digits only grows as more of them follow.  So digits whose
value keeps the limit are passed over, however many they are, and the place at which the reader
stops is the first at which something is wrong: a character that is no digit, or a digit that
takes the value over the limit.  A text either writes a number or has such a place.

* `Blank.trim_eq_iff` — what is left without the white space at both ends;
* `FaultFrom` — the first fault, said without the reader;
* `readDigits_append` — digits are passed over;
* `read_of_writes`, `read_of_firstFault`, `writes_or_fault` — what is read from any text.
-/

namespace ReviewDesk

namespace Blank

/-! ## White space at the ends -/

/-- A text is what is left of another one without the white space at its ends. -/
structure IsTrimOf (text cs : List Char) : Prop where
  parts : ∃ front back, cs = front ++ (text ++ back) ∧
    (∀ c ∈ front, isBlank c = true) ∧ ∀ c ∈ back, isBlank c = true
  begins : ∀ c, text.head? = some c → isBlank c = false
  ends : ∀ c, text.getLast? = some c → isBlank c = false

/-- White space in front is dropped up to a text that does not begin with any. -/
theorem dropWhile_append {front rest : List Char} (hfront : ∀ c ∈ front, isBlank c = true)
    (hrest : ∀ c, rest.head? = some c → isBlank c = false) :
    (front ++ rest).dropWhile isBlank = rest := by
  rw [List.dropWhile_append_of_pos hfront]
  cases rest with
  | nil => rfl
  | cons c rest => exact List.dropWhile_cons_of_neg (Bool.eq_false_iff.1 (hrest c rfl))

theorem isBlank_head?_dropWhile {cs : List Char} {c : Char}
    (h : (cs.dropWhile isBlank).head? = some c) : isBlank c = false := by
  have hnot := List.head?_dropWhile_not isBlank cs
  rw [h] at hnot
  simpa using hnot

/-- Trimming a text gives what is left without the white space at its ends. -/
theorem isTrimOf_trim (cs : List Char) : IsTrimOf (trim cs) cs := by
  let behind := cs.dropWhile isBlank
  have hfront : cs = cs.takeWhile isBlank ++ behind := List.takeWhile_append_dropWhile.symm
  have hback : behind = trim cs ++ (behind.reverse.takeWhile isBlank).reverse := by
    rw [trim, ← List.reverse_append, List.takeWhile_append_dropWhile, List.reverse_reverse]
  have hparts := hfront.trans (congrArg _ hback)
  refine ⟨⟨_, _, hparts, fun c => List.mem_takeWhile_imp, fun c hc => ?_⟩, fun c hc => ?_,
    fun c hc => ?_⟩
  · exact List.mem_takeWhile_imp (List.mem_reverse.1 hc)
  · have hbehind : behind.head? = some c := by
      rw [hback, List.head?_append, hc]
      rfl
    exact isBlank_head?_dropWhile hbehind
  · rw [trim, List.getLast?_reverse] at hc
    exact isBlank_head?_dropWhile hc

/-- There is only one such text. -/
theorem trim_eq_iff {cs text : List Char} : trim cs = text ↔ IsTrimOf text cs := by
  constructor
  · rintro rfl
    exact isTrimOf_trim cs
  · rintro ⟨⟨front, back, rfl, hfront, hback⟩, hbegins, hends⟩
    have hreversed : (back.reverse ++ text.reverse).dropWhile isBlank = text.reverse :=
      dropWhile_append (fun c hc => hback c (List.mem_reverse.1 hc))
        (fun c hc => hends c (List.head?_reverse.symm.trans hc))
    cases text with
    | nil =>
        have hblank : ∀ c ∈ front ++ ([] ++ back), isBlank c = true := fun c hc =>
          (List.mem_append.1 hc).elim (hfront c) (hback c)
        rw [trim, List.dropWhile_eq_nil_iff.2 hblank]
        rfl
    | cons c rest =>
        have hbehind : (front ++ (c :: rest ++ back)).dropWhile isBlank = c :: rest ++ back :=
          dropWhile_append hfront hbegins
        rw [trim, hbehind, List.reverse_append, hreversed, List.reverse_reverse]

end Blank

namespace Number

/-! ## Numbers with a limit -/

/-- A text without its plus, if something follows it. -/
def unsigned : List Char → List Char
  | '+' :: c :: rest => c :: rest
  | text => text

/-- A text writes a number within the limit: an optional plus, and one or more decimal digits
that have this value. -/
def Writes (limit : Nat) (text : List Char) (n : Nat) : Prop :=
  ∃ digits, (text = digits ∨ text = '+' :: digits) ∧ digits ≠ [] ∧
    (∀ c ∈ digits, c.isDigit = true) ∧ Nat.ofDigitChars 10 digits 0 = n ∧ n ≤ limit

/-- The first fault from the left of digits that go on from a number: up to some character there
are digits and the value keeps the limit, and this character is no digit or takes the value over
the limit. -/
inductive FaultFrom (limit n : Nat) : List Char → Fault → Prop
  | badDigit {digits rest : List Char} {c : Char} (areDigits : ∀ d ∈ digits, d.isDigit = true)
      (keepsLimit : Nat.ofDigitChars 10 digits n ≤ limit) (noDigit : c.isDigit = false) :
      FaultFrom limit n (digits ++ c :: rest) .badDigit
  | tooLarge {digits rest : List Char} {c : Char} (areDigits : ∀ d ∈ digits, d.isDigit = true)
      (keepsLimit : Nat.ofDigitChars 10 digits n ≤ limit) (isDigit : c.isDigit = true)
      (beyond : limit < Nat.ofDigitChars 10 (digits ++ [c]) n) :
      FaultFrom limit n (digits ++ c :: rest) .tooLarge

/-- The first fault of a text: it is empty, or something is wrong behind its plus. -/
inductive FirstFault (limit : Nat) : List Char → Fault → Prop
  | noDigits : FirstFault limit [] .noDigits
  | behindPlus {text : List Char} {f : Fault} (isFault : FaultFrom limit 0 (unsigned text) f) :
      FirstFault limit text f

variable {limit n : Nat} {c : Char} {cs digits rest text : List Char} {f : Fault}

theorem isDigit_iff : c.isDigit = true ↔ 48 ≤ c.toNat ∧ c.toNat ≤ 57 := by
  simp only [Char.isDigit, Bool.and_eq_true, decide_eq_true_eq, ge_iff_le,
    UInt32.le_iff_toNat_le]
  exact Iff.rfl

theorem digit?_of_isDigit (h : c.isDigit = true) : Decimal.digit? c = some (c.toNat - 48) :=
  if_pos (isDigit_iff.1 h)

theorem digit?_of_not_isDigit (h : c.isDigit = false) : Decimal.digit? c = none := by
  refine if_neg fun hdigit => ?_
  rw [isDigit_iff.2 hdigit] at h
  cases h

theorem readDigits_of_noDigit (h : c.isDigit = false) :
    readDigits limit n (c :: rest) = .error .badDigit := by
  rw [readDigits, digit?_of_not_isDigit h]

theorem readDigits_of_beyond (h : c.isDigit = true)
    (hbeyond : limit < Nat.ofDigitChars 10 [c] n) :
    readDigits limit n (c :: rest) = .error .tooLarge := by
  have hvalue : limit < n * 10 + (c.toNat - 48) := by
    rw [Nat.mul_comm]
    exact hbeyond
  rw [readDigits, digit?_of_isDigit h]
  exact if_pos hvalue

theorem readDigits_of_le (h : c.isDigit = true) (hle : Nat.ofDigitChars 10 [c] n ≤ limit) :
    readDigits limit n (c :: rest) = readDigits limit (Nat.ofDigitChars 10 [c] n) rest := by
  have hvalue : Nat.ofDigitChars 10 [c] n = n * 10 + (c.toNat - 48) := by
    rw [Nat.mul_comm]
    rfl
  rw [readDigits, digit?_of_isDigit h, hvalue]
  rw [hvalue] at hle
  exact if_neg (Nat.not_lt.2 hle)

theorem le_ofDigitChars (n : Nat) (cs : List Char) : n ≤ Nat.ofDigitChars 10 cs n := by
  induction cs generalizing n with
  | nil => exact Nat.le_of_eq Nat.ofDigitChars_nil.symm
  | cons c rest ih =>
      rw [Nat.ofDigitChars_cons]
      refine Nat.le_trans ?_ (ih _)
      omega

theorem ofDigitChars_cons_eq (c : Char) (rest : List Char) :
    Nat.ofDigitChars 10 (c :: rest) n =
      Nat.ofDigitChars 10 rest (Nat.ofDigitChars 10 [c] n) := by
  rw [← List.singleton_append, Nat.ofDigitChars_append]

/-- Digits whose value keeps the limit are passed over. -/
theorem readDigits_append (areDigits : ∀ d ∈ digits, d.isDigit = true)
    (keepsLimit : Nat.ofDigitChars 10 digits n ≤ limit) (rest : List Char) :
    readDigits limit n (digits ++ rest) =
      readDigits limit (Nat.ofDigitChars 10 digits n) rest := by
  induction digits generalizing n with
  | nil => rw [List.nil_append, Nat.ofDigitChars_nil]
  | cons d digits ih =>
      rw [ofDigitChars_cons_eq] at keepsLimit ⊢
      obtain ⟨hd, hdigits⟩ := List.forall_mem_cons.1 areDigits
      have hle := Nat.le_trans (le_ofDigitChars _ digits) keepsLimit
      rw [List.cons_append, readDigits_of_le hd hle, ih hdigits keepsLimit]

theorem FaultFrom.readDigits (h : FaultFrom limit n cs f) :
    Number.readDigits limit n cs = .error f := by
  cases h with
  | badDigit areDigits keepsLimit noDigit =>
      rw [readDigits_append areDigits keepsLimit, readDigits_of_noDigit noDigit]
  | tooLarge areDigits keepsLimit isDigit beyond =>
      rw [Nat.ofDigitChars_append] at beyond
      rw [readDigits_append areDigits keepsLimit, readDigits_of_beyond isDigit beyond]

theorem FaultFrom.cons (hc : c.isDigit = true)
    (h : FaultFrom limit (Nat.ofDigitChars 10 [c] n) cs f) : FaultFrom limit n (c :: cs) f := by
  cases h with
  | @badDigit digits rest d areDigits keepsLimit noDigit =>
      rw [← ofDigitChars_cons_eq] at keepsLimit
      exact .badDigit (List.forall_mem_cons.2 ⟨hc, areDigits⟩) keepsLimit noDigit
  | @tooLarge digits rest d areDigits keepsLimit isDigit beyond =>
      rw [← ofDigitChars_cons_eq] at keepsLimit beyond
      exact .tooLarge (List.forall_mem_cons.2 ⟨hc, areDigits⟩) keepsLimit isDigit beyond

/-- A text is made of digits that keep the limit, or has a first fault. -/
theorem digits_or_fault (hn : n ≤ limit) (cs : List Char) :
    ((∀ c ∈ cs, c.isDigit = true) ∧ Nat.ofDigitChars 10 cs n ≤ limit) ∨
      ∃ f, FaultFrom limit n cs f := by
  induction cs generalizing n with
  | nil => exact .inl ⟨fun _ hc => absurd hc List.not_mem_nil, by rwa [Nat.ofDigitChars_nil]⟩
  | cons c rest ih =>
      have hnone : ∀ d ∈ ([] : List Char), d.isDigit = true := fun _ hd =>
        absurd hd List.not_mem_nil
      have hstart : Nat.ofDigitChars 10 [] n ≤ limit := by rwa [Nat.ofDigitChars_nil]
      cases hc : c.isDigit with
      | false =>
          have hf : FaultFrom limit n ([] ++ c :: rest) .badDigit := .badDigit hnone hstart hc
          exact .inr ⟨.badDigit, hf⟩
      | true =>
          rcases Nat.lt_or_ge limit (Nat.ofDigitChars 10 [c] n) with hbeyond | hle
          · have hf : FaultFrom limit n ([] ++ c :: rest) .tooLarge :=
              .tooLarge hnone hstart hc hbeyond
            exact .inr ⟨.tooLarge, hf⟩
          · rcases ih hle with ⟨areDigits, keepsLimit⟩ | ⟨f, hf⟩
            · rw [← ofDigitChars_cons_eq] at keepsLimit
              exact .inl ⟨List.forall_mem_cons.2 ⟨hc, areDigits⟩, keepsLimit⟩
            · exact .inr ⟨f, hf.cons hc⟩

/-- A text that begins with a digit has no plus. -/
theorem unsigned_of_digits (areDigits : ∀ d ∈ digits, d.isDigit = true) :
    unsigned digits = digits := by
  unfold unsigned
  split
  · have hplus := areDigits '+' List.mem_cons_self
    exact absurd hplus (by decide)
  · rfl

theorem unsigned_plus (h : digits ≠ []) : unsigned ('+' :: digits) = digits := by
  cases digits with
  | nil => exact absurd rfl h
  | cons d rest => rfl

theorem unsigned_cases (text : List Char) :
    unsigned text = text ∨ text = '+' :: unsigned text ∧ unsigned text ≠ [] := by
  unfold unsigned
  split
  · exact .inr ⟨rfl, List.cons_ne_nil _ _⟩
  · exact .inl rfl

/-- Behind its plus, a text that is not empty is read digit by digit. -/
theorem read_eq_readDigits (h : text ≠ []) :
    read limit text = readDigits limit 0 (unsigned text) := by
  rcases text with _ | ⟨c, rest⟩
  · exact absurd rfl h
  · by_cases hplus : c = '+'
    · subst hplus
      cases rest with
      | nil => rfl
      | cons d rest => rfl
    · simp [read, unsigned, hplus]

theorem read_of_writes (h : Writes limit text n) : read limit text = .ok n := by
  obtain ⟨digits, hsign, hne, areDigits, rfl, keepsLimit⟩ := h
  have hread : read limit text = readDigits limit 0 digits := by
    rcases hsign with rfl | rfl
    · rw [read_eq_readDigits hne, unsigned_of_digits areDigits]
    · rw [read_eq_readDigits (List.cons_ne_nil _ _), unsigned_plus hne]
  rw [hread, ← List.append_nil digits, readDigits_append areDigits keepsLimit, List.append_nil]
  rfl

theorem read_of_firstFault (h : FirstFault limit text f) : read limit text = .error f := by
  cases h with
  | noDigits => rfl
  | behindPlus isFault =>
      have hne : text ≠ [] := by
        rintro rfl
        have hread := isFault.readDigits
        cases hread
      rw [read_eq_readDigits hne, isFault.readDigits]

theorem writes_or_fault (limit : Nat) (text : List Char) :
    (∃ n, Writes limit text n) ∨ ∃ f, FirstFault limit text f := by
  cases text with
  | nil => exact .inr ⟨.noDigits, .noDigits⟩
  | cons c rest =>
      rcases digits_or_fault (Nat.zero_le limit) (unsigned (c :: rest)) with
        ⟨areDigits, keepsLimit⟩ | ⟨f, hf⟩
      · refine .inl ⟨_, unsigned (c :: rest), ?_, ?_, areDigits, rfl, keepsLimit⟩
        · rcases unsigned_cases (c :: rest) with h | ⟨h, -⟩
          · exact .inl h.symm
          · exact .inr h
        · rcases unsigned_cases (c :: rest) with h | ⟨-, h⟩
          · rw [h]
            exact List.cons_ne_nil c rest
          · exact h
      · exact .inr ⟨f, .behindPlus hf⟩

end Number

end ReviewDesk
