import Mathlib.Data.List.Chain
import ReviewDesk.Proofs.JsonLexemes

/-!
# Scanning a JSON text

A row of lexemes is scanned as what it is, if every number in it is followed by a comma or a
closing bracket.  Nothing marks the end of a number, so the scanner knows it only from the next
byte; all other lexemes end by themselves.  A number may therefore be left open behind a row, and
this is the one way in which the scanner may differ from one that waits for the next token
(`Behind`).

* `reaches_of_isNumber` — a number leads to a state in which it may end;
* `behind_of_lexes` — how the scanner stands behind a row of lexemes;
* `tokens_of_lexes` — the tokens of a row, whatever comes behind it.
-/

namespace ReviewDesk

namespace Json

open Scanner (step start stop)

/-! ## What is a row of lexemes -/

theorem Scanner.exists_digit? {b : UInt8} (h : IsDigit b) : ∃ d, digit? b = some d :=
  ⟨b.toNat - 48, if_pos h⟩

/-- Digits lead from states of one kind to a state of this kind. -/
theorem exists_foldl_digits {α : Type} {f : α → Scan}
    (hstep : ∀ a b d, Scanner.digit? b = some d → ∃ a', ∀ ts, step ⟨ts, f a⟩ b = ⟨ts, f a'⟩)
    {ds : List UInt8} (hds : ∀ d ∈ ds, IsDigit d) (a : α) :
    ∃ a', ∀ ts, ds.foldl step ⟨ts, f a⟩ = ⟨ts, f a'⟩ := by
  induction ds generalizing a with
  | nil => exact ⟨a, fun _ => rfl⟩
  | cons b ds ih =>
      obtain ⟨d, hdigit⟩ := Scanner.exists_digit? (hds b List.mem_cons_self)
      obtain ⟨a', hfirst⟩ := hstep a b d hdigit
      obtain ⟨a'', hrest⟩ := ih (fun d hd => hds d (List.mem_cons_of_mem b hd)) a'
      exact ⟨a'', fun ts => by rw [List.foldl_cons, hfirst, hrest]⟩

/-- So do they from a state before, if there is at least one. -/
theorem exists_foldl_areDigits {α : Type} {f : α → Scan} {scan : Scan}
    (hfirst : ∀ b d, Scanner.digit? b = some d → ∃ a, ∀ ts, step ⟨ts, scan⟩ b = ⟨ts, f a⟩)
    (hstep : ∀ a b d, Scanner.digit? b = some d → ∃ a', ∀ ts, step ⟨ts, f a⟩ b = ⟨ts, f a'⟩)
    {ds : List UInt8} (hds : AreDigits ds) :
    ∃ a, ∀ ts, ds.foldl step ⟨ts, scan⟩ = ⟨ts, f a⟩ := by
  obtain ⟨hne, hds⟩ := hds
  cases ds with
  | nil => exact absurd rfl hne
  | cons b ds =>
      obtain ⟨d, hdigit⟩ := Scanner.exists_digit? (hds b List.mem_cons_self)
      obtain ⟨a, hone⟩ := hfirst b d hdigit
      obtain ⟨a', hrest⟩ :=
        exists_foldl_digits hstep (fun c hc => hds c (List.mem_cons_of_mem b hc)) a
      exact ⟨a', fun ts => by rw [List.foldl_cons, hone, hrest]⟩

theorem exists_foldl_integer (n : Numeral) {isFull : Bool} {ds : List UInt8}
    (hds : ∀ d ∈ ds, IsDigit d) :
    ∃ m isFull', ∀ ts, ds.foldl step ⟨ts, .digits n isFull⟩ = ⟨ts, .digits m isFull'⟩ := by
  have hstep : ∀ (p : Numeral × Bool) b d, Scanner.digit? b = some d → ∃ q : Numeral × Bool,
      ∀ ts, step ⟨ts, .digits p.1 p.2⟩ b = ⟨ts, .digits q.1 q.2⟩ := by
    intro p b d hdigit
    obtain ⟨m, isFull', hpush⟩ := exists_pushDigit p.1 p.2 d
    exact ⟨(m, isFull'), fun ts => by simp only [Scanner.step, hdigit, hpush]⟩
  obtain ⟨q, hq⟩ := exists_foldl_digits hstep hds (n, isFull)
  exact ⟨q.1, q.2, hq⟩

theorem exists_foldl_fraction (n : Numeral) {ds : List UInt8} (hds : AreDigits ds) :
    ∃ m isFull, ∀ ts, ds.foldl step ⟨ts, .point n⟩ = ⟨ts, .fraction m isFull⟩ := by
  have hfirst : ∀ b d, Scanner.digit? b = some d → ∃ q : Numeral × Bool,
      ∀ ts, step ⟨ts, .point n⟩ b = ⟨ts, .fraction q.1 q.2⟩ := by
    intro b d hdigit
    obtain ⟨m, isFull, hpush⟩ := exists_pushFraction n false d
    exact ⟨(m, isFull), fun ts => by simp only [Scanner.step, hdigit, hpush]⟩
  have hstep : ∀ (p : Numeral × Bool) b d, Scanner.digit? b = some d → ∃ q : Numeral × Bool,
      ∀ ts, step ⟨ts, .fraction p.1 p.2⟩ b = ⟨ts, .fraction q.1 q.2⟩ := by
    intro p b d hdigit
    obtain ⟨m, isFull, hpush⟩ := exists_pushFraction p.1 p.2 d
    exact ⟨(m, isFull), fun ts => by simp only [Scanner.step, hdigit, hpush]⟩
  obtain ⟨q, hq⟩ := exists_foldl_areDigits hfirst hstep hds
  exact ⟨q.1, q.2, hq⟩

theorem exists_foldl_power {scan : Scan} {n : Numeral} {isNegative : Bool}
    (hfirst : ∀ b d ts, Scanner.digit? b = some d →
      step ⟨ts, scan⟩ b = ⟨ts, .power n isNegative d⟩) {ds : List UInt8} (hds : AreDigits ds) :
    ∃ value, ∀ ts, ds.foldl step ⟨ts, scan⟩ = ⟨ts, .power n isNegative value⟩ := by
  refine exists_foldl_areDigits (f := fun value => .power n isNegative value)
    (fun b d hdigit => ⟨d, fun ts => hfirst b d ts hdigit⟩) (fun value b d hdigit => ?_) hds
  exact ⟨Scanner.pushPower value d, fun ts => by simp only [Scanner.step, hdigit]⟩

namespace Scan

/-- The integer that has been scanned. -/
def integer? : Scan → Option Numeral
  | .zero => some ⟨0, 0⟩
  | .digits n _ => some n
  | _ => none

/-- The integer that has been scanned, perhaps with a fraction. -/
def mantissa? : Scan → Option Numeral
  | .fraction n _ => some n
  | scan => scan.integer?

theorem mantissa?_of_integer? {scan : Scan} {n : Numeral} (h : scan.integer? = some n) :
    scan.mantissa? = some n := by
  cases scan <;> first | exact h | cases h

theorem numeral?_of_mantissa? {scan : Scan} {n : Numeral} (h : scan.mantissa? = some n) :
    scan.numeral? = some n := by
  cases scan <;> first | exact h | cases h

end Scan

/-- A byte that cannot be a part of a number that may end before it. -/
def EndsNumber (b : UInt8) : Prop := Scanner.digit? b = none ∧ b ≠ 46 ∧ Scanner.isMark b = false

/-- Such a byte ends the number and is looked at again. -/
theorem step_of_endsNumber {scan : Scan} {n : Numeral} (hn : scan.numeral? = some n) {b : UInt8}
    (hb : EndsNumber b) (ts : List Token) :
    step ⟨ts, scan⟩ b = step ⟨.number n.isInRange :: ts, .idle⟩ b := by
  obtain ⟨hdigit, hpoint, hmark⟩ := hb
  cases scan with
  | zero | digits | fraction | power =>
      cases hn
      simp [Scanner.step, hdigit, Scanner.afterDigits, hpoint, hmark, Scanner.finish]
  | idle | text | escape | unit | minus | point | mark | sign | word | stopped => cases hn

/-- Bytes are scanned from the start of a token on, and no token ends among them. -/
def Reaches (bs : List UInt8) (scan : Scan) : Prop :=
  ∀ ts, bs.foldl step ⟨ts, .idle⟩ = ⟨ts, scan⟩

theorem Reaches.append {bs more : List UInt8} {scan scan' : Scan} (h : Reaches bs scan)
    (hmore : ∀ ts, more.foldl step ⟨ts, scan⟩ = ⟨ts, scan'⟩) : Reaches (bs ++ more) scan' := by
  intro ts
  rw [List.foldl_append, h, hmore]

theorem reaches_of_isInteger {bs : List UInt8} (h : IsInteger bs) :
    ∃ scan n, scan.integer? = some n ∧ Reaches bs scan := by
  cases h with
  | zero hsign =>
      refine ⟨.zero, _, rfl, fun ts => ?_⟩
      rcases hsign with rfl | rfl <;> rfl
  | @digits sign b ds hsign hfirst hzero hrest =>
      obtain ⟨d, hdigit⟩ := Scanner.exists_digit? hfirst
      have hne : d ≠ 0 := by
        rintro rfl
        exact hzero (UInt8.toNat_inj.1 (Scanner.digit?_eq_some hdigit).2)
      have hdigits : ∀ ts, Scanner.firstDigit b ts = ⟨ts, .digits ⟨d, 0⟩ false⟩ := by
        intro ts
        simp [Scanner.firstDigit, hdigit]
      have hstart : Reaches (sign ++ [b]) (.digits ⟨d, 0⟩ false) := by
        intro ts
        rcases hsign with rfl | rfl
        · exact (start_of_digit hdigit ts).trans (hdigits ts)
        · exact hdigits ts
      obtain ⟨n, isFull, hmore⟩ := exists_foldl_integer ⟨d, 0⟩ hrest
      refine ⟨.digits n isFull, n, rfl, ?_⟩
      rw [List.append_cons]
      exact hstart.append hmore

theorem reaches_of_isMantissa {bs : List UInt8} (h : IsMantissa bs) :
    ∃ scan n, scan.mantissa? = some n ∧ Reaches bs scan := by
  cases h with
  | integer h =>
      obtain ⟨scan, n, hn, hscan⟩ := reaches_of_isInteger h
      exact ⟨scan, n, Scan.mantissa?_of_integer? hn, hscan⟩
  | @fraction bs ds h hds =>
      obtain ⟨scan, n, hn, hscan⟩ := reaches_of_isInteger h
      have hpoint : ∀ ts, step ⟨ts, scan⟩ 46 = ⟨ts, .point n⟩ := by
        intro ts
        cases scan <;> first | cases hn; rfl | cases hn
      obtain ⟨m, isFull, hmore⟩ := exists_foldl_fraction n hds
      refine ⟨.fraction m isFull, m, rfl, hscan.append fun ts => ?_⟩
      rw [List.foldl_cons, hpoint, hmore]

/-- A power of ten behind a mantissa leads to a state in which the number may end. -/
theorem exists_foldl_isPower {scan : Scan} {n : Numeral} (hn : scan.mantissa? = some n)
    {es : List UInt8} (h : IsPower es) : ∃ scan' m, scan'.numeral? = some m ∧
      ∀ ts, es.foldl step ⟨ts, scan⟩ = ⟨ts, scan'⟩ := by
  have hmark : ∀ {mark : UInt8}, mark = 101 ∨ mark = 69 → ∀ ts,
      step ⟨ts, scan⟩ mark = ⟨ts, .mark n⟩ := by
    intro mark hmark ts
    rcases hmark with rfl | rfl <;> cases scan <;> first | cases hn; rfl | cases hn
  cases h with
  | plain hmark' hds =>
      have hdigits : ∀ b d ts, Scanner.digit? b = some d →
          step ⟨ts, .mark n⟩ b = ⟨ts, .power n false d⟩ := by
        intro b d ts hdigit
        have hplus : b ≠ 43 := by
          rintro rfl
          cases hdigit
        have hminus : b ≠ 45 := by
          rintro rfl
          cases hdigit
        simp only [Scanner.step, hplus, hminus, if_false, hdigit]
      obtain ⟨value, hvalue⟩ := exists_foldl_power hdigits hds
      refine ⟨.power n false value, _, rfl, fun ts => ?_⟩
      rw [List.foldl_cons, hmark hmark', hvalue]
  | @signed mark sign ds hmark' hsign hds =>
      obtain ⟨isNegative, hsign⟩ :
          ∃ isNegative, ∀ ts, step ⟨ts, .mark n⟩ sign = ⟨ts, .sign n isNegative⟩ := by
        rcases hsign with rfl | rfl <;> exact ⟨_, fun _ => rfl⟩
      have hdigits : ∀ b d ts, Scanner.digit? b = some d →
          step ⟨ts, .sign n isNegative⟩ b = ⟨ts, .power n isNegative d⟩ := by
        intro b d ts hdigit
        simp only [Scanner.step, hdigit]
      obtain ⟨value, hvalue⟩ := exists_foldl_power hdigits hds
      refine ⟨.power n isNegative value, _, rfl, fun ts => ?_⟩
      rw [List.foldl_cons, List.foldl_cons, hmark hmark', hsign, hvalue]

theorem reaches_of_isNumber {bs : List UInt8} (h : IsNumber bs) :
    ∃ scan n, scan.numeral? = some n ∧ Reaches bs scan := by
  cases h with
  | mantissa h =>
      obtain ⟨scan, n, hn, hscan⟩ := reaches_of_isMantissa h
      exact ⟨scan, n, Scan.numeral?_of_mantissa? hn, hscan⟩
  | powered h hpower =>
      obtain ⟨scan, n, hn, hscan⟩ := reaches_of_isMantissa h
      obtain ⟨scan', m, hm, hmore⟩ := exists_foldl_isPower hn hpower
      exact ⟨scan', m, hm, hscan.append hmore⟩

theorem foldl_step_unit {ds : List UInt8} {value : Nat} (hlength : ds.length = 4)
    (hvalue : unitValue? ds = some value) (t : OpenText) (ts : List Token) :
    ds.foldl step ⟨ts, .unit t 4 0⟩ = ⟨ts, .text (t.unit value)⟩ := by
  match ds, hlength with
  | [b₁, b₂, b₃, b₄], _ =>
    simp only [unitValue?, List.foldl_cons, List.foldl_nil, Option.bind_eq_bind,
      Option.pure_def, Option.bind_some, Option.bind_eq_some_iff, Option.some.injEq] at hvalue
    obtain ⟨_, ⟨_, ⟨_, ⟨d₁, h₁, rfl⟩, d₂, h₂, rfl⟩, d₃, h₃, rfl⟩, d₄, h₄, rfl⟩ := hvalue
    simp [Scanner.step, h₁, h₂, h₃, h₄]

theorem WithinText.foldl_step {bs : List UInt8} {t : OpenText} (h : WithinText bs t)
    (ts : List Token) : bs.foldl step ⟨ts, .text {}⟩ = ⟨ts, .text t⟩ := by
  induction h with
  | start => rfl
  | plain h hquote hescape hcontrol ih =>
      rw [List.foldl_append, ih]
      simp only [List.foldl_cons, List.foldl_nil, Scanner.step, hquote, hescape, hcontrol, if_false]
  | @letter bs t b c h hletter ih =>
      have hunit : b ≠ 117 := by
        rintro rfl
        cases hletter
      have hbackslash : step ⟨ts, .text t⟩ 92 = ⟨ts, .escape t⟩ := rfl
      rw [List.foldl_append, ih, List.foldl_cons, hbackslash]
      simp only [List.foldl_cons, List.foldl_nil, Scanner.step, hunit, if_false, hletter]
  | @unit bs ds t value h hlength hvalue ih =>
      have hstart : step (step ⟨ts, .text t⟩ 92) 117 = ⟨ts, .unit t 4 0⟩ := rfl
      rw [List.foldl_append, ih, List.foldl_cons, List.foldl_cons, hstart,
        foldl_step_unit hlength hvalue]

/-- Whether a token is a number; nothing marks where it ends. -/
def Token.isNumber : Token → Bool
  | .number _ => true
  | _ => false

/-- A lexeme that is no number is scanned as its token. -/
theorem Lexeme.foldl_step {l : List UInt8} {t : Token} (h : Lexeme l t)
    (hnumber : t.isNumber = false) (ts : List Token) :
    l.foldl step ⟨ts, .idle⟩ = ⟨t :: ts, .idle⟩ := by
  cases h with
  | number => cases hnumber
  | @text bs t h =>
      have hquote : step ⟨ts, .idle⟩ 34 = ⟨ts, .text {}⟩ := rfl
      rw [List.cons_append, List.foldl_cons, hquote, List.foldl_append, h.foldl_step]
      rfl
  | openList | closeList | openRecord | closeRecord | comma | colon => rfl
  | nullWord | trueWord | falseWord => rfl

/-- One that is a number leads to a state in which it may end. -/
theorem Lexeme.reaches {l : List UInt8} {t : Token} (h : Lexeme l t) (hnumber : t.isNumber = true) :
    ∃ scan n, scan.numeral? = some n ∧ t = .number n.isInRange ∧ Reaches l scan := by
  cases h with
  | number h =>
      obtain ⟨scan, n, hn, hscan⟩ := reaches_of_isNumber h
      refine ⟨scan, n, hn, ?_, hscan⟩
      simp [isInRange, tokens, hscan [], Scanner.result_eq, hn]
  | openList | closeList | openRecord | closeRecord | comma | colon => cases hnumber
  | nullWord | trueWord | falseWord | text => cases hnumber

/-- What may stand behind a number: the comma or the end of what it is in. -/
def Token.isDelimiter : Token → Bool
  | .comma | .closeList | .closeRecord => true
  | _ => false

/-- Two tokens that may follow each other. -/
def Token.Fits (t u : Token) : Prop := t.isNumber = true → u.isDelimiter = true

theorem IsBlank.endsNumber {b : UInt8} (h : IsBlank b) : EndsNumber b := by
  rcases h with rfl | rfl | rfl | rfl <;> exact ⟨rfl, by decide, rfl⟩

theorem IsBlank.step {b : UInt8} (h : IsBlank b) (ts : List Token) :
    step ⟨ts, .idle⟩ b = ⟨ts, .idle⟩ := by
  rcases h with rfl | rfl | rfl | rfl <;> rfl

/-- A delimiter is one byte, which no number can hold. -/
theorem Lexeme.eq_of_isDelimiter {l : List UInt8} {t : Token} (h : Lexeme l t)
    (hdelimiter : t.isDelimiter = true) : ∃ b, l = [b] ∧ EndsNumber b := by
  cases h with
  | closeList | closeRecord | comma => exact ⟨_, rfl, rfl, by decide, rfl⟩
  | openList | openRecord | colon | nullWord | trueWord | falseWord => cases hdelimiter
  | number | text => cases hdelimiter

/-- The scanner behind a row of lexemes: the last one may be a number that is not closed yet. -/
inductive Behind : List Token → Scanner → Prop
  | idle {ts : List Token} : Behind ts ⟨ts.reverse, .idle⟩
  | number {ts : List Token} {scan : Scan} {n : Numeral} (hn : scan.numeral? = some n) :
    Behind (ts ++ [.number n.isInRange]) ⟨ts.reverse, scan⟩

theorem Behind.blank {ts : List Token} {s : Scanner} {b : UInt8} (h : Behind ts s)
    (hb : IsBlank b) : Behind ts (step s b) := by
  cases h with
  | idle =>
      rw [hb.step]
      exact .idle
  | @number ts scan n hn =>
      have hidle : Behind (ts ++ [.number n.isInRange]) ⟨(ts ++ [_]).reverse, .idle⟩ := .idle
      rw [step_of_endsNumber hn hb.endsNumber, hb.step]
      simpa using hidle

theorem behind_lexeme (ts : List Token) {l : List UInt8} {t : Token} (h : Lexeme l t) :
    Behind (ts ++ [t]) (l.foldl step ⟨ts.reverse, .idle⟩) := by
  cases hnumber : t.isNumber with
  | false =>
      have hidle : Behind (ts ++ [t]) ⟨(ts ++ [t]).reverse, .idle⟩ := .idle
      rw [h.foldl_step hnumber]
      simpa using hidle
  | true =>
      obtain ⟨scan, n, hn, rfl, hscan⟩ := h.reaches hnumber
      rw [hscan]
      exact .number hn

theorem Behind.lexeme {ts : List Token} {s : Scanner} {l : List UInt8} {t : Token}
    (h : Behind ts s) (hl : Lexeme l t) (hfits : (ts ++ [t]).IsChain Token.Fits) :
    Behind (ts ++ [t]) (l.foldl step s) := by
  cases h with
  | idle => exact behind_lexeme ts hl
  | @number ts scan n hn =>
      have hdelimiter : t.isDelimiter = true :=
        (List.isChain_append.1 hfits).2.2 (.number n.isInRange) (by simp) t (by simp) rfl
      obtain ⟨b, rfl, hb⟩ := hl.eq_of_isDelimiter hdelimiter
      have hstep := behind_lexeme (ts ++ [.number n.isInRange]) hl
      rw [List.reverse_append, List.foldl_cons, List.foldl_nil] at hstep
      rw [List.foldl_cons, List.foldl_nil, step_of_endsNumber hn hb]
      exact hstep

/-- **A row of lexemes is scanned as what it is**, if its numbers are delimited. -/
theorem behind_of_lexes {bs : List UInt8} {ts : List Token} (h : Lexes bs ts)
    (hfits : ts.IsChain Token.Fits) : Behind ts (bs.foldl step {}) := by
  induction h with
  | nil => exact .idle
  | blank h hb ih =>
      rw [List.foldl_append]
      exact (ih hfits).blank hb
  | lexeme h hl ih =>
      rw [List.foldl_append]
      exact (ih hfits.left_of_append).lexeme hl hfits

/-! ## What comes behind -/

theorem suffix_start (ts : List Token) (b : UInt8) : ts <:+ (start ts b).tokens := by
  unfold start
  split
  case h_16 => split <;> exact List.suffix_refl ts
  all_goals first | exact List.suffix_refl ts | exact List.suffix_cons _ ts

theorem suffix_finish (ts : List Token) (n : Numeral) (b : UInt8) :
    ts <:+ (Scanner.finish ts n b).tokens :=
  (List.suffix_cons _ ts).trans (suffix_start _ b)

theorem suffix_afterDigits (ts : List Token) (n : Numeral) (b : UInt8) :
    ts <:+ (Scanner.afterDigits ts n b).tokens := by
  unfold Scanner.afterDigits
  split
  · exact List.suffix_refl ts
  · split
    · exact List.suffix_refl ts
    · exact suffix_finish ts n b

/-- Tokens stay. -/
theorem suffix_step (s : Scanner) (b : UInt8) : s.tokens <:+ (step s b).tokens := by
  obtain ⟨ts, scan⟩ := s
  cases scan <;> simp only [Scanner.step] <;> repeat' split
  all_goals
    first
    | exact List.suffix_refl ts
    | exact List.suffix_cons _ ts
    | exact suffix_start ts b
    | exact suffix_finish ts _ b
    | exact suffix_afterDigits ts _ b

theorem suffix_foldl_step (s : Scanner) (bs : List UInt8) :
    s.tokens <:+ (bs.foldl step s).tokens := by
  induction bs generalizing s with
  | nil => exact List.suffix_refl _
  | cons b bs ih => exact (suffix_step s b).trans (ih _)

theorem Behind.eq_idle {ts : List Token} {t : Token} {s : Scanner} (h : Behind (ts ++ [t]) s)
    (hlast : t.isNumber = false) : s = ⟨(ts ++ [t]).reverse, .idle⟩ := by
  generalize hrow : ts ++ [t] = row at h ⊢
  cases h with
  | idle => rfl
  | number hn =>
      cases (List.append_inj' hrow rfl).2
      cases hlast

/-- Whatever comes behind a row of lexemes that does not end with a number, the tokens begin with
those of the row. -/
theorem tokens_of_lexes {text : List UInt8} {ts : List Token} {t : Token}
    (h : Lexes text (ts ++ [t])) (hfits : (ts ++ [t]).IsChain Token.Fits)
    (hlast : t.isNumber = false) (rest : List UInt8) :
    ∃ more, tokens (text ++ rest) = ts ++ [t] ++ more := by
  obtain ⟨new, hnew⟩ := suffix_foldl_step ⟨(ts ++ [t]).reverse, .idle⟩ rest
  rw [tokens, List.foldl_append, (behind_of_lexes h hfits).eq_idle hlast, Scanner.result_eq,
    ← hnew, List.reverse_append, List.reverse_reverse, List.append_assoc]
  exact ⟨_, rfl⟩

end Json

end ReviewDesk
