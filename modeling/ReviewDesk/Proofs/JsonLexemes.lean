import ReviewDesk.Json.Token

/-!
# The lexemes of a JSON text

A JSON text is a row of lexemes with blanks between them: brackets and other marks, three words,
numbers and strings.  In a string any byte may stand that is no quote, no backslash and no control
character; whether the bytes are UTF-8 is asked only when somebody wants the text.

What the scanner finds is always such a row.  It keeps apart what it has read to its end and what
it is reading: at every byte the one is a row of lexemes, and the other is the start of a lexeme
that fits the state of the scanner (`Progress`).  This is kept from byte to byte.

* `Lexes` — bytes as a row of lexemes;
* `OnNumber.goesOn` — what one more byte makes of a number;
* `Scanned.step` — what it makes of everything that has been scanned;
* `exists_lexes_tokens` — what is scanned is a row of lexemes.
-/

namespace ReviewDesk

theorem Ascii.eq_of_char {b : UInt8} {c : Char} (h : char b = c) : b = UInt8.ofNat c.toNat := by
  rw [← h, toNat_char, UInt8.ofNat_toNat]

namespace Json

/-! ## Lexemes -/

/-- What may stand between lexemes. -/
def IsBlank (b : UInt8) : Prop := b = 32 ∨ b = 9 ∨ b = 10 ∨ b = 13

def IsDigit (b : UInt8) : Prop := 48 ≤ b.toNat ∧ b.toNat ≤ 57

/-- At least one digit. -/
def AreDigits (bs : List UInt8) : Prop := bs ≠ [] ∧ ∀ b ∈ bs, IsDigit b

/-- The sign of a number. -/
def IsSign (bs : List UInt8) : Prop := bs = [] ∨ bs = [45]

/-- An integer, without zeros in front. -/
inductive IsInteger : List UInt8 → Prop
  | zero {sign : List UInt8} (hsign : IsSign sign) : IsInteger (sign ++ [48])
  | digits {sign : List UInt8} {b : UInt8} {ds : List UInt8} (hsign : IsSign sign)
    (hfirst : IsDigit b) (hzero : b ≠ 48) (hrest : ∀ d ∈ ds, IsDigit d) :
    IsInteger (sign ++ b :: ds)

/-- An integer that may have a fraction. -/
inductive IsMantissa : List UInt8 → Prop
  | integer {bs : List UInt8} (h : IsInteger bs) : IsMantissa bs
  | fraction {bs ds : List UInt8} (h : IsInteger bs) (hds : AreDigits ds) :
    IsMantissa (bs ++ 46 :: ds)

/-- A power of ten. -/
inductive IsPower : List UInt8 → Prop
  | plain {mark : UInt8} {ds : List UInt8} (hmark : mark = 101 ∨ mark = 69) (hds : AreDigits ds) :
    IsPower (mark :: ds)
  | signed {mark sign : UInt8} {ds : List UInt8} (hmark : mark = 101 ∨ mark = 69)
    (hsign : sign = 43 ∨ sign = 45) (hds : AreDigits ds) : IsPower (mark :: sign :: ds)

inductive IsNumber : List UInt8 → Prop
  | mantissa {bs : List UInt8} (h : IsMantissa bs) : IsNumber bs
  | powered {bs es : List UInt8} (h : IsMantissa bs) (hpower : IsPower es) : IsNumber (bs ++ es)

/-- The value of the digits of a unit. -/
def unitValue? (ds : List UInt8) : Option Nat :=
  ds.foldl (fun v b => do return (← v) * 16 + (← Hexadecimal.digit? (Ascii.char b))) (some 0)

theorem unitValue?_concat (ds : List UInt8) (b : UInt8) :
    unitValue? (ds ++ [b]) = do
      return (← unitValue? ds) * 16 + (← Hexadecimal.digit? (Ascii.char b)) := by
  rw [unitValue?, List.foldl_append]
  rfl

/-- Bytes behind an opening quote, and the string that they have come to. -/
inductive WithinText : List UInt8 → OpenText → Prop
  | start : WithinText [] {}
  | plain {bs : List UInt8} {t : OpenText} {b : UInt8} (h : WithinText bs t) (hquote : b ≠ 34)
    (hescape : b ≠ 92) (hcontrol : ¬ b < 32) : WithinText (bs ++ [b]) (t.byte b)
  | letter {bs : List UInt8} {t : OpenText} {b c : UInt8} (h : WithinText bs t)
    (hletter : Scanner.escaped? b = some c) : WithinText (bs ++ [92, b]) (t.byte c)
  | unit {bs ds : List UInt8} {t : OpenText} {value : Nat} (h : WithinText bs t)
    (hlength : ds.length = 4) (hvalue : unitValue? ds = some value) :
    WithinText (bs ++ 92 :: 117 :: ds) (t.unit value)

/-- Whether a number is in range. -/
def isInRange (bs : List UInt8) : Bool := tokens bs = [.number true]

/-- Bytes that are one token. -/
inductive Lexeme : List UInt8 → Token → Prop
  | openList : Lexeme [91] .openList
  | closeList : Lexeme [93] .closeList
  | openRecord : Lexeme [123] .openRecord
  | closeRecord : Lexeme [125] .closeRecord
  | comma : Lexeme [44] .comma
  | colon : Lexeme [58] .colon
  | nullWord : Lexeme [110, 117, 108, 108] .null
  | trueWord : Lexeme [116, 114, 117, 101] (.bool true)
  | falseWord : Lexeme [102, 97, 108, 115, 101] (.bool false)
  | number {bs : List UInt8} (h : IsNumber bs) : Lexeme bs (.number (isInRange bs))
  | text {bs : List UInt8} {t : OpenText} (h : WithinText bs t) : Lexeme (34 :: bs ++ [34]) t.token

/-- Bytes that are a row of lexemes, with blanks between them. -/
inductive Lexes : List UInt8 → List Token → Prop
  | nil : Lexes [] []
  | blank {bs : List UInt8} {ts : List Token} {b : UInt8} (h : Lexes bs ts) (hb : IsBlank b) :
    Lexes (bs ++ [b]) ts
  | lexeme {bs l : List UInt8} {ts : List Token} {t : Token} (h : Lexes bs ts) (hl : Lexeme l t) :
    Lexes (bs ++ l) (ts ++ [t])

/-- The first tokens come from the first bytes. -/
theorem Lexes.take {bs : List UInt8} {ts : List Token} (h : Lexes bs ts) {front rest : List Token}
    (hts : ts = front ++ rest) : ∃ text more, bs = text ++ more ∧ Lexes text front := by
  induction h generalizing rest with
  | nil =>
      obtain ⟨rfl, rfl⟩ := List.append_eq_nil_iff.1 hts.symm
      exact ⟨[], [], rfl, .nil⟩
  | @blank bs ts b h hb ih =>
      obtain ⟨text, more, rfl, hfront⟩ := ih hts
      exact ⟨text, more ++ [b], List.append_assoc .., hfront⟩
  | @lexeme bs l ts t h hl ih =>
      rcases List.eq_nil_or_concat rest with rfl | ⟨rest, u, rfl⟩
      · rw [List.append_nil] at hts
        exact ⟨bs ++ l, [], (List.append_nil _).symm, hts ▸ h.lexeme hl⟩
      · rw [List.concat_eq_append, ← List.append_assoc] at hts
        obtain ⟨text, more, rfl, hfront⟩ := ih (List.append_inj_left' hts rfl)
        exact ⟨text, more ++ l, List.append_assoc .., hfront⟩

/-! ## Numbers -/

/-- The number that has been scanned, if it may end here. -/
def Scan.numeral? : Scan → Option Numeral
  | .zero => some ⟨0, 0⟩
  | .digits n _ => some n
  | .fraction n _ => some n
  | .power n isNegative value => some (Scanner.powered n isNegative value)
  | _ => none

namespace Scanner

theorem result_eq (s : Scanner) :
    s.result = s.tokens.reverse ++ (s.scan.numeral?.map fun n => .number n.isInRange).toList := by
  obtain ⟨ts, scan⟩ := s
  cases scan <;> simp [result, Scan.numeral?]

theorem digit?_eq_some {b : UInt8} {d : Nat} (h : digit? b = some d) :
    IsDigit b ∧ b.toNat = 48 + d := by
  unfold digit? at h
  split at h
  · rename_i hdigit
    cases h
    exact ⟨hdigit, by omega⟩
  · cases h

end Scanner

/-- The start of a number, and how far it has come. -/
inductive OnNumber : List UInt8 → Scan → Prop
  | minus : OnNumber [45] .minus
  | zero {sign : List UInt8} (hsign : IsSign sign) : OnNumber (sign ++ [48]) .zero
  | digits {sign : List UInt8} {b : UInt8} {ds : List UInt8} {n : Numeral} {isFull : Bool}
    (hsign : IsSign sign) (hfirst : IsDigit b) (hzero : b ≠ 48) (hrest : ∀ d ∈ ds, IsDigit d) :
    OnNumber (sign ++ b :: ds) (.digits n isFull)
  | point {bs : List UInt8} {n : Numeral} (h : IsInteger bs) : OnNumber (bs ++ [46]) (.point n)
  | fraction {bs ds : List UInt8} {n : Numeral} {isFull : Bool} (h : IsInteger bs)
    (hds : AreDigits ds) : OnNumber (bs ++ 46 :: ds) (.fraction n isFull)
  | mark {bs : List UInt8} {mark : UInt8} {n : Numeral} (h : IsMantissa bs)
    (hmark : mark = 101 ∨ mark = 69) : OnNumber (bs ++ [mark]) (.mark n)
  | sign {bs : List UInt8} {mark sign : UInt8} {n : Numeral} {isNegative : Bool}
    (h : IsMantissa bs) (hmark : mark = 101 ∨ mark = 69) (hsign : sign = 43 ∨ sign = 45) :
    OnNumber (bs ++ [mark, sign]) (.sign n isNegative)
  | power {bs es : List UInt8} {n : Numeral} {isNegative : Bool} {value : Nat}
    (h : IsMantissa bs) (hpower : IsPower es) : OnNumber (bs ++ es) (.power n isNegative value)

theorem OnNumber.isNumber {bs : List UInt8} {scan : Scan} {n : Numeral} (h : OnNumber bs scan)
    (hn : scan.numeral? = some n) : IsNumber bs := by
  cases h with
  | zero hsign => exact .mantissa (.integer (.zero hsign))
  | digits hsign hfirst hzero hrest =>
      exact .mantissa (.integer (.digits hsign hfirst hzero hrest))
  | fraction h hds => exact .mantissa (.fraction h hds)
  | power h hpower => exact .powered h hpower
  | minus | point | mark | sign => cases hn

open Scanner (step start stop)

/-- What one more byte may make of a number: it goes on, or it ends if it may end here, or the
scanner stops. -/
def GoesOn (bs : List UInt8) (n? : Option Numeral) (b : UInt8) (next : List Token → Scanner) :
    Prop :=
  (∃ scan, OnNumber (bs ++ [b]) scan ∧ ∀ ts, next ts = ⟨ts, scan⟩) ∨
    (∃ n, n? = some n ∧ ∀ ts, next ts = start (.number n.isInRange :: ts) b) ∨
    ∀ ts, next ts = stop ts

/-- Takes the first digit of a number. -/
def Scanner.firstDigit (b : UInt8) (ts : List Token) : Scanner :=
  match digit? b with
  | some 0 => ⟨ts, .zero⟩
  | some d => ⟨ts, .digits ⟨d, 0⟩ false⟩
  | none => stop ts

theorem goesOn_first {b : UInt8} {sign : List UInt8} {n? : Option Numeral} (hsign : IsSign sign) :
    GoesOn sign n? b (Scanner.firstDigit b) := by
  unfold Scanner.firstDigit
  cases hdigit : Scanner.digit? b with
  | none => exact .inr (.inr fun _ => rfl)
  | some d =>
      obtain ⟨hb, hvalue⟩ := Scanner.digit?_eq_some hdigit
      cases d with
      | zero =>
          have hzero : b = 48 := UInt8.toNat_inj.1 hvalue
          exact .inl ⟨.zero, hzero ▸ .zero hsign, fun _ => rfl⟩
      | succ d =>
          have hne : b ≠ 48 := by
            rintro rfl
            have hnumber : (48 : UInt8).toNat = 48 := rfl
            omega
          exact .inl ⟨_, .digits hsign hb hne (by simp), fun _ => rfl⟩

theorem goesOn_mantissa {bs : List UInt8} {b : UInt8} {n : Numeral} (h : IsMantissa bs) :
    GoesOn bs (some n) b fun ts =>
      if Scanner.isMark b then ⟨ts, .mark n⟩ else Scanner.finish ts n b := by
  by_cases hmark : Scanner.isMark b = true
  · refine .inl ⟨.mark n, .mark h ?_, fun _ => if_pos hmark⟩
    simpa [Scanner.isMark] using hmark
  · exact .inr (.inl ⟨n, rfl, fun _ => if_neg hmark⟩)

theorem goesOn_integer {bs : List UInt8} {b : UInt8} {n : Numeral} (h : IsInteger bs) :
    GoesOn bs (some n) b fun ts => Scanner.afterDigits ts n b := by
  by_cases hpoint : b = 46
  · exact .inl ⟨.point n, hpoint ▸ .point h, fun _ => if_pos hpoint⟩
  · simpa only [Scanner.afterDigits, if_neg hpoint] using goesOn_mantissa (.integer h)

theorem forall_isDigit_concat {ds : List UInt8} {b : UInt8} {d : Nat} (h : ∀ c ∈ ds, IsDigit c)
    (hdigit : Scanner.digit? b = some d) : ∀ c ∈ ds ++ [b], IsDigit c := by
  intro c hc
  rcases List.mem_append.1 hc with hc | hc
  · exact h c hc
  · exact List.mem_singleton.1 hc ▸ (Scanner.digit?_eq_some hdigit).1

theorem AreDigits.single {b : UInt8} {d : Nat} (hdigit : Scanner.digit? b = some d) :
    AreDigits [b] :=
  ⟨by simp, by simpa using (Scanner.digit?_eq_some hdigit).1⟩

theorem AreDigits.concat {ds : List UInt8} {b : UInt8} {d : Nat} (h : AreDigits ds)
    (hdigit : Scanner.digit? b = some d) : AreDigits (ds ++ [b]) :=
  ⟨by simp, forall_isDigit_concat h.2 hdigit⟩

theorem IsPower.concat {es : List UInt8} {b : UInt8} {d : Nat} (h : IsPower es)
    (hdigit : Scanner.digit? b = some d) : IsPower (es ++ [b]) := by
  cases h with
  | plain hmark hds => exact .plain hmark (hds.concat hdigit)
  | signed hmark hsign hds => exact .signed hmark hsign (hds.concat hdigit)

theorem exists_pushDigit (n : Numeral) (isFull : Bool) (d : Nat) :
    ∃ m isFull', Scanner.pushDigit n isFull d = .digits m isFull' := by
  unfold Scanner.pushDigit
  split
  · exact ⟨_, _, rfl⟩
  · split <;> exact ⟨_, _, rfl⟩

theorem exists_pushFraction (n : Numeral) (isFull : Bool) (d : Nat) :
    ∃ m isFull', Scanner.pushFraction n isFull d = .fraction m isFull' := by
  unfold Scanner.pushFraction
  split
  · exact ⟨_, _, rfl⟩
  · split <;> exact ⟨_, _, rfl⟩

theorem goesOn_mark {bs : List UInt8} {b mark : UInt8} {n : Numeral} (h : IsMantissa bs)
    (hmark : mark = 101 ∨ mark = 69) :
    GoesOn (bs ++ [mark]) none b fun ts => step ⟨ts, .mark n⟩ b := by
  by_cases hplus : b = 43
  · refine .inl ⟨.sign n false, ?_, fun ts => if_pos hplus⟩
    simpa using OnNumber.sign h hmark (.inl hplus)
  by_cases hminus : b = 45
  · refine .inl ⟨.sign n true, ?_, fun ts => by simp only [Scanner.step, hminus]; rfl⟩
    simpa using OnNumber.sign h hmark (.inr hminus)
  simp only [Scanner.step, hplus, hminus, if_false]
  cases hdigit : Scanner.digit? b with
  | none => exact .inr (.inr fun _ => rfl)
  | some d =>
      refine .inl ⟨.power n false d, ?_, fun _ => rfl⟩
      simpa using OnNumber.power h (.plain hmark (.single hdigit))

/-- One more byte goes on with a number, or ends it if it may end here, or is amiss. -/
theorem OnNumber.goesOn {bs : List UInt8} {scan : Scan} (h : OnNumber bs scan) (b : UInt8) :
    GoesOn bs scan.numeral? b fun ts => step ⟨ts, scan⟩ b := by
  cases h with
  | minus => exact goesOn_first (.inr rfl)
  | zero hsign =>
      by_cases hdigit : (Scanner.digit? b).isSome = true
      · exact .inr (.inr fun ts => if_pos hdigit)
      · simp only [Scanner.step, if_neg hdigit]
        exact goesOn_integer (.zero hsign)
  | digits hsign hfirst hzero hrest =>
      rename_i n isFull
      cases hdigit : Scanner.digit? b with
      | none =>
          simp only [Scanner.step, hdigit]
          exact goesOn_integer (.digits hsign hfirst hzero hrest)
      | some d =>
          obtain ⟨m, isFull', hpush⟩ := exists_pushDigit n isFull d
          refine .inl ⟨.digits m isFull', ?_, fun ts => ?_⟩
          · simpa using OnNumber.digits hsign hfirst hzero (forall_isDigit_concat hrest hdigit)
          · simp only [Scanner.step, hdigit, hpush]
  | point h =>
      rename_i n
      cases hdigit : Scanner.digit? b with
      | none => exact .inr (.inr fun ts => by simp only [Scanner.step, hdigit])
      | some d =>
          obtain ⟨m, isFull, hpush⟩ := exists_pushFraction n false d
          refine .inl ⟨.fraction m isFull, ?_, fun ts => ?_⟩
          · simpa using OnNumber.fraction h (.single hdigit)
          · simp only [Scanner.step, hdigit, hpush]
  | fraction h hds =>
      rename_i n isFull
      cases hdigit : Scanner.digit? b with
      | none =>
          simp only [Scanner.step, hdigit]
          exact goesOn_mantissa (.fraction h hds)
      | some d =>
          obtain ⟨m, isFull', hpush⟩ := exists_pushFraction n isFull d
          refine .inl ⟨.fraction m isFull', ?_, fun ts => ?_⟩
          · simpa using OnNumber.fraction h (hds.concat hdigit)
          · simp only [Scanner.step, hdigit, hpush]
  | mark h hmark => exact goesOn_mark h hmark
  | sign h hmark hsign =>
      rename_i mark sign n isNegative
      cases hdigit : Scanner.digit? b with
      | none => exact .inr (.inr fun ts => by simp only [Scanner.step, hdigit])
      | some d =>
          refine .inl ⟨.power n isNegative d, ?_, fun ts => by simp only [Scanner.step, hdigit]⟩
          simpa using OnNumber.power h (.signed hmark hsign (.single hdigit))
  | power h hpower =>
      rename_i n isNegative value
      cases hdigit : Scanner.digit? b with
      | none =>
          exact .inr (.inl ⟨_, rfl, fun ts => by simp only [Scanner.step, hdigit]; rfl⟩)
      | some d =>
          refine .inl ⟨.power n isNegative (Scanner.pushPower value d), ?_, fun ts => ?_⟩
          · simpa using OnNumber.power h (hpower.concat hdigit)
          · simp only [Scanner.step, hdigit]

/-! ## What is scanned -/

/-- What has been read since the last token ended fits the state of the scanner. -/
inductive Progress : List UInt8 → Scan → Prop
  | idle : Progress [] .idle
  | text {bs : List UInt8} {t : OpenText} (h : WithinText bs t) : Progress (34 :: bs) (.text t)
  | escape {bs : List UInt8} {t : OpenText} (h : WithinText bs t) :
    Progress (34 :: bs ++ [92]) (.escape t)
  | unit {bs ds : List UInt8} {t : OpenText} {missing value : Nat} (h : WithinText bs t)
    (hlength : ds.length + missing = 4) (hmissing : 0 < missing)
    (hvalue : unitValue? ds = some value) :
    Progress (34 :: bs ++ 92 :: 117 :: ds) (.unit t missing value)
  | number {bs : List UInt8} {scan : Scan} (h : OnNumber bs scan)
    (hscan : ∀ ts, bs.foldl step ⟨ts, .idle⟩ = ⟨ts, scan⟩) : Progress bs scan
  | word {bs missing : List UInt8} {t : Token} (h : Lexeme (bs ++ missing) t)
    (hmissing : missing ≠ []) : Progress bs (.word missing t)
  | stopped {bs : List UInt8} : Progress bs .stopped

/-- Bytes are a row of lexemes, and what comes behind them fits the state of the scanner. -/
def Scanned (bs : List UInt8) (s : Scanner) : Prop :=
  ∃ done part, bs = done ++ part ∧ Lexes done s.tokens.reverse ∧ Progress part s.scan

/-- A number that is followed by something else is a lexeme. -/
theorem lexeme_of_onNumber {bs : List UInt8} {scan : Scan} {n : Numeral} (h : OnNumber bs scan)
    (hscan : ∀ ts, bs.foldl step ⟨ts, .idle⟩ = ⟨ts, scan⟩) (hn : scan.numeral? = some n) :
    Lexeme bs (.number n.isInRange) := by
  have hrange : isInRange bs = n.isInRange := by
    simp [isInRange, tokens, hscan, Scanner.result_eq, hn]
  exact hrange ▸ .number (h.isNumber hn)

/-- A digit starts a number. -/
theorem start_of_digit {b : UInt8} {d : Nat} (hdigit : Scanner.digit? b = some d)
    (ts : List Token) : start ts b = Scanner.firstDigit b ts := by
  unfold start
  split
  case h_16 => rfl
  all_goals
    rename_i hchar
    rw [Ascii.eq_of_char hchar] at hdigit
    cases hdigit

theorem scanned_start {done : List UInt8} {ts : List Token} (h : Lexes done ts.reverse)
    (b : UInt8) : Scanned (done ++ [b]) (start ts b) := by
  have blank : ∀ {b}, IsBlank b → Scanned (done ++ [b]) ⟨ts, .idle⟩ := fun hb =>
    ⟨_, [], (List.append_nil _).symm, h.blank hb, .idle⟩
  have mark : ∀ {b t}, Lexeme [b] t → Scanned (done ++ [b]) ⟨t :: ts, .idle⟩ := fun hl =>
    ⟨_, [], (List.append_nil _).symm, by simpa using h.lexeme hl, .idle⟩
  have goes : ∀ {b scan}, Progress [b] scan → Scanned (done ++ [b]) ⟨ts, scan⟩ := fun hpart =>
    ⟨done, _, rfl, h, hpart⟩
  cases hdigit : Scanner.digit? b with
  | some d =>
      have hstart := start_of_digit hdigit
      have hnext : GoesOn [] none b (Scanner.firstDigit b) := goesOn_first (.inl rfl)
      rcases hnext with ⟨scan, hon, hscan⟩ | ⟨n, hn, -⟩ | hstop
      · rw [hstart, hscan]
        exact goes (.number hon fun us => (hstart us).trans (hscan us))
      · cases hn
      · rw [hstart, hstop]
        exact goes .stopped
  | none =>
    unfold start
    split
    case h_1 hchar => exact blank (.inl (Ascii.eq_of_char hchar))
    case h_2 hchar => exact blank (.inr (.inl (Ascii.eq_of_char hchar)))
    case h_3 hchar => exact blank (.inr (.inr (.inl (Ascii.eq_of_char hchar))))
    case h_4 hchar => exact blank (.inr (.inr (.inr (Ascii.eq_of_char hchar))))
    case h_5 hchar => exact mark (Ascii.eq_of_char hchar ▸ .openList)
    case h_6 hchar => exact mark (Ascii.eq_of_char hchar ▸ .closeList)
    case h_7 hchar => exact mark (Ascii.eq_of_char hchar ▸ .openRecord)
    case h_8 hchar => exact mark (Ascii.eq_of_char hchar ▸ .closeRecord)
    case h_9 hchar => exact mark (Ascii.eq_of_char hchar ▸ .comma)
    case h_10 hchar => exact mark (Ascii.eq_of_char hchar ▸ .colon)
    case h_11 hchar => exact goes (Ascii.eq_of_char hchar ▸ .text .start)
    case h_12 hchar => exact goes (Ascii.eq_of_char hchar ▸ .number .minus fun _ => rfl)
    case h_13 hchar => exact goes (Ascii.eq_of_char hchar ▸ .word .trueWord (by simp))
    case h_14 hchar => exact goes (Ascii.eq_of_char hchar ▸ .word .falseWord (by simp))
    case h_15 hchar => exact goes (Ascii.eq_of_char hchar ▸ .word .nullWord (by simp))
    case h_16 =>
      rw [hdigit]
      exact goes .stopped

/-- What one more byte may make of a lexeme that marks its own end: it goes on, or ends with this
byte. -/
def Advances (part : List UInt8) (b : UInt8) (next : List Token → Scanner) : Prop :=
  (∃ scan, Progress (part ++ [b]) scan ∧ ∀ ts, next ts = ⟨ts, scan⟩) ∨
    ∃ t, Lexeme (part ++ [b]) t ∧ ∀ ts, next ts = ⟨t :: ts, .idle⟩

theorem advances_text {bs : List UInt8} {t : OpenText} (h : WithinText bs t) (b : UInt8) :
    Advances (34 :: bs) b fun ts => step ⟨ts, .text t⟩ b := by
  by_cases hquote : b = 34
  · exact .inr ⟨t.token, hquote ▸ .text h, fun _ => if_pos hquote⟩
  left
  simp only [Scanner.step, if_neg hquote]
  by_cases hescape : b = 92
  · exact ⟨.escape t, hescape ▸ .escape h, fun _ => if_pos hescape⟩
  simp only [if_neg hescape]
  by_cases hcontrol : b < 32
  · exact ⟨.stopped, .stopped, fun _ => if_pos hcontrol⟩
  · exact ⟨_, .text (h.plain hquote hescape hcontrol), fun _ => if_neg hcontrol⟩

theorem advances_escape {bs : List UInt8} {t : OpenText} (h : WithinText bs t) (b : UInt8) :
    Advances (34 :: bs ++ [92]) b fun ts => step ⟨ts, .escape t⟩ b := by
  left
  by_cases hunit : b = 117
  · have hpart : Progress (34 :: bs ++ 92 :: 117 :: []) (.unit t 4 0) := .unit h rfl (by decide) rfl
    exact ⟨.unit t 4 0, by simpa [hunit] using hpart, fun _ => if_pos hunit⟩
  simp only [Scanner.step, if_neg hunit]
  cases hletter : Scanner.escaped? b with
  | none => exact ⟨.stopped, .stopped, fun _ => rfl⟩
  | some c => exact ⟨_, by simpa using Progress.text (h.letter hletter), fun _ => rfl⟩

theorem advances_unit {bs ds : List UInt8} {t : OpenText} {missing value : Nat}
    (h : WithinText bs t) (hlength : ds.length + missing = 4) (hmissing : 0 < missing)
    (hvalue : unitValue? ds = some value) (b : UInt8) :
    Advances (34 :: bs ++ 92 :: 117 :: ds) b fun ts => step ⟨ts, .unit t missing value⟩ b := by
  left
  simp only [Scanner.step]
  cases hdigit : Hexadecimal.digit? (Ascii.char b) with
  | none => exact ⟨.stopped, .stopped, fun _ => rfl⟩
  | some d =>
      have hmore : unitValue? (ds ++ [b]) = some (value * 16 + d) := by
        rw [unitValue?_concat, hvalue, hdigit]
        rfl
      have hlength' : (ds ++ [b]).length = ds.length + 1 := List.length_append
      by_cases hlast : missing ≤ 1
      · have hpart := Progress.text (h.unit (by omega) hmore)
        exact ⟨_, by simpa using hpart, fun _ => if_pos hlast⟩
      · have hleft : (ds ++ [b]).length + (missing - 1) = 4 := by omega
        have hpart := Progress.unit h hleft (by omega) hmore
        exact ⟨_, by simpa using hpart, fun _ => if_neg hlast⟩

theorem advances_word {part : List UInt8} {c : UInt8} {rest : List UInt8} {t : Token}
    (h : Lexeme (part ++ c :: rest) t) (b : UInt8) :
    Advances part b fun ts => step ⟨ts, .word (c :: rest) t⟩ b := by
  by_cases hb : b = c
  · subst hb
    cases rest with
    | nil => exact .inr ⟨t, h, fun _ => if_pos rfl⟩
    | cons next rest => exact .inl ⟨_, .word (by simpa using h) (by simp), fun _ => if_pos rfl⟩
  · refine .inl ⟨.stopped, .stopped, fun _ => ?_⟩
    cases rest <;> exact if_neg hb

/-- Every byte keeps what has been scanned in order. -/
theorem Scanned.step {bs : List UInt8} {s : Scanner} (h : Scanned bs s) (b : UInt8) :
    Scanned (bs ++ [b]) (s.step b) := by
  obtain ⟨ts, scan⟩ := s
  obtain ⟨done, part, rfl, hdone, hpart⟩ := h
  have goes : ∀ {part' scan'}, Progress part' scan' → Scanned (done ++ part') ⟨ts, scan'⟩ :=
    fun hpart => ⟨done, _, rfl, hdone, hpart⟩
  have advance : ∀ {part next}, Advances part b next →
      Scanned (done ++ (part ++ [b])) (next ts) := by
    rintro part next (⟨scan', hpart', hnext⟩ | ⟨t, hl, hnext⟩)
    · rw [hnext]
      exact goes hpart'
    · rw [hnext]
      exact ⟨_, [], (List.append_nil _).symm, by simpa using hdone.lexeme hl, .idle⟩
  rw [List.append_assoc]
  cases hpart with
  | idle => exact scanned_start hdone b
  | text h => exact advance (advances_text h b)
  | escape h => exact advance (advances_escape h b)
  | unit h hlength hmissing hvalue => exact advance (advances_unit h hlength hmissing hvalue b)
  | @number part scan h hscan =>
      rcases h.goesOn b with ⟨scan', hon, hnext⟩ | ⟨n, hn, hnext⟩ | hstop
      · have hfold : ∀ us, (part ++ [b]).foldl Scanner.step ⟨us, .idle⟩ = ⟨us, scan'⟩ := by
          intro us
          rw [List.foldl_append, hscan]
          exact hnext us
        exact advance (.inl ⟨scan', .number hon hfold, hnext⟩)
      · have hrow : Lexes (done ++ part) (.number n.isInRange :: ts).reverse := by
          simpa using hdone.lexeme (lexeme_of_onNumber h hscan hn)
        have hsame : Scanner.step ⟨ts, scan⟩ b = start (.number n.isInRange :: ts) b := hnext ts
        rw [hsame, ← List.append_assoc]
        exact scanned_start hrow b
      · exact advance (.inl ⟨.stopped, .stopped, hstop⟩)
  | @word part missing t h hmissing =>
      cases missing with
      | nil => exact absurd rfl hmissing
      | cons c rest => exact advance (advances_word h b)
  | stopped => exact goes .stopped

theorem Scanned.foldl_step {bs : List UInt8} {s : Scanner} (h : Scanned bs s)
    (more : List UInt8) : Scanned (bs ++ more) (more.foldl Scanner.step s) := by
  induction more generalizing bs s with
  | nil => simpa using h
  | cons b more ih => simpa using ih (h.step b)

/-- **What is scanned is a row of lexemes**, up to some place. -/
theorem exists_lexes_tokens (bs : List UInt8) :
    ∃ text rest, bs = text ++ rest ∧ Lexes text (tokens bs) := by
  have hempty : Scanned [] {} := ⟨[], [], rfl, .nil, .idle⟩
  obtain ⟨done, part, hbs, hdone, hpart⟩ := hempty.foldl_step bs
  rw [tokens, Scanner.result_eq]
  cases hn : (bs.foldl step {}).scan.numeral? with
  | none => exact ⟨done, part, hbs, by simpa using hdone⟩
  | some n =>
      refine ⟨done ++ part, [], by simpa using hbs, hdone.lexeme ?_⟩
      generalize hscan : (bs.foldl step {}).scan = scan at hpart hn
      cases hpart with
      | number h hfold => exact lexeme_of_onNumber h hfold hn
      | idle | text | escape | unit | word | stopped => cases hn

end Json

end ReviewDesk
