import Mathlib.Data.List.Forall2
import ReviewDesk.Json.Draft
import ReviewDesk.Json.Value
import ReviewDesk.Proofs.Encoding

/-!
# Reading back JSON

The text that is written for a value is read as the draft of this value.  Reading has two
stages, and each has a relation that can be put together along the value: what characters
are scanned as (`Scans`), and what tokens are drafted as (`Drafts`).  Both are stated for
any surroundings, since a value stands within others.

The one difficulty is in strings.  A character comes as itself, as a letter behind a
backslash or by its number, and in each case it leaves its own bytes in the string
(`foldl_step_escape`); so the bytes at the closing quote are those of the text, which are
read back as shown before.

* `scans_quote` — a string in its quotes is one token with its text;
* `IsReadAs` — what a value is read as, for texts, truth values, lists and records;
* `draft_render` — the whole text of a value.
-/

namespace ReviewDesk

namespace Json

/-! ## Scanning -/

/-- Characters are scanned as tokens, wherever a token may start. -/
def Scans (cs : List Char) (ts : List Token) : Prop :=
  ∀ before, (cs.flatMap String.utf8EncodeChar).foldl Scanner.step ⟨before, .idle⟩ =
    ⟨ts.reverse ++ before, .idle⟩

theorem Scans.append {cs ds : List Char} {ts us : List Token} (h : Scans cs ts)
    (h' : Scans ds us) : Scans (cs ++ ds) (ts ++ us) := by
  intro before
  rw [List.flatMap_append, List.foldl_append, h before, h' _, List.reverse_append,
    List.append_assoc]

theorem Scans.cons {c : Char} {t : Token} {cs : List Char} {ts : List Token}
    (h : Scans [c] [t]) (h' : Scans cs ts) : Scans (c :: cs) (t :: ts) := h.append h'

/-! ## Strings -/

/-- A string with these bytes so far and nothing amiss. -/
def OpenText.sound (bytes : List UInt8) : OpenText := { bytes }

open OpenText (sound)

section Strings

variable {before : List Token} {bytes : List UInt8}

/-- A byte that is neither the quote nor the backslash nor a control character stands for
itself. -/
theorem step_plain {b : UInt8} (hquote : b ≠ 34) (hescape : b ≠ 92) (hcontrol : ¬ b < 32) :
    Scanner.step ⟨before, .text (sound bytes)⟩ b = ⟨before, .text (sound (b :: bytes))⟩ := by
  simp only [Scanner.step, hquote, hescape, hcontrol, if_false]
  rfl

theorem foldl_step_plain {bs : List UInt8} (hplain : ∀ b ∈ bs, b ≠ 34 ∧ b ≠ 92 ∧ ¬ b < 32) :
    bs.foldl Scanner.step ⟨before, .text (sound bytes)⟩ =
      ⟨before, .text (sound (bs.reverse ++ bytes))⟩ := by
  induction bs generalizing bytes with
  | nil => rfl
  | cons b rest ih =>
      obtain ⟨hquote, hescape, hcontrol⟩ := hplain b List.mem_cons_self
      have hrest := fun b' hb' => hplain b' (List.mem_cons_of_mem b hb')
      rw [List.foldl_cons, step_plain hquote hescape hcontrol, ih hrest, List.reverse_cons,
        List.append_assoc, List.singleton_append]

theorem digit_lt : ∀ k < 16, (Hexadecimal.digit k).toNat < 128 := by decide

/-- A digit of a character's number. -/
theorem step_unit {k : Nat} (hk : k < 16) (t : OpenText) (missing value : Nat) :
    Scanner.step ⟨before, .unit t missing value⟩ (UInt8.ofNat (Hexadecimal.digit k).toNat) =
      if missing ≤ 1 then ⟨before, .text (t.unit (value * 16 + k))⟩
      else ⟨before, .unit t (missing - 1) (value * 16 + k)⟩ := by
  simp only [Scanner.step, Ascii.char_ofNat (digit_lt k hk), Hexadecimal.digit?_digit k hk]

/-- A number that is no half of a pair stands for its character. -/
theorem unit_of_lt {c : Char} (h : c.toNat < 0xD800) :
    (sound bytes).unit c.toNat = sound ((String.utf8EncodeChar c).reverse ++ bytes) := by
  have hfirst : ¬ (0xD800 ≤ c.toNat ∧ c.toNat < 0xDC00) := by omega
  have hsecond : ¬ (0xDC00 ≤ c.toNat ∧ c.toNat < 0xE000) := by omega
  simp only [OpenText.unit, sound, hfirst, hsecond, if_false, OpenText.char, Char.ofNat_toNat]

/-- A character that is given by its number. -/
theorem foldl_step_number {c : Char} (hcontrol : c.toNat < 32) :
    (['\\', 'u', '0', '0', Hexadecimal.digit (c.toNat / 16),
        Hexadecimal.digit (c.toNat % 16)].flatMap String.utf8EncodeChar).foldl Scanner.step
      ⟨before, .text (sound bytes)⟩ =
      ⟨before, .text (sound ((String.utf8EncodeChar c).reverse ++ bytes))⟩ := by
  have hhigh := Ascii.utf8EncodeChar_of_lt (digit_lt (c.toNat / 16) (by omega))
  have hlow := Ascii.utf8EncodeChar_of_lt (digit_lt (c.toNat % 16) (by omega))
  have hzero : UInt8.ofNat (Hexadecimal.digit 0).toNat = 48 := by decide
  have hbytes : ['\\', 'u', '0', '0', Hexadecimal.digit (c.toNat / 16),
      Hexadecimal.digit (c.toNat % 16)].flatMap String.utf8EncodeChar =
      [92, 117, UInt8.ofNat (Hexadecimal.digit 0).toNat, UInt8.ofNat (Hexadecimal.digit 0).toNat,
        UInt8.ofNat (Hexadecimal.digit (c.toNat / 16)).toNat,
        UInt8.ofNat (Hexadecimal.digit (c.toNat % 16)).toNat] := by
    simp only [List.flatMap_cons, List.flatMap_nil, hhigh, hlow, hzero]
    rfl
  have hstart : Scanner.step (Scanner.step ⟨before, .text (sound bytes)⟩ 92) 117 =
      ⟨before, .unit (sound bytes) 4 0⟩ := rfl
  have hnumber : (((0 * 16 + 0) * 16 + 0) * 16 + c.toNat / 16) * 16 + c.toNat % 16 = c.toNat := by
    omega
  rw [hbytes]
  simp only [List.foldl_cons, List.foldl_nil]
  rw [hstart, step_unit (by omega), if_neg (by omega), step_unit (by omega), if_neg (by omega),
    step_unit (by omega), if_neg (by omega), step_unit (by omega), if_pos (by omega), hnumber,
    unit_of_lt (by omega)]

/-- A character that is given by a letter. -/
theorem foldl_step_letter {c letter : Char} {b : UInt8} (hletter : letter.toNat < 128)
    (hnumber : UInt8.ofNat letter.toNat ≠ 117)
    (hescaped : Scanner.escaped? (UInt8.ofNat letter.toNat) = some b)
    (hchar : String.utf8EncodeChar c = [b]) :
    (['\\', letter].flatMap String.utf8EncodeChar).foldl Scanner.step
      ⟨before, .text (sound bytes)⟩ =
      ⟨before, .text (sound ((String.utf8EncodeChar c).reverse ++ bytes))⟩ := by
  have hbytes : ['\\', letter].flatMap String.utf8EncodeChar = [92, UInt8.ofNat letter.toNat] := by
    simp only [List.flatMap_cons, List.flatMap_nil, Ascii.utf8EncodeChar_of_lt hletter]
    rfl
  have hstart : Scanner.step ⟨before, .text (sound bytes)⟩ 92 =
      ⟨before, .escape (sound bytes)⟩ := rfl
  rw [hbytes, List.foldl_cons, List.foldl_cons, List.foldl_nil, hstart, hchar]
  simp only [Scanner.step, hnumber, if_false, hescaped]
  rfl

/-- A character that stands for itself. -/
theorem foldl_step_self {c : Char} (hquote : c ≠ '"') (hescape : c ≠ '\\')
    (hcontrol : 32 ≤ c.toNat) :
    (String.utf8EncodeChar c).foldl Scanner.step ⟨before, .text (sound bytes)⟩ =
      ⟨before, .text (sound ((String.utf8EncodeChar c).reverse ++ bytes))⟩ := by
  refine foldl_step_plain fun b hb => ?_
  by_cases hascii : c.toNat < 128
  · rw [Ascii.utf8EncodeChar_of_lt hascii, List.mem_singleton] at hb
    have hnumber : b.toNat = c.toNat := by
      rw [hb, UInt8.toNat_ofNat']
      omega
    have hne : ∀ d : Char, c ≠ d → b.toNat ≠ d.toNat := by
      intro d hd heq
      rw [hnumber] at heq
      exact hd (Char.toNat_inj.1 heq)
    refine ⟨?_, ?_, ?_⟩
    · rintro rfl
      exact hne '"' hquote rfl
    · rintro rfl
      exact hne '\\' hescape rfl
    · rw [UInt8.lt_iff_toNat_lt, hnumber]
      exact Nat.not_lt.2 hcontrol
  · have hbyte := Ascii.le_of_mem_utf8EncodeChar (Nat.not_lt.1 hascii) b hb
    refine ⟨?_, ?_, ?_⟩
    · rintro rfl
      exact absurd hbyte (by decide)
    · rintro rfl
      exact absurd hbyte (by decide)
    · rw [UInt8.lt_iff_toNat_lt]
      have hlast : (32 : UInt8).toNat = 32 := rfl
      omega

/-- However a character is written, it leaves its own bytes in the string. -/
theorem foldl_step_escape (c : Char) :
    ((escape c).flatMap String.utf8EncodeChar).foldl Scanner.step ⟨before, .text (sound bytes)⟩ =
      ⟨before, .text (sound ((String.utf8EncodeChar c).reverse ++ bytes))⟩ := by
  unfold escape
  by_cases hquote : c = '"'
  · rw [if_pos hquote, hquote]
    exact foldl_step_letter (b := 34) (by decide) (by decide) (by decide) (by decide)
  rw [if_neg hquote]
  by_cases hescape : c = '\\'
  · rw [if_pos hescape, hescape]
    exact foldl_step_letter (b := 92) (by decide) (by decide) (by decide) (by decide)
  rw [if_neg hescape]
  by_cases hcontrol : c.toNat < 32
  · have hself : String.utf8EncodeChar c = [UInt8.ofNat c.toNat] :=
      Ascii.utf8EncodeChar_of_lt (by omega)
    rw [if_pos hcontrol]
    split
    case h_6 => exact foldl_step_number hcontrol
    -- the five that have a letter
    all_goals
      rename_i hnumber
      exact foldl_step_letter (by decide) (by decide) (by rw [hnumber]; decide) hself
  · rw [if_neg hcontrol, List.flatMap_singleton]
    exact foldl_step_self hquote hescape (Nat.not_lt.1 hcontrol)

theorem foldl_step_escapes (cs : List Char) :
    ((cs.flatMap escape).flatMap String.utf8EncodeChar).foldl Scanner.step
      ⟨before, .text (sound bytes)⟩ =
      ⟨before, .text (sound ((cs.flatMap String.utf8EncodeChar).reverse ++ bytes))⟩ := by
  induction cs generalizing bytes with
  | nil => rfl
  | cons c rest ih =>
      rw [List.flatMap_cons, List.flatMap_append, List.foldl_append, foldl_step_escape, ih,
        List.flatMap_cons, List.reverse_append, List.append_assoc]

end Strings

/-- A string in its quotes is scanned as its text. -/
theorem scans_quote (cs : List Char) : Scans (quote cs) [.text (some (String.ofList cs))] := by
  intro before
  have hquote : String.utf8EncodeChar '"' = [34] := by decide
  have hopen : Scanner.step ⟨before, .idle⟩ 34 = ⟨before, .text (sound [])⟩ := rfl
  have htoken : (sound (cs.flatMap String.utf8EncodeChar).reverse).token =
      .text (some (String.ofList cs)) := by
    have hread := Utf8.decode?_encode (String.ofList cs)
    rw [Utf8.encode, String.toList_ofList] at hread
    show Token.text (Utf8.decode? (cs.flatMap String.utf8EncodeChar).reverse.reverse) = _
    rw [List.reverse_reverse, hread]
  have hclose : Scanner.step ⟨before, .text (sound (cs.flatMap String.utf8EncodeChar).reverse)⟩ 34 =
      ⟨.text (some (String.ofList cs)) :: before, .idle⟩ := by
    rw [← htoken]
    rfl
  rw [quote, List.flatMap_append, List.flatMap_cons, List.flatMap_singleton, hquote,
    List.foldl_append, List.singleton_append, List.foldl_cons, List.foldl_nil, List.foldl_cons,
    hopen, foldl_step_escapes, List.append_nil, hclose]
  rfl

/-! ## Drafting -/

/-- Tokens are drafted as a value, wherever a value may come. -/
def Drafts (ts : List Token) (d : Draft) : Prop :=
  ∀ opened wanted, wanted = .value ∨ wanted = .firstValue →
    ts.foldl Drafting.step (.reading opened wanted) = Drafting.settle d opened

theorem drafts_text (s : Option String) : Drafts [.text s] (.text s) := by
  intro opened wanted hwanted
  rcases hwanted with rfl | rfl <;> rfl

theorem drafts_bool (b : Bool) : Drafts [.bool b] (.bool b) := by
  intro opened wanted hwanted
  rcases hwanted with rfl | rfl <;> rfl

/-- Values one after the other, with commas between them, are drafted as items of the list
they are in. -/
def DraftsItems (ts : List Token) (ds : List Draft) : Prop :=
  ∀ items opened wanted, wanted = .value ∨ wanted = .firstValue →
    ts.foldl Drafting.step (.reading (.list items :: opened) wanted) =
      .reading (.list (ds.reverse ++ items) :: opened) .commaOrEnd

theorem Drafts.items {ts : List Token} {d : Draft} (h : Drafts ts d) : DraftsItems ts [d] :=
  fun items opened wanted hwanted => h (.list items :: opened) wanted hwanted

theorem Drafts.cons_items {ts us : List Token} {d : Draft} {ds : List Draft} (h : Drafts ts d)
    (h' : DraftsItems us ds) : DraftsItems (ts ++ .comma :: us) (d :: ds) := by
  intro items opened wanted hwanted
  have hcomma : Drafting.step (.reading (.list (d :: items) :: opened) .commaOrEnd) .comma =
      .reading (.list (d :: items) :: opened) .value := rfl
  rw [List.foldl_append, h _ _ hwanted, List.foldl_cons, Drafting.settle, hcomma,
    h' (d :: items) opened .value (.inl rfl), List.reverse_cons, List.append_assoc,
    List.singleton_append]

theorem DraftsItems.list {ts : List Token} {ds : List Draft} (h : DraftsItems ts ds) :
    Drafts (.openList :: ts ++ [.closeList]) (.list ds true) := by
  intro opened wanted hwanted
  have hopen : Drafting.step (.reading opened wanted) .openList =
      .reading (.list [] :: opened) .firstValue := by
    rcases hwanted with rfl | rfl <;> rfl
  have hclose : Drafting.step (.reading (.list ds.reverse :: opened) .commaOrEnd) .closeList =
      Drafting.settle (.list ds.reverse.reverse true) opened := rfl
  rw [List.foldl_append, List.foldl_cons, List.foldl_nil, List.foldl_cons, hopen,
    h [] opened .firstValue (.inr rfl), List.append_nil, hclose, List.reverse_reverse]

theorem drafts_nil_list : Drafts [.openList, .closeList] (.list [] true) := by
  intro opened wanted hwanted
  rcases hwanted with rfl | rfl <;> rfl

/-- Names with values, with commas between them, are drafted as entries of the record they
are in. -/
def DraftsEntries (ts : List Token) (ds : List (Option String × Draft)) : Prop :=
  ∀ entries name? opened wanted, wanted = .name ∨ wanted = .firstName →
    ts.foldl Drafting.step (.reading (.record entries name? :: opened) wanted) =
      .reading (.record (ds.reverse ++ entries) none :: opened) .commaOrEnd

theorem Drafts.entries {name : Option String} {ts : List Token} {d : Draft} (h : Drafts ts d) :
    DraftsEntries (.text name :: .colon :: ts) [(name, d)] := by
  intro entries name? opened wanted hwanted
  have hname : Drafting.step (.reading (.record entries name? :: opened) wanted) (.text name) =
      .reading (.record entries (some name) :: opened) .colon := by
    rcases hwanted with rfl | rfl <;> rfl
  have hcolon : Drafting.step (.reading (.record entries (some name) :: opened) .colon) .colon =
      .reading (.record entries (some name) :: opened) .value := rfl
  rw [List.foldl_cons, hname, List.foldl_cons, hcolon, h _ .value (.inl rfl)]
  rfl

theorem DraftsEntries.append {ts us : List Token} {ds es : List (Option String × Draft)}
    (h : DraftsEntries ts ds) (h' : DraftsEntries us es) :
    DraftsEntries (ts ++ .comma :: us) (ds ++ es) := by
  intro entries name? opened wanted hwanted
  have hcomma : Drafting.step
      (.reading (.record (ds.reverse ++ entries) none :: opened) .commaOrEnd) .comma =
      .reading (.record (ds.reverse ++ entries) none :: opened) .name := rfl
  rw [List.foldl_append, h _ _ _ _ hwanted, List.foldl_cons, hcomma,
    h' _ none opened .name (.inl rfl), List.reverse_append, List.append_assoc]

theorem DraftsEntries.record {ts : List Token} {ds : List (Option String × Draft)}
    (h : DraftsEntries ts ds) : Drafts (.openRecord :: ts ++ [.closeRecord]) (.record ds true) := by
  intro opened wanted hwanted
  have hopen : Drafting.step (.reading opened wanted) .openRecord =
      .reading (.record [] none :: opened) .firstName := by
    rcases hwanted with rfl | rfl <;> rfl
  have hclose : Drafting.step (.reading (.record ds.reverse none :: opened) .commaOrEnd)
      .closeRecord = Drafting.settle (.record ds.reverse.reverse true) opened := rfl
  rw [List.foldl_append, List.foldl_cons, List.foldl_nil, List.foldl_cons, hopen,
    h [] none opened .firstName (.inr rfl), List.append_nil, hclose, List.reverse_reverse]

theorem drafts_nil_record : Drafts [.openRecord, .closeRecord] (.record [] true) := by
  intro opened wanted hwanted
  rcases hwanted with rfl | rfl <;> rfl

/-! ## Values -/

/-- What the text of a value is read as. -/
def IsReadAs (v : Json) (d : Draft) : Prop := ∃ ts, Scans v.chars ts ∧ Drafts ts d

theorem isReadAs_text (s : String) : IsReadAs (.text s) (.text (some s)) := by
  have hscan := scans_quote s.toList
  rw [String.ofList_toList] at hscan
  exact ⟨_, hscan, drafts_text _⟩

theorem isReadAs_bool (b : Bool) : IsReadAs (.bool b) (.bool b) := by
  have hscan : Scans (Json.bool b).chars [.bool b] := by
    cases b <;> exact fun _ => rfl
  exact ⟨_, hscan, drafts_bool b⟩

/-- A list is read as the list of what its items are read as. -/
theorem isReadAs_list {items : List Json} {ds : List Draft}
    (h : List.Forall₂ IsReadAs items ds) : IsReadAs (.list items) (.list ds true) := by
  have hopen : Scans ['['] [.openList] := fun _ => rfl
  have hclose : Scans [']'] [.closeList] := fun _ => rfl
  have hcomma : Scans [','] [.comma] := fun _ => rfl
  cases h with
  | nil => exact ⟨_, hopen.cons hclose, drafts_nil_list⟩
  | @cons v d items ds hfirst hrest =>
      have hitems : ∃ ts, Scans (itemsChars (v :: items)) ts ∧ DraftsItems ts (d :: ds) := by
        induction hrest generalizing v d with
        | nil =>
            obtain ⟨ts, hscan, hdraft⟩ := hfirst
            exact ⟨ts, hscan, hdraft.items⟩
        | @cons w e items ds hnext hothers ih =>
            obtain ⟨ts, hscan, hdraft⟩ := hfirst
            obtain ⟨us, hscans, hdrafts⟩ := ih hnext
            exact ⟨_, hscan.append (hcomma.cons hscans), hdraft.cons_items hdrafts⟩
      obtain ⟨ts, hscan, hdraft⟩ := hitems
      exact ⟨_, (hopen.cons hscan).append hclose, hdraft.list⟩

/-- What a field is read as: its name, and what its value is read as. -/
structure IsReadAsEntry (field : String × Json) (entry : Option String × Draft) : Prop where
  name : entry.1 = some field.1
  value : IsReadAs field.2 entry.2

theorem IsReadAsEntry.single {field : String × Json} {entry : Option String × Draft}
    (h : IsReadAsEntry field entry) :
    ∃ ts, Scans (quote field.1.toList ++ ':' :: field.2.chars) ts ∧ DraftsEntries ts [entry] := by
  obtain ⟨name, d⟩ := entry
  obtain ⟨hname, ts, hscan, hdraft⟩ := h
  have hcolon : Scans [':'] [.colon] := fun _ => rfl
  have hquote := scans_quote field.1.toList
  rw [String.ofList_toList, ← hname] at hquote
  exact ⟨_, hquote.append (hcolon.cons hscan), hdraft.entries⟩

/-- A record is read as the record of what its fields are read as. -/
theorem isReadAs_record {fields : List (String × Json)} {entries : List (Option String × Draft)}
    (h : List.Forall₂ IsReadAsEntry fields entries) :
    IsReadAs (.record fields) (.record entries true) := by
  have hopen : Scans ['\x7b'] [.openRecord] := fun _ => rfl
  have hclose : Scans ['\x7d'] [.closeRecord] := fun _ => rfl
  have hcomma : Scans [','] [.comma] := fun _ => rfl
  cases h with
  | nil => exact ⟨_, hopen.cons hclose, drafts_nil_record⟩
  | @cons f e fields entries hfirst hrest =>
      have hfields : ∃ ts, Scans (fieldsChars (f :: fields)) ts ∧
          DraftsEntries ts (e :: entries) := by
        induction hrest generalizing f e with
        | nil => exact hfirst.single
        | @cons g e' fields entries hnext hothers ih =>
            obtain ⟨ts, hscan, hdraft⟩ := hfirst.single
            obtain ⟨us, hscans, hdrafts⟩ := ih hnext
            have hchars : fieldsChars (f :: g :: fields) =
                (quote f.1.toList ++ ':' :: f.2.chars) ++ (',' :: fieldsChars (g :: fields)) := by
              simp [fieldsChars]
            rw [hchars]
            exact ⟨_, hscan.append (hcomma.cons hscans), hdraft.append hdrafts⟩
      obtain ⟨ts, hscan, hdraft⟩ := hfields
      exact ⟨_, (hopen.cons hscan).append hclose, hdraft.record⟩

/-- **Reading back.**  The bytes that are written for a value are read as its draft. -/
theorem draft_render {v : Json} {d : Draft} (h : IsReadAs v d) :
    draft (Utf8.encode v.render) = d := by
  obtain ⟨ts, hscan, hdraft⟩ := h
  have htokens : tokens (Utf8.encode v.render) = ts := by
    rw [tokens, Utf8.encode, render, String.toList_ofList, hscan [], List.append_nil]
    exact List.reverse_reverse ts
  rw [draft, htokens, hdraft [] .value (.inl rfl)]
  rfl

end Json

end ReviewDesk
