import ReviewDesk.Json.Draft
import ReviewDesk.Proofs.JsonText
import ReviewDesk.Proofs.JsonScanning

/-!
# The values of a JSON text

A text is read as a closed value if it begins with a whole JSON text, and then as the value of this
text; what comes behind is not looked at.  A list or a record that is still open lies on a stack
with what has been read of it.  At every token all of this can be told from the tokens so far and
what has to come next (`Stands`), which each token keeps.

* `IsJson` — bytes as one JSON text;
* `Stands.next` — what a token makes of what is open;
* `exists_isJson` — what is read as a closed value begins with a JSON text;
* `draft_of_isJson` — and whatever begins with a list or a record is read as it.
-/

namespace ReviewDesk

namespace Json

/-! ## Values -/

/-- Rows of tokens one after the other, with commas between them. -/
def joined : List (List Token) → List Token
  | [] => []
  | [ts] => ts
  | ts :: rest => ts ++ .comma :: joined rest

/-- The tokens of an entry: its name, a colon and those of its value. -/
def entryTokens (p : Option String × List Token × Draft) : List Token :=
  .text p.1 :: .colon :: p.2.1

/-- Tokens that are one value. -/
inductive IsValue : List Token → Draft → Prop
  | null : IsValue [.null] .null
  | bool {b : Bool} : IsValue [.bool b] (.bool b)
  | number {isInRange : Bool} : IsValue [.number isInRange] (.number isInRange)
  | text {s : Option String} : IsValue [.text s] (.text s)
  | list (parts : List (List Token × Draft)) (h : ∀ p ∈ parts, IsValue p.1 p.2) :
    IsValue (.openList :: joined (parts.map (·.1)) ++ [.closeList]) (.list (parts.map (·.2)) true)
  | record (parts : List (Option String × List Token × Draft))
    (h : ∀ p ∈ parts, IsValue p.2.1 p.2.2) :
    IsValue (.openRecord :: joined (parts.map entryTokens) ++ [.closeRecord])
      (.record (parts.map fun p => (p.1, p.2.2)) true)

/-- Bytes that are one JSON text. -/
def IsJson (text : List UInt8) (d : Draft) : Prop := ∃ ts, Lexes text ts ∧ IsValue ts d

/-! ## What is read -/

open Drafting (settle stop leave)

/-- Rows of tokens, each with a comma behind it. -/
def commas (rows : List (List Token)) : List Token := rows.flatMap (· ++ [.comma])

theorem commas_concat (rows : List (List Token)) (row : List Token) :
    commas (rows ++ [row]) = commas rows ++ (row ++ [.comma]) := by
  simp [commas]

theorem joined_concat (rows : List (List Token)) (row : List Token) :
    joined (rows ++ [row]) = commas rows ++ row := by
  induction rows with
  | nil => rfl
  | cons first rows ih =>
      have hcons : joined (first :: (rows ++ [row])) =
          first ++ .comma :: joined (rows ++ [row]) := by
        cases rows <;> rfl
      rw [List.cons_append, hcons, ih]
      simp [commas]

/-- The tokens since a list or a record was opened, if a value of it comes next. -/
inductive Awaits : List Token → OpenDraft → Prop
  | list (parts : List (List Token × Draft)) (h : ∀ p ∈ parts, IsValue p.1 p.2) :
    Awaits (.openList :: commas (parts.map (·.1))) (.list (parts.map (·.2)).reverse)
  | record (parts : List (Option String × List Token × Draft))
    (h : ∀ p ∈ parts, IsValue p.2.1 p.2.2) (name : Option String) :
    Awaits (.openRecord :: commas (parts.map entryTokens) ++ [.text name, .colon])
      (.record (parts.map fun p => (p.1, p.2.2)).reverse (some name))

/-- The tokens since the start, if a value comes next in what is open. -/
inductive AwaitsAll : List Token → List OpenDraft → Prop
  | nil : AwaitsAll [] []
  | cons {ts us : List Token} {frame : OpenDraft} {outer : List OpenDraft} (h : AwaitsAll ts outer)
    (hframe : Awaits us frame) : AwaitsAll (ts ++ us) (frame :: outer)

/-- The tokens since the start, and what comes next in what is open. -/
inductive Stands : List Token → List OpenDraft → Wanted → Prop
  | value {ts : List Token} {opened : List OpenDraft} (h : AwaitsAll ts opened) :
    Stands ts opened .value
  | firstValue {ts : List Token} {opened : List OpenDraft} (h : AwaitsAll ts opened) :
    Stands (ts ++ [.openList]) (.list [] :: opened) .firstValue
  | name {ts : List Token} {opened : List OpenDraft} (h : AwaitsAll ts opened)
    (parts : List (Option String × List Token × Draft))
    (hparts : ∀ p ∈ parts, IsValue p.2.1 p.2.2) :
    Stands (ts ++ .openRecord :: commas (parts.map entryTokens))
      (.record (parts.map fun p => (p.1, p.2.2)).reverse none :: opened) .name
  | firstName {ts : List Token} {opened : List OpenDraft} (h : AwaitsAll ts opened) :
    Stands (ts ++ [.openRecord]) (.record [] none :: opened) .firstName
  | colon {ts : List Token} {opened : List OpenDraft} (h : AwaitsAll ts opened)
    (parts : List (Option String × List Token × Draft))
    (hparts : ∀ p ∈ parts, IsValue p.2.1 p.2.2) (name : Option String) :
    Stands (ts ++ .openRecord :: commas (parts.map entryTokens) ++ [.text name])
      (.record (parts.map fun p => (p.1, p.2.2)).reverse (some name) :: opened) .colon
  | item {ts : List Token} {opened : List OpenDraft} (h : AwaitsAll ts opened)
    (parts : List (List Token × Draft)) (hparts : ∀ p ∈ parts, IsValue p.1 p.2) (hne : parts ≠ []) :
    Stands (ts ++ .openList :: joined (parts.map (·.1)))
      (.list (parts.map (·.2)).reverse :: opened) .commaOrEnd
  | entry {ts : List Token} {opened : List OpenDraft} (h : AwaitsAll ts opened)
    (parts : List (Option String × List Token × Draft))
    (hparts : ∀ p ∈ parts, IsValue p.2.1 p.2.2) (hne : parts ≠ []) :
    Stands (ts ++ .openRecord :: joined (parts.map entryTokens))
      (.record (parts.map fun p => (p.1, p.2.2)).reverse none :: opened) .commaOrEnd

/-- The tokens since the start, and how far reading has come. -/
inductive Read : List Token → Drafting → Prop
  | reading {ts : List Token} {opened : List OpenDraft} {wanted : Wanted}
    (h : Stands ts opened wanted) : Read ts (.reading opened wanted)
  | done {ts rest : List Token} {d : Draft} (h : IsValue ts d) : Read (ts ++ rest) (.done d)
  | stopped {ts : List Token} {d : Draft} (hopen : d.isClosed = false) : Read ts (.done d)

/-- What is left open is not closed. -/
theorem isClosed_leave {opened : List OpenDraft} {last : Option Draft}
    (hlast : (last.getD .broken).isClosed = false) : (leave opened last).isClosed = false := by
  induction opened generalizing last with
  | nil => exact hlast
  | cons frame outer ih =>
      cases frame with
      | list items => exact ih rfl
      | record entries name? => cases name? <;> exact ih rfl

theorem isClosed_stop (opened : List OpenDraft) (wanted : Wanted) :
    (stop opened wanted).isClosed = false := by
  unfold stop
  split <;> exact isClosed_leave rfl

theorem foldl_step_done (d : Draft) (ts : List Token) :
    ts.foldl Drafting.step (.done d) = .done d := by
  induction ts with
  | nil => rfl
  | cons t ts ih => exact ih

theorem forall_mem_concat {α : Type} {P : α → Prop} {l : List α} {a : α} (h : ∀ b ∈ l, P b)
    (ha : P a) : ∀ b ∈ l ++ [a], P b := by
  intro b hb
  rcases List.mem_append.1 hb with hb | hb
  · exact h b hb
  · exact List.mem_singleton.1 hb ▸ ha

/-- A value takes its place in what is open. -/
theorem read_settle {ts us : List Token} {opened : List OpenDraft} {d : Draft}
    (h : AwaitsAll ts opened) (hd : IsValue us d) : Read (ts ++ us) (settle d opened) := by
  cases h with
  | nil =>
      have hdone : Read (us ++ []) (.done d) := .done hd
      rwa [List.append_nil] at hdone
  | @cons ts frameTs frame outer h hframe =>
      cases hframe with
      | list parts hparts =>
          have hitem := Stands.item h (parts ++ [(us, d)]) (forall_mem_concat hparts hd) (by simp)
          simp only [List.map_append, List.map_cons, List.map_nil, joined_concat,
            List.reverse_append] at hitem
          exact .reading (by simpa [settle] using hitem)
      | record parts hparts name =>
          have hentry := Stands.entry h (parts ++ [(name, us, d)]) (forall_mem_concat hparts hd)
            (by simp)
          simp only [List.map_append, List.map_cons, List.map_nil, joined_concat,
            List.reverse_append] at hentry
          exact .reading (by simpa [settle, entryTokens] using hentry)

/-- A token where a value has to come. -/
theorem read_value {ts : List Token} {opened : List OpenDraft} {t : Token} {s : Drafting}
    (h : AwaitsAll ts opened) (hs : Drafting.value? opened t = some s) : Read (ts ++ [t]) s := by
  cases t with
  | null | bool | number | text =>
      cases hs
      exact read_settle h (by constructor)
  | openList =>
      cases hs
      exact .reading (.firstValue h)
  | openRecord =>
      cases hs
      exact .reading (.firstName h)
  | closeList | closeRecord | comma | colon => cases hs

/-- A row that is not empty has a last member. -/
theorem joined_concat_comma {rows : List (List Token)} (hne : rows ≠ []) :
    joined rows ++ [.comma] = commas rows := by
  rcases List.eq_nil_or_concat rows with rfl | ⟨rows, row, rfl⟩
  · exact absurd rfl hne
  · rw [List.concat_eq_append, joined_concat, commas_concat, List.append_assoc]

/-- A token that may come next. -/
theorem Stands.next {ts : List Token} {opened : List OpenDraft} {wanted : Wanted} {t : Token}
    {s : Drafting} (h : Stands ts opened wanted)
    (hs : Drafting.next? opened wanted t = some s) : Read (ts ++ [t]) s := by
  cases h with
  | value h => exact read_value h hs
  | @firstValue ts opened h =>
      by_cases hclose : t = .closeList
      · subst hclose
        cases hs
        rw [List.append_assoc]
        exact read_settle h (.list [] (by simp))
      · have hvalue : Drafting.value? (.list [] :: opened) t = some s := by
          cases t <;> first | exact hs | exact absurd rfl hclose
        exact read_value (h.cons (.list [] (by simp))) hvalue
  | name h parts hparts =>
      cases t with
      | text name =>
          cases hs
          exact .reading (.colon h parts hparts name)
      | null | bool | number | openList | openRecord => cases hs
      | closeList | closeRecord | comma | colon => cases hs
  | @firstName ts opened h =>
      cases t with
      | text name =>
          cases hs
          exact .reading (.colon h [] (by simp) name)
      | closeRecord =>
          cases hs
          rw [List.append_assoc]
          exact read_settle h (.record [] (by simp))
      | null | bool | number | openList | openRecord => cases hs
      | closeList | comma | colon => cases hs
  | colon h parts hparts name =>
      cases t with
      | colon =>
          cases hs
          have hvalue := Stands.value (h.cons (.record parts hparts name))
          exact .reading (by simpa using hvalue)
      | null | bool | number | text | openList | openRecord => cases hs
      | closeList | closeRecord | comma => cases hs
  | item h parts hparts hne =>
      cases t with
      | closeList =>
          cases hs
          have hclosed := read_settle h (.list parts hparts)
          simpa using hclosed
      | comma =>
          cases hs
          have hvalue := Stands.value (h.cons (.list parts hparts))
          rw [← joined_concat_comma (by simpa using hne)] at hvalue
          exact .reading (by simpa using hvalue)
      | null | bool | number | text | openList | openRecord => cases hs
      | closeRecord | colon => cases hs
  | entry h parts hparts hne =>
      cases t with
      | closeRecord =>
          cases hs
          have hclosed := read_settle h (.record parts hparts)
          simpa using hclosed
      | comma =>
          cases hs
          have hname := Stands.name h parts hparts
          rw [← joined_concat_comma (by simpa using hne)] at hname
          exact .reading (by simpa using hname)
      | null | bool | number | text | openList | openRecord => cases hs
      | closeList | colon => cases hs

/-- Every token keeps what has been read in order. -/
theorem Read.step {ts : List Token} {s : Drafting} (h : Read ts s) (t : Token) :
    Read (ts ++ [t]) (s.step t) := by
  cases h with
  | @reading ts opened wanted h =>
      cases hnext : Drafting.next? opened wanted t with
      | none =>
          simp only [Drafting.step, hnext]
          exact .stopped (isClosed_stop opened wanted)
      | some s =>
          simp only [Drafting.step, hnext]
          exact h.next hnext
  | done h =>
      rw [List.append_assoc]
      exact .done h
  | stopped hopen => exact .stopped hopen

theorem Read.foldl_step {ts : List Token} {s : Drafting} (h : Read ts s) (more : List Token) :
    Read (ts ++ more) (more.foldl Drafting.step s) := by
  induction more generalizing ts s with
  | nil => simpa using h
  | cons t more ih => simpa using ih (h.step t)

/-- **What is read as a closed value begins with a JSON text.** -/
theorem exists_isJson {bs : List UInt8} (hclosed : (draft bs).isClosed = true) :
    ∃ text rest, bs = text ++ rest ∧ IsJson text (draft bs) := by
  have hread : Read (tokens bs) ((tokens bs).foldl Drafting.step (.reading [] .value)) :=
    (Read.reading (.value .nil)).foldl_step (tokens bs)
  unfold draft at hclosed ⊢
  generalize hs : (tokens bs).foldl Drafting.step (.reading [] .value) = s at hread hclosed ⊢
  generalize hts : tokens bs = ts at hread
  cases hread with
  | @reading ts opened wanted h =>
      have hstop : (stop opened wanted).isClosed = true := hclosed
      rw [isClosed_stop] at hstop
      cases hstop
  | stopped hopen =>
      rw [Drafting.result, hopen] at hclosed
      cases hclosed
  | @done front more d h =>
      obtain ⟨text, rest, rfl, hlexes⟩ := exists_lexes_tokens bs
      obtain ⟨text, rest', rfl, hfront⟩ := hlexes.take hts
      exact ⟨text, rest' ++ rest, List.append_assoc .., front, hfront, h⟩

/-! ## What is a JSON text -/

theorem draftsItems_joined {p : List Token × Draft} {parts : List (List Token × Draft)}
    (h : ∀ q ∈ p :: parts, Drafts q.1 q.2) :
    DraftsItems (joined ((p :: parts).map (·.1))) ((p :: parts).map (·.2)) := by
  induction parts generalizing p with
  | nil => exact (h p List.mem_cons_self).items
  | cons q parts ih =>
      exact (h p List.mem_cons_self).cons_items (ih fun r hr => h r (List.mem_cons_of_mem p hr))

theorem draftsEntries_joined {p : Option String × List Token × Draft}
    {parts : List (Option String × List Token × Draft)} (h : ∀ q ∈ p :: parts, Drafts q.2.1 q.2.2) :
    DraftsEntries (joined ((p :: parts).map entryTokens))
      ((p :: parts).map fun q => (q.1, q.2.2)) := by
  induction parts generalizing p with
  | nil => exact (h p List.mem_cons_self).entries
  | cons q parts ih =>
      exact (h p List.mem_cons_self).entries.append
        (ih fun r hr => h r (List.mem_cons_of_mem p hr))

/-- A value is drafted as what it is. -/
theorem IsValue.drafts {ts : List Token} {d : Draft} (h : IsValue ts d) : Drafts ts d := by
  induction h with
  | null | number =>
      intro opened wanted hwanted
      rcases hwanted with rfl | rfl <;> rfl
  | bool => exact drafts_bool _
  | text => exact drafts_text _
  | list parts h ih =>
      cases parts with
      | nil => exact drafts_nil_list
      | cons p parts => exact (draftsItems_joined ih).list
  | record parts h ih =>
      cases parts with
      | nil => exact drafts_nil_record
      | cons p parts => exact (draftsEntries_joined ih).record

theorem fits_append {ts us : List Token} {t : Token} (ht : t.isDelimiter = true)
    (h : ts.IsChain Token.Fits) (h' : (t :: us).IsChain Token.Fits) :
    (ts ++ t :: us).IsChain Token.Fits := by
  refine h.append h' fun x _ y hy => ?_
  obtain rfl : t = y := by simpa using hy
  exact fun _ => ht

theorem fits_cons {ts : List Token} {t : Token} (ht : t.isNumber = false)
    (h : ts.IsChain Token.Fits) : (t :: ts).IsChain Token.Fits := by
  refine List.isChain_cons.2 ⟨fun y _ hnumber => ?_, h⟩
  rw [ht] at hnumber
  cases hnumber

theorem fits_joined {rows : List (List Token)} (h : ∀ row ∈ rows, row.IsChain Token.Fits) :
    (joined rows).IsChain Token.Fits := by
  induction rows with
  | nil => exact .nil
  | cons row rows ih =>
      have hrow := h row List.mem_cons_self
      cases rows with
      | nil => exact hrow
      | cons next rows =>
          have hrest := ih fun r hr => h r (List.mem_cons_of_mem row hr)
          exact fits_append rfl hrow (fits_cons rfl hrest)

/-- In a value every number is followed by a comma or a closing bracket. -/
theorem IsValue.fits {ts : List Token} {d : Draft} (h : IsValue ts d) :
    ts.IsChain Token.Fits := by
  induction h with
  | null | bool | number | text => exact .singleton _
  | list parts h ih =>
      refine fits_append rfl (fits_cons rfl (fits_joined ?_)) (.singleton _)
      simpa using ih
  | record parts h ih =>
      refine fits_append rfl (fits_cons rfl (fits_joined ?_)) (.singleton _)
      intro row hrow
      obtain ⟨p, hp, rfl⟩ := List.mem_map.1 hrow
      exact fits_cons rfl (fits_cons rfl (ih p hp))

/-- Whether a draft is a list or a record. -/
def Draft.isBracketed : Draft → Bool
  | .list .. | .record .. => true
  | _ => false

/-- **Whatever begins with a list or a record is read as it.** -/
theorem draft_of_isJson {text : List UInt8} {d : Draft} (h : IsJson text d)
    (hbracketed : d.isBracketed = true) (rest : List UInt8) : draft (text ++ rest) = d := by
  obtain ⟨ts, hlexes, hvalue⟩ := h
  obtain ⟨front, last, rfl, hlast⟩ :
      ∃ front last, ts = front ++ [last] ∧ last.isNumber = false := by
    cases hvalue with
    | list => exact ⟨_, _, rfl, rfl⟩
    | record => exact ⟨_, _, rfl, rfl⟩
    | null | bool | number | text => cases hbracketed
  obtain ⟨more, hmore⟩ := tokens_of_lexes hlexes hvalue.fits hlast rest
  rw [draft, hmore, List.foldl_append, hvalue.drafts [] .value (.inl rfl)]
  exact congrArg Drafting.result (foldl_step_done d more)

/-- Bytes that the scanner does not get through are no JSON text. -/
theorem not_isJson_of_stopped {bs : List UInt8} {ts : List Token}
    (h : bs.foldl Scanner.step {} = ⟨ts, .stopped⟩) (d : Draft) : ¬ IsJson bs d := by
  rintro ⟨us, hlexes, hvalue⟩
  have hbehind := behind_of_lexes hlexes hvalue.fits
  rw [h] at hbehind
  cases hbehind with
  | number hn => cases hn

theorem foldl_step_stopped (ts : List Token) (bs : List UInt8) :
    bs.foldl Scanner.step ⟨ts, .stopped⟩ = ⟨ts, .stopped⟩ := by
  induction bs with
  | nil => rfl
  | cons b bs ih => exact ih

end Json

end ReviewDesk
