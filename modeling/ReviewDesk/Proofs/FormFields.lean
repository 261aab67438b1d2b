import Mathlib.Data.List.Nodup
import ReviewDesk.Json.Form
import ReviewDesk.Proofs.JsonValues

/-!
# What a form asks for

A form is read field by field, and keeps what it has found so far.  What it asks for can be
said without that: each of its fields once, with a value that is fit for it.  A record may hold
other things besides, under other names; a list has to hold the values and nothing else.

This is shown for every form at once.  A form is made of single fields, and two forms taken
together do not get into each other's way, as their fields have different names (`Asks.and`).

* `Gives` — a value that has what is asked for;
* `Asks.read_iff` — such values are read, and no others.
-/

namespace ReviewDesk

namespace Json

/-! ## Whole values -/

/-- A draft of a value that came to its end. -/
def IsWhole (d : Draft) : Prop := ∃ ts, IsValue ts d

theorem IsWhole.isClosed {d : Draft} (h : IsWhole d) : d.isClosed = true := by
  obtain ⟨ts, h⟩ := h
  cases h <;> rfl

theorem IsWhole.items {items : List Draft} {isClosed : Bool} (h : IsWhole (.list items isClosed)) :
    isClosed = true ∧ ∀ d ∈ items, IsWhole d := by
  obtain ⟨ts, h⟩ := h
  cases h with
  | list parts h =>
      refine ⟨rfl, fun d hd => ?_⟩
      obtain ⟨p, hp, rfl⟩ := List.mem_map.1 hd
      exact ⟨p.1, h p hp⟩

theorem IsWhole.entries {entries : List (Option String × Draft)} {isClosed : Bool}
    (h : IsWhole (.record entries isClosed)) :
    isClosed = true ∧ ∀ e ∈ entries, IsWhole e.2 := by
  obtain ⟨ts, h⟩ := h
  cases h with
  | record parts h =>
      refine ⟨rfl, fun e he => ?_⟩
      obtain ⟨p, hp, rfl⟩ := List.mem_map.1 he
      exact ⟨p.2.1, h p hp⟩

/-! ## Demands -/

/-- A field that is asked for: its name, and what its value has to be. -/
structure Demand where
  name : String
  isMet : Draft → Prop

/-- The entries of a record with a name. -/
def named (name : String) (entries : List (Option String × Draft)) :
    List (Option String × Draft) :=
  entries.filter (·.1 = some name)

/-- A value has what is asked for. -/
inductive Gives (demands : List Demand) : Draft → Prop
  /-- A record has each field once; all of its names are texts. -/
  | record {entries : List (Option String × Draft)} (hnames : ∀ e ∈ entries, e.1 ≠ none)
    (hfields : ∀ g ∈ demands, ∃ d, named g.name entries = [(some g.name, d)] ∧ g.isMet d) :
    Gives demands (.record entries true)
  /-- A list has the values of the fields, in order. -/
  | list {items : List Draft} (h : List.Forall₂ (fun g d => g.isMet d) demands items) :
    Gives demands (.list items true)

variable {σ τ α β : Type}

/-- A field takes a value. -/
def Field.Takes (f : Field σ) (d : Draft) : Prop := ∃ s s', f.fill d s = .ok s'

/-- A field takes what is asked for under its name. -/
structure Field.Meets (f : Field σ) (g : Demand) : Prop where
  name : f.name = g.name
  takes : ∀ d, IsWhole d → (f.Takes d ↔ g.isMet d)

namespace Form

/-- A form asks for certain fields. -/
structure Asks (form : Form σ α) (demands : List Demand) : Prop where
  fields : List.Forall₂ Field.Meets form.fields demands
  distinct : (form.fields.map (·.name)).Nodup
  /-- Whether a value is taken does not depend on what was found before. -/
  regular : ∀ f ∈ form.fields, ∀ d s, f.Takes d → ∃ s', f.fill d s = .ok s'
  blank : ∀ f ∈ form.fields, f.isFilled form.blank = false
  filled : ∀ f ∈ form.fields, ∀ d s s', f.fill d s = .ok s' → ∀ g ∈ form.fields,
    g.isFilled s' = (decide (g.name = f.name) || g.isFilled s)
  complete : ∀ s, (form.complete s).isSome = true ↔ ∀ f ∈ form.fields, f.isFilled s = true

variable {form : Form σ α} {demands : List Demand}

theorem named_cons {name : String} {e : Option String × Draft}
    {entries : List (Option String × Draft)} :
    named name (e :: entries) =
      if e.1 = some name then e :: named name entries else named name entries := by
  by_cases h : e.1 = some name <;> simp [named, h]

/-- What is still needed of the entries of a record: nothing for a field that is filled, and
otherwise one value that it takes. -/
def Needs (f : Field σ) (entries : List (Option String × Draft)) (s : σ) : Prop :=
  if f.isFilled s = true then named f.name entries = []
  else ∃ d, named f.name entries = [(some f.name, d)] ∧ f.Takes d

theorem Needs.skip {f : Field σ} {e : Option String × Draft}
    {entries : List (Option String × Draft)} {s : σ} (hname : e.1 ≠ some f.name) :
    Needs f (e :: entries) s ↔ Needs f entries s := by
  rw [Needs, Needs, named_cons, if_neg hname]

theorem Needs.cons {f : Field σ} {d : Draft} {entries : List (Option String × Draft)} {s s' : σ}
    (hs : f.isFilled s = false) (hs' : f.isFilled s' = true) (htakes : f.Takes d) :
    Needs f ((some f.name, d) :: entries) s ↔ Needs f entries s' := by
  rw [Needs, Needs, named_cons, if_pos rfl, if_pos hs', hs, if_neg Bool.false_ne_true]
  constructor
  · rintro ⟨d', hnamed, -⟩
    exact (List.cons.inj hnamed).2
  · intro hnone
    exact ⟨d, by rw [hnone], htakes⟩

/-- The first entry fills the field that has its name, and that field must not be filled yet. -/
theorem readEntries_of_known {f : Field σ} (hfind : form.fields.find? (·.name = f.name) = some f)
    {d : Draft} {entries : List (Option String × Draft)} {s s'' : σ} :
    readEntries form.fields ((some f.name, d) :: entries) s = .ok s'' ↔
      f.isFilled s = false ∧ ∃ s', f.fill d s = .ok s' ∧
        readEntries form.fields entries s' = .ok s'' := by
  simp only [readEntries, hfind]
  cases hfilled : f.isFilled s with
  | true => simp
  | false => cases hfill : f.fill d s <;> simp [bind, Except.bind]

/-- What is needed beside such an entry is what is needed once it is read. -/
theorem Asks.needs_known (h : form.Asks demands) {f : Field σ} (hf : f ∈ form.fields) {d : Draft}
    {entries : List (Option String × Draft)} {s : σ} :
    (∀ g ∈ form.fields, Needs g ((some f.name, d) :: entries) s) ↔
      f.isFilled s = false ∧ ∃ s', f.fill d s = .ok s' ∧ ∀ g ∈ form.fields, Needs g entries s' := by
  have hread : ∀ s', f.isFilled s = false → f.fill d s = .ok s' →
      ((∀ g ∈ form.fields, Needs g ((some f.name, d) :: entries) s) ↔
        ∀ g ∈ form.fields, Needs g entries s') := by
    intro s' hopen hfill
    have hafter := h.filled f hf d s s' hfill
    refine forall₂_congr fun g hg => ?_
    by_cases hsame : g.name = f.name
    · obtain rfl : g = f := List.inj_on_of_nodup_map h.distinct hg hf hsame
      exact Needs.cons hopen (by simp [hafter g hg]) ⟨s, s', hfill⟩
    · have hkept : g.isFilled s' = g.isFilled s := by simp [hafter g hg, hsame]
      rw [Needs.skip fun heq => hsame (Option.some.inj heq).symm, Needs, Needs, hkept]
  constructor
  · intro hneeds
    have hthis := hneeds f hf
    rw [Needs, named_cons, if_pos rfl] at hthis
    split at hthis
    · cases hthis
    · rename_i hopen
      obtain ⟨d', hnamed, htakes⟩ := hthis
      cases (List.cons.inj hnamed).1
      obtain ⟨s', hfill⟩ := h.regular f hf d s htakes
      have hopen : f.isFilled s = false := by simpa using hopen
      exact ⟨hopen, s', hfill, (hread s' hopen hfill).1 hneeds⟩
  · rintro ⟨hopen, s', hfill, hneeds⟩
    exact (hread s' hopen hfill).2 hneeds

/-- A record is read to the end, and all fields are filled then, if its names are texts and it has
what is still needed. -/
theorem Asks.readEntries_iff (h : form.Asks demands) {entries : List (Option String × Draft)}
    (hwhole : ∀ e ∈ entries, IsWhole e.2) (s : σ) :
    (∃ s', readEntries form.fields entries s = .ok s' ∧ ∀ f ∈ form.fields, f.isFilled s' = true) ↔
      (∀ e ∈ entries, e.1 ≠ none) ∧ ∀ f ∈ form.fields, Needs f entries s := by
  induction entries generalizing s with
  | nil =>
      have hneeds : ∀ f : Field σ, Needs f [] s ↔ f.isFilled s = true := by
        intro f
        unfold Needs
        split <;> simp_all [named]
      simp [readEntries, hneeds]
  | cons e entries ih =>
      obtain ⟨name, d⟩ := e
      have hrest := fun s => ih (fun e he => hwhole e (List.mem_cons_of_mem _ he)) s
      cases name with
      | none => simp [readEntries]
      | some name =>
          have hnames : (∀ e ∈ (some name, d) :: entries, e.1 ≠ none) ↔
              ∀ e ∈ entries, e.1 ≠ none := by
            simp
          rw [hnames]
          cases hfind : form.fields.find? (·.name = name) with
          | none =>
              have hother : ∀ f ∈ form.fields, some name ≠ some f.name := by
                intro f hf heq
                have hno := List.find?_eq_none.1 hfind f hf
                exact hno (decide_eq_true (Option.some.inj heq).symm)
              have hclosed : d.isClosed = true := (hwhole _ List.mem_cons_self).isClosed
              simp only [readEntries, hfind, hclosed, if_true]
              rw [hrest s]
              refine and_congr_right fun _ => forall₂_congr fun f hf => ?_
              exact (Needs.skip (hother f hf)).symm
          | some f =>
              have hf : f ∈ form.fields := List.mem_of_find?_eq_some hfind
              obtain rfl : f.name = name := by simpa using List.find?_some hfind
              rw [h.needs_known hf]
              constructor
              · rintro ⟨s'', hread, hall⟩
                obtain ⟨hopen, s', hfill, hread⟩ := (readEntries_of_known hfind).1 hread
                obtain ⟨htexts, hneeds⟩ := (hrest s').1 ⟨s'', hread, hall⟩
                exact ⟨htexts, hopen, s', hfill, hneeds⟩
              · rintro ⟨htexts, hopen, s', hfill, hneeds⟩
                obtain ⟨s'', hread, hall⟩ := (hrest s').2 ⟨htexts, hneeds⟩
                exact ⟨s'', (readEntries_of_known hfind).2 ⟨hopen, s', hfill, hread⟩, hall⟩

/-- A list is read to the end if it has a value for every field. -/
theorem Asks.readItems_iff (h : form.Asks demands) {fields : List (Field σ)}
    (hfields : fields ⊆ form.fields) (items : List Draft) (s : σ) :
    (∃ s', readItems true fields items s = .ok s' ∧
      ∀ f ∈ form.fields, f ∈ fields ∨ f.isFilled s = true → f.isFilled s' = true) ↔
      List.Forall₂ Field.Takes fields items := by
  induction fields generalizing items s with
  | nil => cases items <;> simp [readItems]
  | cons f fields ih =>
      obtain ⟨hf, hfields⟩ := List.cons_subset.1 hfields
      cases items with
      | nil => simp [readItems]
      | cons d items =>
          rw [List.forall₂_cons]
          cases hfill : f.fill d s with
          | error why =>
              refine iff_of_false (by simp [readItems, hfill, bind, Except.bind]) fun htakes => ?_
              obtain ⟨s', hs'⟩ := h.regular f hf d s htakes.1
              rw [hfill] at hs'
              cases hs'
          | ok s' =>
              have hafter := h.filled f hf d s s' hfill
              rw [← ih hfields items s', and_iff_right ⟨s, s', hfill⟩]
              have hread : readItems true (f :: fields) (d :: items) s =
                  readItems true fields items s' := by
                rw [readItems, hfill]
                rfl
              rw [hread]
              refine exists_congr fun s'' => and_congr_right fun _ => forall₂_congr fun g hg => ?_
              have hsame : g.name = f.name ↔ g = f :=
                ⟨List.inj_on_of_nodup_map h.distinct hg hf, congrArg _⟩
              rw [hafter g hg, Bool.or_eq_true, decide_eq_true_eq, hsame, List.mem_cons]
              tauto

/-- An entry that is the only one with its name is whole. -/
theorem isWhole_of_named {name : String} {d : Draft} {entries : List (Option String × Draft)}
    (hwhole : ∀ e ∈ entries, IsWhole e.2) (h : named name entries = [(some name, d)]) :
    IsWhole d := by
  have hmem : (some name, d) ∈ named name entries := h ▸ List.mem_cons_self
  exact hwhole _ (List.mem_filter.1 hmem).1

/-- The fields of a record take what is asked for. -/
theorem forall_takes_iff {fields : List (Field σ)} {demands : List Demand}
    (h : List.Forall₂ Field.Meets fields demands) {entries : List (Option String × Draft)}
    (hwhole : ∀ e ∈ entries, IsWhole e.2) :
    (∀ f ∈ fields, ∃ d, named f.name entries = [(some f.name, d)] ∧ f.Takes d) ↔
      ∀ g ∈ demands, ∃ d, named g.name entries = [(some g.name, d)] ∧ g.isMet d := by
  induction h with
  | nil => simp
  | @cons f g fields demands hmeets hrest ih =>
      rw [List.forall_mem_cons, List.forall_mem_cons, ih, hmeets.name]
      refine and_congr_left fun _ => exists_congr fun d => and_congr_right fun hnamed => ?_
      exact hmeets.takes d (isWhole_of_named hwhole hnamed)

/-- The fields take the values of a list. -/
theorem forall₂_takes_iff {fields : List (Field σ)} {demands : List Demand}
    (h : List.Forall₂ Field.Meets fields demands) {items : List Draft}
    (hwhole : ∀ d ∈ items, IsWhole d) :
    List.Forall₂ Field.Takes fields items ↔
      List.Forall₂ (fun g d => g.isMet d) demands items := by
  induction h generalizing items with
  | nil => cases items <;> simp
  | @cons f g fields demands hmeets hrest ih =>
      cases items with
      | nil => simp
      | cons d items =>
          obtain ⟨hd, hitems⟩ := List.forall_mem_cons.1 hwhole
          rw [List.forall₂_cons, List.forall₂_cons, ih hitems, hmeets.takes d hd]

theorem exists_read_iff {d : Draft} {found : Except Misread σ}
    (hread : form.read d = found >>= fun s =>
      match form.complete s with
      | some a => .ok a
      | none => .error .unfit) :
    (∃ a, form.read d = .ok a) ↔ ∃ s, found = .ok s ∧ (form.complete s).isSome = true := by
  rw [hread]
  cases found with
  | error why => simp [bind, Except.bind]
  | ok s => cases hs : form.complete s <;> simp [bind, Except.bind, hs]

/-- **A form is read from what gives what it asks for**, and from nothing else. -/
theorem Asks.read_iff (h : form.Asks demands) {d : Draft} (hd : IsWhole d) :
    (∃ a, form.read d = .ok a) ↔ Gives demands d := by
  cases d with
  | record entries isClosed =>
      obtain ⟨rfl, hwhole⟩ := hd.entries
      have hneeds : ∀ f ∈ form.fields, Needs f entries form.blank ↔
          ∃ d, named f.name entries = [(some f.name, d)] ∧ f.Takes d := by
        intro f hf
        rw [Needs, h.blank f hf, if_neg Bool.false_ne_true]
      rw [exists_read_iff rfl]
      simp only [h.complete]
      rw [h.readEntries_iff hwhole, forall₂_congr hneeds, forall_takes_iff h.fields hwhole]
      constructor
      · intro hgives
        exact .record hgives.1 hgives.2
      · intro hgives
        cases hgives with
        | record hnames hfields => exact ⟨hnames, hfields⟩
  | list items isClosed =>
      obtain ⟨rfl, hwhole⟩ := hd.items
      have hitems := h.readItems_iff (List.Subset.refl form.fields) items form.blank
      rw [exists_read_iff rfl]
      simp only [h.complete]
      have hall : ∀ s', (∀ f ∈ form.fields, f ∈ form.fields ∨ f.isFilled form.blank = true →
          f.isFilled s' = true) ↔ ∀ f ∈ form.fields, f.isFilled s' = true := fun s' =>
        forall₂_congr fun f hf => by simp [hf]
      simp only [hall] at hitems
      rw [hitems, forall₂_takes_iff h.fields hwhole]
      constructor
      · exact .list
      · intro hgives
        cases hgives with
        | list h => exact h
  | broken | null | bool | number | text =>
      refine iff_of_false ?_ nofun
      rintro ⟨a, ha⟩
      cases ha

theorem readItems_ne_ok {fields : List (Field σ)} {items : List Draft} {s s' : σ} :
    readItems false fields items s ≠ .ok s' := by
  induction fields generalizing items s with
  | nil => cases items <;> simp [readItems]
  | cons f fields ih =>
      cases items with
      | nil => simp [readItems]
      | cons d items =>
          rw [readItems]
          cases f.fill d s with
          | error why => simp [bind, Except.bind]
          | ok s => exact ih

/-- What is read is closed. -/
theorem isClosed_of_read {d : Draft} {a : α} (h : form.read d = .ok a) : d.isClosed = true := by
  cases d with
  | record entries isClosed =>
      cases isClosed with
      | true => rfl
      | false =>
          unfold read at h
          cases hread : readEntries form.fields entries form.blank <;>
            simp [hread, bind, Except.bind] at h
  | list items isClosed =>
      cases isClosed with
      | true => rfl
      | false =>
          obtain ⟨s, hs, -⟩ := (exists_read_iff rfl).1 ⟨a, h⟩
          exact absurd hs readItems_ne_ok
  | broken => cases h
  | null | bool | number | text => rfl

/-! ## Putting forms together -/

/-- A single field asks for what is read. -/
theorem asks_field {name : String} {read : Draft → Except Misread α} {isMet : Draft → Prop}
    (hread : ∀ d, IsWhole d → ((∃ a, read d = .ok a) ↔ isMet d)) :
    (field name read).Asks [⟨name, isMet⟩] := by
  have hfill : ∀ {d s'}, some <$> read d = .ok s' ↔ ∃ a, read d = .ok a ∧ some a = s' := by
    intro d s'
    cases read d <;> simp [Functor.map, Except.map]
  exact {
    fields := by
      refine .cons ⟨rfl, fun d hd => ?_⟩ .nil
      show (∃ _ s', some <$> read d = .ok s') ↔ isMet d
      simp [hfill, hread d hd]
    distinct := by simp [field]
    regular := by
      intro f hf d s htakes
      obtain rfl := List.mem_singleton.1 hf
      obtain ⟨_, s', hs'⟩ := htakes
      exact ⟨s', hs'⟩
    blank := by
      intro f hf
      obtain rfl := List.mem_singleton.1 hf
      rfl
    filled := by
      intro f hf d s s' hs' g hg
      obtain rfl := List.mem_singleton.1 hf
      obtain rfl := List.mem_singleton.1 hg
      obtain ⟨a, -, rfl⟩ := hfill.1 hs'
      simp
    complete := by
      intro s
      simp [field] }

/-- What is built of a record does not change what is asked for. -/
theorem Asks.map (build : α → β) (h : form.Asks demands) : (form.map build).Asks demands where
  fields := h.fields
  distinct := h.distinct
  regular := h.regular
  blank := h.blank
  filled := h.filled
  complete s := by
    have hsome : ((form.map build).complete s).isSome = (form.complete s).isSome :=
      Option.isSome_map
    rw [hsome]
    exact h.complete s

theorem names_eq {fields : List (Field σ)} (h : List.Forall₂ Field.Meets fields demands) :
    fields.map (·.name) = demands.map (·.name) := by
  induction h with
  | nil => rfl
  | cons hmeets hrest ih => rw [List.map_cons, List.map_cons, hmeets.name, ih]

section And

variable {form' : Form τ β} {demands' : List Demand}

theorem fill_left {f : Field σ} {d : Draft} {s s' : σ × τ} :
    (left f : Field (σ × τ)).fill d s = .ok s' ↔ ∃ x, f.fill d s.1 = .ok x ∧ (x, s.2) = s' := by
  show (·, s.2) <$> f.fill d s.1 = .ok s' ↔ _
  cases f.fill d s.1 <;> simp [Functor.map, Except.map]

theorem fill_right {f : Field τ} {d : Draft} {s s' : σ × τ} :
    (right f : Field (σ × τ)).fill d s = .ok s' ↔ ∃ x, f.fill d s.2 = .ok x ∧ (s.1, x) = s' := by
  show (s.1, ·) <$> f.fill d s.2 = .ok s' ↔ _
  cases f.fill d s.2 <;> simp [Functor.map, Except.map]

theorem takes_left {f : Field σ} {d : Draft} (t : τ) :
    (left f : Field (σ × τ)).Takes d ↔ f.Takes d := by
  simp only [Field.Takes, fill_left]
  constructor
  · rintro ⟨s, _, x, hx, -⟩
    exact ⟨s.1, x, hx⟩
  · rintro ⟨s, x, hx⟩
    exact ⟨(s, t), _, x, hx, rfl⟩

theorem takes_right {f : Field τ} {d : Draft} (s : σ) :
    (right f : Field (σ × τ)).Takes d ↔ f.Takes d := by
  simp only [Field.Takes, fill_right]
  constructor
  · rintro ⟨s, _, x, hx, -⟩
    exact ⟨s.2, x, hx⟩
  · rintro ⟨t, x, hx⟩
    exact ⟨(s, t), _, x, hx, rfl⟩

theorem mem_fields_and {f : Field (σ × τ)} : f ∈ (form.and form').fields ↔
    (∃ g ∈ form.fields, left g = f) ∨ ∃ g ∈ form'.fields, right g = f := by
  simp [Form.and]

theorem isSome_complete_and {s : σ × τ} : ((form.and form').complete s).isSome = true ↔
    (form.complete s.1).isSome = true ∧ (form'.complete s.2).isSome = true := by
  show Option.isSome (do return (← form.complete s.1, ← form'.complete s.2)) = true ↔ _
  cases form.complete s.1 <;> cases form'.complete s.2 <;> simp

/-- Two forms with different fields ask for those of both. -/
theorem Asks.and (h : form.Asks demands) (h' : form'.Asks demands')
    (hdistinct : ((demands ++ demands').map (·.name)).Nodup) :
    (form.and form').Asks (demands ++ demands') := by
  have hnames : (form.fields.map (·.name) ++ form'.fields.map (·.name)).Nodup := by
    rwa [names_eq h.fields, names_eq h'.fields, ← List.map_append]
  have hdiffer : ∀ f ∈ form.fields, ∀ g ∈ form'.fields, f.name ≠ g.name := fun f hf g hg =>
    (List.nodup_append.1 hnames).2.2 _ (List.mem_map_of_mem hf) _ (List.mem_map_of_mem hg)
  exact {
    fields := by
      refine List.rel_append ?_ ?_
      · exact List.forall₂_map_left_iff.2 (h.fields.imp fun f g hmeets =>
          ⟨hmeets.name, fun d hd => (takes_left form'.blank).trans (hmeets.takes d hd)⟩)
      · exact List.forall₂_map_left_iff.2 (h'.fields.imp fun f g hmeets =>
          ⟨hmeets.name, fun d hd => (takes_right form.blank).trans (hmeets.takes d hd)⟩)
    distinct := by rwa [fields_and]
    regular := by
      intro f hf d s htakes
      rcases mem_fields_and.1 hf with ⟨g, hg, rfl⟩ | ⟨g, hg, rfl⟩
      · obtain ⟨x, hx⟩ := h.regular g hg d s.1 ((takes_left form'.blank).1 htakes)
        exact ⟨_, fill_left.2 ⟨x, hx, rfl⟩⟩
      · obtain ⟨x, hx⟩ := h'.regular g hg d s.2 ((takes_right form.blank).1 htakes)
        exact ⟨_, fill_right.2 ⟨x, hx, rfl⟩⟩
    blank := by
      intro f hf
      rcases mem_fields_and.1 hf with ⟨g, hg, rfl⟩ | ⟨g, hg, rfl⟩
      · exact h.blank g hg
      · exact h'.blank g hg
    filled := by
      intro f hf d s s' hs' g hg
      have other : ∀ {m n : String} {isFilled : Bool}, m ≠ n →
          isFilled = (decide (m = n) || isFilled) := fun hne => by
        rw [decide_eq_false hne, Bool.false_or]
      rcases mem_fields_and.1 hf with ⟨f₀, hf₀, rfl⟩ | ⟨f₀, hf₀, rfl⟩ <;>
        rcases mem_fields_and.1 hg with ⟨g₀, hg₀, rfl⟩ | ⟨g₀, hg₀, rfl⟩
      · obtain ⟨x, hx, rfl⟩ := fill_left.1 hs'
        exact h.filled f₀ hf₀ d s.1 x hx g₀ hg₀
      · obtain ⟨x, hx, rfl⟩ := fill_left.1 hs'
        exact other (hdiffer f₀ hf₀ g₀ hg₀).symm
      · obtain ⟨x, hx, rfl⟩ := fill_right.1 hs'
        exact other (hdiffer g₀ hg₀ f₀ hf₀)
      · obtain ⟨x, hx, rfl⟩ := fill_right.1 hs'
        exact h'.filled f₀ hf₀ d s.2 x hx g₀ hg₀
    complete := by
      intro s
      rw [isSome_complete_and, h.complete, h'.complete]
      constructor
      · rintro ⟨hleft, hright⟩ f hf
        rcases mem_fields_and.1 hf with ⟨g, hg, rfl⟩ | ⟨g, hg, rfl⟩
        · exact hleft g hg
        · exact hright g hg
      · intro hall
        exact ⟨fun f hf => hall (left f) (mem_fields_and.2 (.inl ⟨f, hf, rfl⟩)),
          fun f hf => hall (right f) (mem_fields_and.2 (.inr ⟨f, hf, rfl⟩))⟩ }

end And

end Form

/-! ## Single values -/

theorem Draft.exists_readText {d : Draft} :
    (∃ s, d.readText = .ok s) ↔ ∃ s, d = .text (some s) := by
  cases d with
  | text s => cases s <;> simp [readText]
  | broken | null | bool | number | list | record => simp [readText]

theorem Draft.exists_readBool {d : Draft} : (∃ b, d.readBool = .ok b) ↔ ∃ b, d = .bool b := by
  cases d <;> simp [readBool]

theorem exists_mapM {read : Draft → Except Misread α} {items : List Draft} :
    (∃ l, items.mapM read = .ok l) ↔ ∀ d ∈ items, ∃ a, read d = .ok a := by
  induction items with
  | nil => simp [pure, Except.pure]
  | cons d items ih =>
      rw [List.forall_mem_cons, ← ih, List.mapM_cons]
      cases read d <;> cases items.mapM read <;> simp [bind, Except.bind, pure, Except.pure]

/-- A list is read if each of its items is. -/
theorem Draft.exists_readList {read : Draft → Except Misread α} {isMet : Draft → Prop}
    (hread : ∀ d, IsWhole d → ((∃ a, read d = .ok a) ↔ isMet d)) {d : Draft} (hd : IsWhole d) :
    (∃ l, d.readList read = .ok l) ↔ ∃ items, d = .list items true ∧ ∀ e ∈ items, isMet e := by
  cases d with
  | list items isClosed =>
      obtain ⟨rfl, hitems⟩ := hd.items
      have hmapM : (∃ l, (Draft.list items true).readList read = .ok l) ↔
          ∃ l, items.mapM read = .ok l := by
        rw [readList]
        cases items.mapM read <;> simp [bind, Except.bind]
      rw [hmapM, exists_mapM, forall₂_congr fun e he => hread e (hitems e he)]
      simp
  | broken | null | bool | number | text | record => simp [readList]

end Json

end ReviewDesk
