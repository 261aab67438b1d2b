import ReviewDesk.Desk

/-!
# Taking work at the desk apart

Work at the desk is put together from a few pieces: questions to the store,
changes of it, draws, and values that have to be there.  This file says of each
piece when it answers, when it fails, and how it leaves the office.  A proof
about an operation reads the answer backwards through these statements and
never opens a piece again.

* `bind_eq_ok`, `bind_eq_error` — how work in two parts ends;
* `ask_bind_eq_ok`, `orFail_bind_eq_ok`, `draw_bind_eq_ok`,
  `changeUnless_bind_eq_ok` — the same with a single piece in front;
* `transaction_eq_ok` — a transaction that answers is its body.
-/

namespace ReviewDesk

namespace Desk

variable {α β : Type} {o o' : Office} {f : Failure}

/-! ## Answers -/

theorem pure_eq_ok {a b : α} : (pure a : Desk α) o = .ok b o' ↔ a = b ∧ o = o' := by
  constructor
  · intro h
    cases h
    exact ⟨rfl, rfl⟩
  · intro h
    obtain ⟨rfl, rfl⟩ := h
    rfl

theorem throw_eq_ok {b : α} : (throw f : Desk α) o = .ok b o' ↔ False := by
  change EStateM.Result.error f o = .ok b o' ↔ False
  simp

/-- Work in two parts answers if both parts do. -/
theorem bind_eq_ok {work : Desk α} {next : α → Desk β} {b : β} :
    (work >>= next) o = .ok b o' ↔ ∃ a o₁, work o = .ok a o₁ ∧ next a o₁ = .ok b o' := by
  change EStateM.bind work next o = _ ↔ _
  unfold EStateM.bind
  cases work o with
  | ok a o₁ =>
      constructor
      · intro h
        exact ⟨a, o₁, rfl, h⟩
      · intro h
        obtain ⟨_, _, ⟨⟩, h⟩ := h
        exact h
  | error g o₁ => simp

theorem map_eq_ok {work : Desk α} {g : α → β} {b : β} :
    (g <$> work) o = .ok b o' ↔ ∃ a, work o = .ok a o' ∧ g a = b := by
  change EStateM.map g work o = _ ↔ _
  unfold EStateM.map
  cases work o with
  | ok a o₁ =>
      constructor
      · intro h
        cases h
        exact ⟨a, rfl, rfl⟩
      · intro h
        obtain ⟨_, ⟨⟩, rfl⟩ := h
        rfl
  | error g o₁ => simp

theorem ite_eq_ok {c : Prop} [Decidable c] {x y : Desk α} {b : α} :
    (if c then x else y) o = .ok b o' ↔ (c ∧ x o = .ok b o') ∨ (¬ c ∧ y o = .ok b o') := by
  by_cases hc : c <;> simp [hc]

theorem ask_eq_ok {question : Store → Except Fault α} {a : α} :
    ask question o = .ok a o' ↔ question o.store = .ok a ∧ o = o' := by
  unfold ask
  split <;> simp_all

theorem changeUnless_eq_ok {clash : Failure} {statement : Store → Except Fault Store} {u : Unit} :
    changeUnless clash statement o = .ok u o' ↔
      ∃ s, statement o.store = .ok s ∧ { o with store := s } = o' := by
  unfold changeUnless
  split <;> simp_all

theorem orFail_eq_ok {x : Option α} {a : α} :
    orFail f x o = .ok a o' ↔ x = some a ∧ o = o' := by
  cases x with
  | none => simp [orFail, throw_eq_ok]
  | some b => simp [orFail, pure_eq_ok]

/-- A transaction answers if the store is open and its body answers, and then
it leaves the office as the body does. -/
theorem transaction_eq_ok {body : Desk α} {a : α} :
    transaction body o = .ok a o' ↔ o.store.isOpen = true ∧ body o = .ok a o' := by
  unfold transaction
  split
  · split <;> simp_all
  · simp_all

theorem throw_bind_eq_ok {next : α → Desk β} {b : β} :
    ((throw f : Desk α) >>= next) o = .ok b o' ↔ False := by
  simp [bind_eq_ok, throw_eq_ok]

theorem ask_bind_eq_ok {question : Store → Except Fault α} {next : α → Desk β} {b : β} :
    (ask question >>= next) o = .ok b o' ↔
      ∃ a, question o.store = .ok a ∧ next a o = .ok b o' := by
  simp [bind_eq_ok, ask_eq_ok, and_assoc]

theorem orFail_bind_eq_ok {x : Option α} {next : α → Desk β} {b : β} :
    (orFail f x >>= next) o = .ok b o' ↔ ∃ a, x = some a ∧ next a o = .ok b o' := by
  simp [bind_eq_ok, orFail_eq_ok, and_assoc]

theorem draw_bind_eq_ok {chance : Words → α × Words} {next : α → Desk β} {b : β} :
    (draw chance >>= next) o = .ok b o' ↔
      next (chance o.words).1 { o with words := (chance o.words).2 } = .ok b o' := by
  simp [bind_eq_ok, draw, and_assoc]

theorem changeUnless_bind_eq_ok {clash : Failure} {statement : Store → Except Fault Store}
    {next : Unit → Desk β} {b : β} :
    (changeUnless clash statement >>= next) o = .ok b o' ↔
      ∃ s, statement o.store = .ok s ∧ next () { o with store := s } = .ok b o' := by
  constructor
  · intro h
    obtain ⟨_, o₁, h₁, h₂⟩ := bind_eq_ok.1 h
    obtain ⟨s, hs, rfl⟩ := changeUnless_eq_ok.1 h₁
    exact ⟨s, hs, h₂⟩
  · intro h
    obtain ⟨s, hs, h⟩ := h
    exact bind_eq_ok.2 ⟨(), _, changeUnless_eq_ok.2 ⟨s, hs, rfl⟩, h⟩

/-! ## Going on -/

/-- With its answer at hand a question is passed over. -/
theorem ask_bind {question : Store → Except Fault α} {next : α → Desk β} {a : α}
    (h : question o.store = .ok a) : (ask question >>= next) o = next a o := by
  change EStateM.bind (ask question) next o = _
  simp only [EStateM.bind, ask, h]

theorem orFail_some_bind {a : α} {next : α → Desk β} :
    (orFail f (some a) >>= next) o = next a o := rfl

/-- A transaction depends only on what its body does to the office. -/
theorem transaction_congr {body body' : Desk α} (h : body o = body' o) :
    transaction body o = transaction body' o := by
  rw [transaction, transaction, h]

/-! ## Failures -/

theorem pure_eq_error {a : α} : (pure a : Desk α) o = .error f o' ↔ False := by
  simp [pure, EStateM.pure]

theorem throw_eq_error {g : Failure} :
    (throw g : Desk α) o = .error f o' ↔ g = f ∧ o = o' := by
  change EStateM.Result.error g o = .error f o' ↔ _
  simp

/-- Work in two parts fails with its first part, or with its second one behind
an answer of the first. -/
theorem bind_eq_error {work : Desk α} {next : α → Desk β} :
    (work >>= next) o = .error f o' ↔
      work o = .error f o' ∨ ∃ a o₁, work o = .ok a o₁ ∧ next a o₁ = .error f o' := by
  change EStateM.bind work next o = _ ↔ _
  unfold EStateM.bind
  cases work o with
  | ok a o₁ =>
      constructor
      · intro h
        exact .inr ⟨a, o₁, rfl, h⟩
      · intro h
        rcases h with h | ⟨_, _, ⟨⟩, h⟩
        · cases h
        · exact h
  | error g o₁ => simp

theorem map_eq_error {work : Desk α} {g : α → β} :
    (g <$> work) o = .error f o' ↔ work o = .error f o' := by
  change EStateM.map g work o = _ ↔ _
  unfold EStateM.map
  cases work o <;> simp

theorem ite_eq_error {c : Prop} [Decidable c] {x y : Desk α} :
    (if c then x else y) o = .error f o' ↔
      (c ∧ x o = .error f o') ∨ (¬ c ∧ y o = .error f o') := by
  by_cases hc : c <;> simp [hc]

theorem ask_eq_error {question : Store → Except Fault α} :
    ask question o = .error f o' ↔
      ∃ fault, question o.store = .error fault ∧ fault.cause .internal = f ∧ o = o' := by
  unfold ask
  split <;> simp_all

theorem changeUnless_eq_error {clash : Failure} {statement : Store → Except Fault Store} :
    changeUnless clash statement o = .error f o' ↔
      ∃ fault, statement o.store = .error fault ∧ fault.cause clash = f ∧ o = o' := by
  unfold changeUnless
  split <;> simp_all

theorem orFail_eq_error {cause : Failure} {x : Option α} :
    orFail cause x o = .error f o' ↔ x = none ∧ cause = f ∧ o = o' := by
  cases x with
  | none => simp [orFail, throw_eq_error]
  | some b => simp [orFail, pure_eq_error]

theorem ask_bind_eq_error {question : Store → Except Fault α} {next : α → Desk β} :
    (ask question >>= next) o = .error f o' ↔
      (∃ fault, question o.store = .error fault ∧ fault.cause .internal = f ∧ o = o') ∨
        ∃ a, question o.store = .ok a ∧ next a o = .error f o' := by
  simp [bind_eq_error, ask_eq_error, ask_eq_ok, and_assoc]

theorem orFail_bind_eq_error {cause : Failure} {x : Option α} {next : α → Desk β} :
    (orFail cause x >>= next) o = .error f o' ↔
      (x = none ∧ cause = f ∧ o = o') ∨ ∃ a, x = some a ∧ next a o = .error f o' := by
  simp [bind_eq_error, orFail_eq_error, orFail_eq_ok, and_assoc]

theorem draw_bind_eq_error {chance : Words → α × Words} {next : α → Desk β} :
    (draw chance >>= next) o = .error f o' ↔
      next (chance o.words).1 { o with words := (chance o.words).2 } = .error f o' := by
  simp [bind_eq_error, draw, and_assoc]

theorem throw_bind_eq_error {g : Failure} {next : α → Desk β} :
    ((throw g : Desk α) >>= next) o = .error f o' ↔ g = f ∧ o = o' := by
  simp [bind_eq_error, throw_eq_error, throw_eq_ok]

/-- A transaction whose body fails at once fails alike. -/
theorem transaction_of_error {body : Desk α} (hopen : o.store.isOpen = true)
    (h : body o = .error f o) : transaction body o = .error f o := by
  rw [transaction, if_pos hopen, h]

end Desk

end ReviewDesk
