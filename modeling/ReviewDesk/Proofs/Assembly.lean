import ReviewDesk.Operation

/-!
# What work at the desk is assembled from

An operation touches the store by a handful of questions and statements only.  The rest is
draws, answers and failures, put one behind another or within a transaction.  This file
says so of every operation and of everything that operations are made of.

A proof about all of them then has one case for each piece, and knows nothing of
operations.  Here such proofs compare two stores.  A relation is a *likeness* if like
stores give the same answer to every question, and become like stores, or refuse alike,
at every statement.  Then no work can tell like stores apart, whatever it fails with and
wherever it stops.

* `Operation.assembled` — every operation is assembled from the pieces;
* `Assembled.endsAlike` — work at like stores ends alike;
* `Assembled.keeps` — what statements keep, work keeps, also where it stops halfway.
-/

namespace ReviewDesk

/-! ## Pieces -/

namespace Store

/-- The questions that are asked of a store. -/
inductive IsQuestion : {α : Type} → (Store → Except Fault α) → Prop
  | hasTeam (name : TeamName) : IsQuestion (·.hasTeam name)
  | findUser (id : UserId) : IsQuestion (·.findUser id)
  | usersOf (team : TeamName) : IsQuestion (·.usersOf team)
  | activeUsersOf (team : TeamName) : IsQuestion (·.activeUsersOf team)
  | activeMembers (team : TeamName) : IsQuestion (·.activeMembers team)
  | pools : IsQuestion (·.pools)
  | findPull (id : PullId) : IsQuestion (·.findPull id)
  | reviewersOf (pull : PullId) : IsQuestion (·.reviewersOf pull)
  | reviewedBy (user : UserId) : IsQuestion (·.reviewedBy user)
  | affectedBy (users : Ascending UserId) : IsQuestion (·.affectedBy users)
  | stats : IsQuestion (·.stats)

/-- The statements that change a store. -/
inductive IsStatement : (Store → Except Fault Store) → Prop
  | insert (row : Row) : IsStatement (·.insert row)
  | upsertUser (u : User) : IsStatement (·.upsertUser u)
  | delete (key : Key) : IsStatement (·.delete key)
  | setActive (chosen : UserId → Bool) (isActive : Bool) : IsStatement (·.setActive chosen isActive)
  | setMerged (id : PullId) (now : Instant) : IsStatement (·.setMerged id now)
  | setStatus (id : PullId) (status : String) : IsStatement (·.setStatus id status)

end Store

namespace Desk

open Store

/-- Work that is put together from questions, statements and draws. -/
inductive Assembled : {α : Type} → Desk α → Prop
  | pure {α : Type} (a : α) : Assembled (pure a : Desk α)
  | throw {α : Type} (f : Failure) : Assembled (throw f : Desk α)
  | bind {α β : Type} {work : Desk α} {next : α → Desk β} (first : Assembled work)
      (later : ∀ a, Assembled (next a)) : Assembled (work >>= next)
  | map {α β : Type} {work : Desk α} (g : α → β) (first : Assembled work) : Assembled (g <$> work)
  | ask {α : Type} {question : Store → Except Fault α} (h : IsQuestion question) :
      Assembled (ask question)
  | change {statement : Store → Except Fault Store} (clash : Failure) (h : IsStatement statement) :
      Assembled (changeUnless clash statement)
  | insertAll (clash : Failure) (rows : List Row) :
      Assembled (changeUnless clash (·.insertAll rows))
  | draw {α : Type} (chance : Words → α × Words) : Assembled (draw chance)
  | transaction {α : Type} {body : Desk α} (h : Assembled body) : Assembled (transaction body)

namespace Assembled

variable {α : Type}

theorem ite {c : Prop} [Decidable c] {x y : Desk α} (hx : Assembled x) (hy : Assembled y) :
    Assembled (if c then x else y) := by
  split
  · exact hx
  · exact hy

/-- Work that goes on unless it is refused. -/
theorem refuseIf {c : Prop} [Decidable c] (f : Failure) {next : PUnit → Desk α}
    (h : ∀ u, Assembled (next u)) :
    Assembled (if c then MonadExcept.throw f >>= next else next ⟨⟩) :=
  ite ((throw f).bind h) (h ⟨⟩)

theorem refuseUnless {c : Prop} [Decidable c] (f : Failure) {next : PUnit → Desk α}
    (h : ∀ u, Assembled (next u)) :
    Assembled (if c then next ⟨⟩ else MonadExcept.throw f >>= next) :=
  ite (h ⟨⟩) ((throw f).bind h)

theorem orFail (cause : Failure) (x : Option α) : Assembled (Desk.orFail cause x) := by
  cases x with
  | none => exact .throw cause
  | some a => exact .pure a

theorem forM {work : α → Desk PUnit} (h : ∀ a, Assembled (work a)) (l : List α) :
    Assembled (l.forM work) := by
  induction l with
  | nil => exact .pure _
  | cons a rest ih => exact (h a).bind fun _ => ih

/-! ## Work -/

theorem loadTeam (name : TeamName) : Assembled (Desk.loadTeam name) :=
  (ask (.usersOf name)).bind fun _ => .pure _

theorem addTeam (name : TeamName) : Assembled (Desk.addTeam name) :=
  .change .teamExists (.insert (.team name))

theorem createTeam (name : TeamName) (members : List Member) :
    Assembled (Desk.createTeam name members) := by
  have hrequire : Assembled (Desk.requireNewTeam name) :=
    (ask (.hasTeam name)).bind fun _ => ite (.throw _) (.pure _)
  have hmembers : Assembled (members.forM fun m => Desk.change (·.upsertUser (m.user name))) := by
    refine forM (fun m => ?_) members
    exact .change .internal (.upsertUser (m.user name))
  have hfill : Assembled (Desk.fillTeam name members) :=
    (addTeam name).bind fun _ => hmembers.bind fun _ => loadTeam name
  exact .transaction (hrequire.bind fun _ => hfill)

theorem getTeam (name : TeamName) : Assembled (Desk.getTeam name) := by
  refine (ask (.hasTeam name)).bind fun _ => ?_
  exact refuseUnless .teamNotFound fun _ => loadTeam name

theorem setActive (id : UserId) (isActive : Bool) : Assembled (Desk.setActive id isActive) := by
  refine (ask (.findUser id)).bind fun user? => (orFail .userNotFound user?).bind fun _ => ?_
  refine ite ?_ (.pure _)
  exact (change .internal (.setActive (· = id) isActive)).bind fun _ => .pure _

theorem loadPull (id : PullId) : Assembled (Desk.loadPull id) := by
  refine (ask (.findPull id)).bind fun pull? => ?_
  cases pull? with
  | none => exact .pure _
  | some pull => exact (ask (.reviewersOf id)).bind fun _ => .pure _

theorem showPull (id : PullId) :
    Assembled (Desk.loadPull id >>= Desk.orFail .pullNotFound) :=
  (loadPull id).bind fun pull? => orFail .pullNotFound pull?

theorem addPull (p : StoredPull) : Assembled (Desk.addPull p) :=
  .change .pullExists (.insert (.pull p))

theorem addReviewers (id : PullId) (reviewers : List UserId) :
    Assembled (Desk.addReviewers id reviewers) :=
  ite (.pure _) (.insertAll .internal _)

theorem swapReviewer (id : PullId) (old : UserId) (new : Option UserId) :
    Assembled (Desk.swapReviewer id old new) := by
  refine (change .internal (.delete (.review ⟨id, old⟩))).bind fun _ => ?_
  cases new with
  | none => exact .pure _
  | some user => exact .change .internal (.insert (.review ⟨id, user⟩))

theorem createPull (now : Instant) (id : PullId) (name : String) (author : UserId) :
    Assembled (Desk.createPull now id name author) := by
  have hrequire : Assembled (Desk.requireNewPull id) :=
    (ask (.findPull id)).bind fun _ => ite (.throw _) (.pure _)
  refine .transaction (hrequire.bind fun _ => ?_)
  refine (ask (.findUser author)).bind fun user? => (orFail .authorNotFound user?).bind fun _ => ?_
  refine (ask (.activeMembers _)).bind fun _ => (draw _).bind fun reviewers => ?_
  exact (addPull _).bind fun _ => (addReviewers id reviewers).bind fun _ => showPull id

theorem mergePull (now : Instant) (id : PullId) : Assembled (Desk.mergePull now id) := by
  refine .transaction ((ask (.findPull id)).bind fun pull? => ?_)
  refine (orFail .pullNotFound pull?).bind fun _ => ite ?_ (showPull id)
  exact (change .internal (.setMerged id now)).bind fun _ => showPull id

theorem reassign (id : PullId) (old : UserId) : Assembled (Desk.reassign id old) := by
  refine .transaction ((ask (.findPull id)).bind fun pull? => ?_)
  refine (orFail .pullNotFound pull?).bind fun _ => refuseIf .pullMerged fun _ => ?_
  refine (ask (.reviewersOf id)).bind fun _ => refuseIf .notAssigned fun _ => ?_
  refine (ask (.findUser old)).bind fun user? => (orFail .userNotFound user?).bind fun _ => ?_
  refine (ask (.activeMembers _)).bind fun _ => (draw _).bind fun new? => ?_
  refine (orFail .noCandidate new?).bind fun new => (swapReviewer id old (some new)).bind ?_
  intro _
  exact (loadPull id).bind fun pull? => (orFail .pullNotFound pull?).bind fun _ => .pure _

theorem repair (teamsOf : Keyed UserId TeamName) (stale : Ascending UserId)
    (affected : Keyed PullId Affected) : Assembled (Desk.repair teamsOf stale affected) := by
  refine ite (.pure _) ((ask .pools).bind fun _ => (draw _).bind fun plan => ?_)
  exact (forM (fun r => swapReviewer r.pull r.old r.replacement) plan).bind fun _ => .pure _

theorem deactivateHere (team : TeamName) : Assembled (Desk.deactivateHere team) := by
  refine (ask (.hasTeam team)).bind fun _ => refuseUnless .teamNotFound fun _ => ?_
  refine (ask (.activeUsersOf team)).bind fun members => ite (.pure _) ?_
  let deactivated := (teamsById members).keys
  refine (change .internal (.setActive (· ∈ deactivated) false)).bind fun _ => ?_
  refine (ask (.affectedBy deactivated)).bind fun affected => ?_
  exact (repair (teamsById members) deactivated affected).bind fun _ => .pure _

end Assembled

end Desk

open Desk in
/-- Every operation is put together from questions, statements and draws. -/
theorem Operation.assembled (now : Instant) (op : Operation) : Assembled (op.run now) := by
  cases op with
  | createTeam name members => exact (Assembled.createTeam name members).map _
  | getTeam name => exact (Assembled.getTeam name).map _
  | setActive user isActive => exact (Assembled.setActive user isActive).map _
  | reviewsOf user => exact (Assembled.ask (.reviewedBy user)).map _
  | createPull id name author => exact (Assembled.createPull now id name author).map _
  | mergePull id => exact (Assembled.mergePull now id).map _
  | reassign id old => exact (Assembled.reassign id old).map _
  | deactivate team => exact (Assembled.transaction (.deactivateHere team)).map _
  | stats => exact (Assembled.ask .stats).map _

/-! ## Like stores -/

namespace Store

/-- Two stores refuse a statement for the same reason, or both become stores that are
related. -/
inductive Alike (R : Store → Store → Prop) : Except Fault Store → Except Fault Store → Prop
  | ok {s t : Store} (h : R s t) : Alike R (.ok s) (.ok t)
  | error (fault : Fault) : Alike R (.error fault) (.error fault)

/-- A relation between stores that cannot be told apart by questions and stay related at
every statement. -/
structure Likeness (R : Store → Store → Prop) : Prop where
  isOpen : ∀ {s t : Store}, R s t → s.isOpen = t.isOpen
  answers : ∀ {s t : Store}, R s t → ∀ {α : Type} {question : Store → Except Fault α},
    IsQuestion question → question s = question t
  changes : ∀ {s t : Store}, R s t → ∀ {statement : Store → Except Fault Store},
    IsStatement statement → Alike R (statement s) (statement t)

variable {R : Store → Store → Prop}

theorem Alike.refuseIf {c : Prop} [Decidable c] {fault : Fault} {x y : Except Fault Store}
    (h : Alike R x y) :
    Alike R (if c then .error fault else x) (if c then .error fault else y) := by
  split
  · exact .error fault
  · exact h

/-- Several rows go in alike, since each of them does. -/
theorem Likeness.insertAll (hR : Likeness R) (rows : List Row) {s t : Store} (h : R s t) :
    Alike R (s.insertAll rows) (t.insertAll rows) := by
  induction rows generalizing s t with
  | nil => exact .ok h
  | cons row later ih =>
      have hfirst := hR.changes h (.insert row)
      simp only [Store.insertAll, List.foldlM_cons]
      generalize s.insert row = x, t.insert row = y at hfirst ⊢
      cases hfirst with
      | ok h' => exact ih h'
      | error fault => exact .error fault

end Store

namespace Desk

open Store

variable {α : Type} {R : Store → Store → Prop}

/-- Work ends alike: with the same answer or the same failure, after the same draws, and
with stores that are related. -/
inductive EndsAlike (R : Store → Store → Prop) :
    EStateM.Result Failure Office α → EStateM.Result Failure Office α → Prop
  | ok {s t : Store} (a : α) (w : Words) (h : R s t) : EndsAlike R (.ok a ⟨s, w⟩) (.ok a ⟨t, w⟩)
  | error {s t : Store} (f : Failure) (w : Words) (h : R s t) :
      EndsAlike R (.error f ⟨s, w⟩) (.error f ⟨t, w⟩)

theorem changeUnless_endsAlike (clash : Failure) {statement : Store → Except Fault Store}
    {s t : Store} (h : Alike R (statement s) (statement t)) (hst : R s t) (w : Words) :
    EndsAlike R (changeUnless clash statement ⟨s, w⟩) (changeUnless clash statement ⟨t, w⟩) := by
  unfold changeUnless
  dsimp only
  generalize statement s = x, statement t = y at h ⊢
  cases h with
  | ok h' => exact .ok () w h'
  | error fault => exact .error _ w hst

/-- **Like stores cannot be told apart.**  Whatever is put together from questions,
statements and draws ends alike at like stores and with the same words. -/
theorem Assembled.endsAlike {work : Desk α} (h : Assembled work) (hR : Likeness R) {s t : Store}
    (hst : R s t) (w : Words) : EndsAlike R (work ⟨s, w⟩) (work ⟨t, w⟩) := by
  induction h generalizing s t w with
  | pure a => exact .ok a w hst
  | throw f => exact .error f w hst
  | @bind _ _ work next _ _ ihfirst ihlater =>
      have hfirst := ihfirst hst w
      change EndsAlike R (EStateM.bind work next ⟨s, w⟩) (EStateM.bind work next ⟨t, w⟩)
      unfold EStateM.bind
      generalize work ⟨s, w⟩ = x, work ⟨t, w⟩ = y at hfirst ⊢
      cases hfirst with
      | ok a w' h' => exact ihlater a h' w'
      | error f w' h' => exact .error f w' h'
  | @map _ _ work g _ ih =>
      have hfirst := ih hst w
      change EndsAlike R (EStateM.map g work ⟨s, w⟩) (EStateM.map g work ⟨t, w⟩)
      unfold EStateM.map
      generalize work ⟨s, w⟩ = x, work ⟨t, w⟩ = y at hfirst ⊢
      cases hfirst with
      | ok a w' h' => exact .ok (g a) w' h'
      | error f w' h' => exact .error f w' h'
  | @ask _ question hquestion =>
      unfold Desk.ask
      dsimp only
      rw [hR.answers hst hquestion]
      cases question t with
      | ok a => exact .ok a w hst
      | error fault => exact .error _ w hst
  | @change statement clash hstatement =>
      exact changeUnless_endsAlike clash (hR.changes hst hstatement) hst w
  | insertAll clash rows => exact changeUnless_endsAlike clash (hR.insertAll rows hst) hst w
  | draw chance => exact .ok _ _ hst
  | @transaction _ body _ ih =>
      have hbody := ih hst w
      unfold Desk.transaction
      dsimp only
      rw [hR.isOpen hst]
      split
      · generalize body ⟨s, w⟩ = x, body ⟨t, w⟩ = y at hbody ⊢
        cases hbody with
        | ok a w' h' => exact .ok a w' h'
        -- what failed is taken back, so these are the stores from before
        | error f w' h' => exact .error f w' hst
      · exact .error _ w hst

/-- What every statement keeps is kept by work, whether it answers or stops halfway. -/
theorem Assembled.keeps {work : Desk α} (h : Assembled work) {P : Store → Prop}
    (step : ∀ {statement : Store → Except Fault Store}, IsStatement statement →
      ∀ {s s' : Store}, statement s = .ok s' → P s → P s') {o : Office} (ho : P o.store) :
    (∀ a o', work o = .ok a o' → P o'.store) ∧ ∀ f o', work o = .error f o' → P o'.store := by
  -- a store with the property is like itself
  have hlike : Likeness fun s t => s = t ∧ P s := {
    isOpen := fun h => congrArg _ h.1
    answers := fun h _ _ _ => congrArg _ h.1
    changes := fun {s t} h statement hstatement => by
      obtain ⟨rfl, hs⟩ := h
      cases hs' : statement s with
      | ok s' => exact .ok ⟨rfl, step hstatement hs' hs⟩
      | error fault => exact .error fault }
  have hends := h.endsAlike hlike ⟨rfl, ho⟩ o.words
  constructor
  · intro a o' hrun
    rw [hrun] at hends
    cases hends with
    | ok a w h' => exact h'.2
  · intro f o' hrun
    rw [hrun] at hends
    cases hends with
    | error f w h' => exact h'.2

end Desk

end ReviewDesk
