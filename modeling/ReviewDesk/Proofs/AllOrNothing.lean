import ReviewDesk.Proofs.DeskSteps
import ReviewDesk.Session

/-!
# All or nothing

An operation may fail at any of its statements, and some of them come behind
others that have gone through: a member behind the new team, the reviewers
behind the new pull request, the repair behind the members that were switched
off.  Whatever the store lacks or holds, such a failure leaves no trace in it.

Most operations owe this to the transaction around them.  Setting a flag has
none; it can only fail before its one statement goes through.

* `store_of_error` — an operation that fails leaves the store as it was;
* `failure_leaves_no_trace` — the same within a block of steps, whose later
  steps go on from the store as it was before the failure.
-/

namespace ReviewDesk

namespace Desk

variable {o o' : Office} {f : Failure}

theorem getTeam_eq_error {name : TeamName} (h : getTeam name o = .error f o') : o' = o := by
  simp only [getTeam, loadTeam, ask_bind_eq_error, ite_eq_error, throw_bind_eq_error,
    pure_eq_error, and_false, exists_false, or_false] at h
  rcases h with ⟨_, -, -, rfl⟩ | ⟨_, -, ⟨-, _, -, -, rfl⟩ | ⟨-, -, rfl⟩⟩ <;> rfl

/-- The one change that sets a flag is the last thing that can fail. -/
theorem setActive_eq_error {id : UserId} {isActive : Bool}
    (h : setActive id isActive o = .error f o') : o' = o := by
  simp only [setActive, ask_bind_eq_error, orFail_bind_eq_error, ite_eq_error, pure_eq_error,
    and_false, or_false] at h
  rcases h with ⟨_, -, -, rfl⟩ | ⟨_, -, ⟨-, -, rfl⟩ | ⟨u, -, -, h⟩⟩
  · rfl
  · rfl
  · rcases bind_eq_error.1 h with h | ⟨_, o₁, -, h⟩
    · obtain ⟨_, -, -, rfl⟩ := changeUnless_eq_error.1 h
      rfl
    · exact (pure_eq_error.1 h).elim

end Desk

open Desk in
/-- **All or nothing.**  An operation that fails, with whatever cause, leaves
the store as it was. -/
theorem Operation.store_of_error {op : Operation} {now : Instant} {o o' : Office} {f : Failure}
    (h : op.run now o = .error f o') : o'.store = o.store := by
  cases op with
  | createTeam name members => exact transaction_error (map_eq_error.1 h)
  | getTeam name => rw [getTeam_eq_error (map_eq_error.1 h)]
  | setActive user isActive => rw [setActive_eq_error (map_eq_error.1 h)]
  | reviewsOf user =>
      obtain ⟨_, -, -, rfl⟩ := ask_eq_error.1 (map_eq_error.1 h)
      rfl
  | createPull id name author => exact transaction_error (map_eq_error.1 h)
  | mergePull id => exact transaction_error (map_eq_error.1 h)
  | reassign id old => exact transaction_error (map_eq_error.1 h)
  | deactivate team => exact transaction_error (map_eq_error.1 h)
  | stats =>
      obtain ⟨_, -, -, rfl⟩ := ask_eq_error.1 (map_eq_error.1 h)
      rfl

namespace Session

variable {mode : Mode} {isInBlock : Bool} {s s' : Scene}

/-- A step that is an operation and fails leaves the store of its scene alone,
within a block or not. -/
theorem store_of_failure {op : Operation} {f : Failure} {drawn : Nat} {shown : Option Json}
    (h : run mode isInBlock (.operation op) s = (.single (.failure f) drawn shown, s')) :
    s'.office.store = s.office.store := by
  have hrun : run mode isInBlock (.operation op) s =
      (.single (take mode.newId isInBlock s.now (.operation op) s.office).1
        ((take mode.newId isInBlock s.now (.operation op) s.office).2.words.taken
          - s.office.words.taken)
        (traced mode.traces (.operation op)
          (s.after (.operation op) (take mode.newId isInBlock s.now (.operation op) s.office).2)),
        s.after (.operation op) (take mode.newId isInBlock s.now (.operation op) s.office).2) := rfl
  rw [hrun, Prod.mk.injEq, Reply.single.injEq] at h
  obtain ⟨⟨hfailure, -, -⟩, rfl⟩ := h
  simp only [take, atDesk] at hfailure ⊢
  cases hop : op.run s.now s.office with
  | ok a o => simp [hop] at hfailure
  | error g o =>
      simp only [Scene.after]
      exact Operation.store_of_error hop

/-- The steps of a list are taken one after the other. -/
theorem runAll_append (before later : List Step) (s : Scene) :
    (runAll mode isInBlock (before ++ later) s).2
      = (runAll mode isInBlock later (runAll mode isInBlock before s).2).2 := by
  induction before generalizing s with
  | nil => rfl
  | cons step others ih => exact ih (run mode isInBlock step s).2

/-- **No trace.**  An operation that fails with any cause, on any store and at
any of its statements, leaves the store as it was.  If it is a step of a block,
the store within the block stays as the steps before it left it, and the block
goes on from there; so the end of a block that is kept is that of the later
steps. -/
theorem failure_leaves_no_trace (op : Operation) :
    (∀ (now : Instant) (o o' : Office) (f : Failure),
      op.run now o = .error f o' → o'.store = o.store) ∧
    ∀ (mode : Mode) (isInBlock : Bool) (before later : List Step) (s : Scene) (f : Failure)
      (drawn : Nat) (shown : Option Json) (inner : Scene),
      s.office.store.isOpen = true →
      run mode true (.operation op) (runAll mode true before s).2
        = (.single (.failure f) drawn shown, inner) →
      inner.office.store = (runAll mode true before s).2.office.store ∧
      (run mode isInBlock (.block (before ++ .operation op :: later) true) s).2
        = (runAll mode true later inner).2 := by
  refine ⟨fun now o o' f h => Operation.store_of_error h, ?_⟩
  intro mode isInBlock before later s f drawn shown inner hopen hfails
  refine ⟨store_of_failure hfails, ?_⟩
  have hblock : (run mode isInBlock (.block (before ++ .operation op :: later) true) s).2
      = (runAll mode true (before ++ .operation op :: later) s).2 := by
    simp [run, hopen]
  have hstep : (runAll mode true (.operation op :: later) (runAll mode true before s).2).2
      = (runAll mode true later inner).2 := by
    rw [runAll, hfails]
  rw [hblock, runAll_append, hstep]

end Session

/-- A scene whose store has no table but that of the teams. -/
def Scene.ofTeamsOnly : Scene := ⟨⟨{ migrated := 1 }, default⟩, .epoch⟩

namespace Session

/-- The row of the team goes in, and its members cannot be read then. -/
theorem no_trace_ofTeamsOnly :
    ∃ inner, run ⟨false, ""⟩ true (.operation (.createTeam "t" []))
        (runAll ⟨false, ""⟩ true [.addTeam "x"] .ofTeamsOnly).2
      = (.single (.failure .internal) 0 none, inner) ∧
      inner.office.store = { migrated := 1, teams := ["x"] } ∧
      (run ⟨false, ""⟩ false (.block [.addTeam "x", .operation (.createTeam "t" [])] true)
        .ofTeamsOnly).2 = inner := by
  refine ⟨_, rfl, ?_⟩
  exact (failure_leaves_no_trace (.createTeam "t" [])).2 ⟨false, ""⟩ false [.addTeam "x"] []
    .ofTeamsOnly .internal 0 none _ rfl rfl

end Session

end ReviewDesk
