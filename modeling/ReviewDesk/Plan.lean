import ReviewDesk.Draw.Pick
import ReviewDesk.Keyed
import ReviewDesk.Names

/-!
# Repair plans

When reviewers go stale, every slot they hold is given to somebody else or
dropped.  A plan lists these decisions: pull requests in the order of their
ids, and within each the stale reviewers in the order of theirs.

A slot is filled from the pool of the stale reviewer's own team.  Whoever
reviews the pull request at that moment is excluded, earlier replacements
included, and so is its author; but a pool is not used up, so one user may
come to cover several pull requests.

Teams and pools are looked up in maps, and either may be missing there.

* `candidates_eq_getD`, `candidates_eq_empty` — whom the maps offer for a slot;
* `map_slot_repairSlots` — within a pull request every stale reviewer gets
  exactly one record, in the order given.
-/

namespace ReviewDesk

/-- What a plan has to know of a pull request. -/
structure Affected where
  author : UserId
  reviewers : Ascending UserId
deriving DecidableEq

/-- What became of one reviewer slot. -/
structure Reassignment where
  pull : PullId
  /-- The reviewer who held the slot. -/
  old : UserId
  /-- Who holds it now; nobody if the slot was dropped. -/
  replacement : Option UserId
deriving DecidableEq, Repr

namespace Plan

/-- The reviewers after `old` left and `replacement` came. -/
def settle (live : Ascending UserId) (old : UserId) : Option UserId → Ascending UserId
  | some new => (live.erase old).insert new
  | none => live.erase old

variable (teamsOf : Keyed UserId TeamName) (pools : Keyed TeamName (Ascending UserId))

/-- The candidates for the slot of `old`: the pool of that user's own team.  A
user without a team has no candidates, and neither has a team without a pool. -/
def candidates (old : UserId) : Ascending UserId := ((teamsOf.get? old).bind pools.get?).getD ∅

variable {teamsOf pools} in
theorem candidates_eq_getD {old : UserId} {team : TeamName} (h : teamsOf.get? old = some team) :
    candidates teamsOf pools old = pools.getD team ∅ := by
  rw [candidates, h]
  rfl

variable {teamsOf} in
theorem candidates_eq_empty {old : UserId} (h : teamsOf.get? old = none) :
    candidates teamsOf pools old = ∅ := by
  rw [candidates, h]
  rfl

/-- Fills or drops the slots of the listed reviewers of one pull request, whose
reviewers are `live` before the first of them. -/
def repairSlots (pull : PullId) (author : UserId) :
    List UserId → Ascending UserId → Words → List Reassignment × Words
  | [], _, w => ([], w)
  | old :: others, live, w =>
    let drawn := w.pickOne (candidates teamsOf pools old) (live.insert author)
    let rest := repairSlots pull author others (settle live old drawn.1) drawn.2
    (⟨pull, old, drawn.1⟩ :: rest.1, rest.2)

/-- Repairs the listed pull requests one after the other. -/
def repairAll (stale : Ascending UserId) :
    List (PullId × Affected) → Words → List Reassignment × Words
  | [], w => ([], w)
  | (pull, a) :: others, w =>
    let slots := repairSlots teamsOf pools pull a.author (a.reviewers.inter stale).toList
      a.reviewers w
    let rest := repairAll stale others slots.2
    (slots.1 ++ rest.1, rest.2)

/-- Every stale reviewer of a pull request gets one record, in order. -/
theorem map_slot_repairSlots (pull : PullId) (author : UserId) (olds : List UserId)
    (live : Ascending UserId) (w : Words) :
    (repairSlots teamsOf pools pull author olds live w).1.map (fun r => (r.pull, r.old))
      = olds.map (pull, ·) := by
  induction olds generalizing live w with
  | nil => rfl
  | cons old others ih => simp [repairSlots, ih]

end Plan

/-- Decides, for every affected pull request, what becomes of the slots that
stale reviewers hold. -/
def planReassignments (teamsOf : Keyed UserId TeamName) (pools : Keyed TeamName (Ascending UserId))
    (stale : Ascending UserId) (affected : Keyed PullId Affected) (w : Words) :
    List Reassignment × Words :=
  Plan.repairAll teamsOf pools stale affected.toList w

end ReviewDesk
