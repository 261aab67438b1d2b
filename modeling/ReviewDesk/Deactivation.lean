import ReviewDesk.Plan
import ReviewDesk.Pulls

/-!
# Deactivating a team

All active members of a team are switched off at once.  Then the open pull
requests that they review are repaired: the replacements are planned from the
users who are active after the switch, and every slot is filled or dropped as
planned.  Merged pull requests keep their reviewers.

What a plan needs is read in steps, and a step that finds nothing ends the
reading: without reviews by the members no pull request is read, and without
open ones among these neither their reviewers nor the pools are.
-/

namespace ReviewDesk

/-- What a deactivation did. -/
structure Deactivation where
  /-- The users it switched off. -/
  deactivated : Ascending UserId
  /-- What became of their reviewer slots. -/
  reassignments : List Reassignment
deriving DecidableEq

namespace Reassignment

/-- A reassignment in an answer; a dropped slot has an empty replacement. -/
def toJson (r : Reassignment) : Json :=
  .record [("pr_id", .text r.pull), ("old", .text r.old), ("new", .text (r.replacement.getD ""))]

end Reassignment

namespace Deactivation

/-- A deactivation in an answer. -/
def toJson (d : Deactivation) : Json :=
  .record [("deactivated_users", .list (d.deactivated.toList.map .text)),
    ("reassignments", .list (d.reassignments.map Reassignment.toJson))]

end Deactivation

/-- The teams of users, by id. -/
def teamsById (users : List User) : Keyed UserId TeamName :=
  .ofList (users.map fun u => (u.id, u.team))

theorem keys_teamsById (users : List User) :
    (teamsById users).keys = .ofList (users.map (·.id)) := by
  refine Ascending.ext fun id => ?_
  rw [teamsById, Keyed.mem_keys_ofList, Ascending.mem_ofList, List.map_map]
  rfl

/-- The pull request with one more reviewer. -/
def Affected.withReviewer (a : Affected) (user : UserId) : Affected :=
  { a with reviewers := a.reviewers.insert user }

namespace Store

/-- The open pull requests that someone of `users` reviews, each with its author
and all its reviewers.  Which these are is read from the reviews by `users`;
the reviewers are entered one review after the other. -/
def affectedBy (s : Store) (users : Ascending UserId) : Except Fault (Keyed PullId Affected) := do
  let held ← s.reading .reviews (.ok (s.reviews.filter (·.user ∈ users)))
  let ids := Ascending.ofList (held.map (·.pull))
  if ids.isEmpty then return ∅
  let opened ← s.reading .pulls (.ok (s.pulls.filter fun p =>
    p.id ∈ ids ∧ p.status = Status.opened.text))
  let affected : Keyed PullId Affected := .ofList (opened.map fun p => (p.id, ⟨p.author, ∅⟩))
  if affected.isEmpty then return affected
  let reviews ← s.reading .reviews (.ok (s.reviews.filter (·.pull ∈ affected.keys)))
  return reviews.foldl (fun affected r => affected.modify r.pull (·.withReviewer r.user)) affected

end Store

namespace Desk

/-- Fills or drops a slot as planned. -/
def carryOut (r : Reassignment) : Desk Unit := swapReviewer r.pull r.old r.replacement

/-- Plans what becomes of the slots of stale reviewers, and carries the plan out.
Where no pull request is affected there is nothing to plan. -/
def repair (teamsOf : Keyed UserId TeamName) (stale : Ascending UserId)
    (affected : Keyed PullId Affected) : Desk (List Reassignment) := do
  if affected.isEmpty then return []
  let pools ← ask (·.pools)
  let plan ← draw (planReassignments teamsOf pools stale affected)
  plan.forM carryOut
  return plan

/-- Deactivates a team within a transaction of the caller. -/
def deactivateHere (team : TeamName) : Desk Deactivation := do
  unless ← ask (·.hasTeam team) do throw .teamNotFound
  let members ← ask (·.activeUsersOf team)
  if members.isEmpty then return ⟨∅, []⟩
  let deactivated := (teamsById members).keys
  change (·.setActive (· ∈ deactivated) false)
  let affected ← ask (·.affectedBy deactivated)
  let reassignments ← repair (teamsById members) deactivated affected
  return ⟨deactivated, reassignments⟩

/-- Deactivates a team. -/
def deactivate (team : TeamName) : Desk Deactivation := transaction (deactivateHere team)

end Desk

end ReviewDesk
