import ReviewDesk.Desk

/-!
# Counts

How many rows there are of each kind, how many reviews each user has and how
many reviewers each pull request, the largest counts first and equal counts by
id.  Whoever has none is listed with none.

The counts of reviews come from the table joined with the reviews that belong
to its rows, grouped by id and name.
-/

namespace ReviewDesk

/-- How often an id occurs, with the name that belongs to it. -/
structure Tally where
  id : String
  name : String
  count : Nat
deriving DecidableEq, Repr

namespace Tally

/-- Larger counts come first, equal counts by id. -/
def isListedBefore (s t : Tally) : Bool := t.count < s.count ∨ s.count = t.count ∧ s.id < t.id

/-- A tally in an answer, under the given names. -/
def toJson (id name count : String) (t : Tally) : Json :=
  .record [(id, .text t.id), (name, .text t.name), (count, .int t.count)]

end Tally

/-- The counts of a store. -/
structure Stats where
  teams : Nat
  users : Nat
  pulls : Nat
  opened : Nat
  merged : Nat
  /-- The reviews of each user. -/
  byUser : List Tally
  /-- The reviewers of each pull request. -/
  byPull : List Tally
deriving DecidableEq, Repr

namespace Stats

/-- The counts in an answer. -/
def toJson (s : Stats) : Json :=
  .record [("total_teams", .int s.teams), ("total_users", .int s.users),
    ("total_prs", .int s.pulls), ("open_prs", .int s.opened), ("merged_prs", .int s.merged),
    ("assignments_by_user", .list (s.byUser.map (Tally.toJson "user_id" "username"
      "total_assignments"))),
    ("reviewers_by_pr", .list (s.byPull.map (Tally.toJson "pull_request_id" "pull_request_name"
      "reviewer_count")))]

end Stats

namespace Store

/-- How many reviews a user has. -/
def reviewCount (s : Store) (user : UserId) : Nat := s.reviews.countP (·.user = user)

/-- How many reviewers a pull request has. -/
def reviewerCount (s : Store) (pull : PullId) : Nat := s.reviews.countP (·.pull = pull)

/-- The tallies of a table: its rows joined with the reviews that belong to them,
grouped by id and name, and counted. -/
def talliesOf {α : Type} (s : Store) (rows : List α) (label : α → String × String)
    (belongs : α → Review → Bool) : List Tally :=
  let joined := leftJoin rows s.reviews belongs
  let groups := countByLabel (joined.map fun e => (label e.1, e.2))
  arrange Tally.isListedBefore (groups.map fun g => ⟨g.1.1, g.1.2, g.2⟩)

/-- The counts of the store; every table is needed. -/
def stats (s : Store) : Except Fault Stats :=
  s.reading .teams <| s.reading .users <| s.reading .pulls <| s.reading .reviews <| .ok {
    teams := s.teams.length
    users := s.users.length
    pulls := s.pulls.length
    opened := s.pulls.countP (·.status = Status.opened.text)
    merged := s.pulls.countP (·.status = Status.merged.text)
    byUser := s.talliesOf s.users (fun u => (u.id, u.name)) fun u r => r.user = u.id
    byPull := s.talliesOf s.pulls (fun p => (p.id, p.name)) fun p r => r.pull = p.id }

end Store

namespace Desk

/-- Counts what the store holds. -/
def stats : Desk Stats := ask (·.stats)

end Desk

end ReviewDesk
