import ReviewDesk.Store.Read

/-!
# Views of a whole store

A store can be shown row by row, each table by its primary key, and through
its references, each from both of its sides.  A table that cannot be read is
shown as null; the references are shown only if every table can be read.
-/

namespace ReviewDesk

namespace Pull

/-- A pull request row. -/
def row (p : Pull) : Json :=
  .record [("id", .text p.id), ("name", .text p.name), ("author", .text p.author),
    ("status", p.status.toJson), ("createdAt", .time p.createdAt),
    ("mergedAt", (p.mergedAt.map Json.time).getD .null)]

end Pull

namespace Json

/-- A list of texts. -/
def texts (l : List String) : Json := .list (l.map .text)

/-- A text, or null. -/
def textOrNull : Option String → Json
  | some s => .text s
  | none => .null

end Json

namespace Store

/-- A list of rows, or null if they cannot be read. -/
def shown {α : Type} (rows : Except Fault (List α)) (toJson : α → Json) : Json :=
  match rows with
  | .ok l => .list (l.map toJson)
  | .error _ => .null

/-- Reviews by pull request, then by user. -/
def isReviewBefore (r t : Review) : Bool := r.pull < t.pull ∨ r.pull = t.pull ∧ r.user < t.user

/-- The teams by name. -/
def teamRows (s : Store) : Except Fault (List TeamName) :=
  s.reading .teams (.ok (arrange (· < ·) s.teams))

/-- The users by id. -/
def userRows (s : Store) : Except Fault (List User) :=
  s.reading .users (.ok (arrange (·.id < ·.id) s.users))

/-- The pull requests by id. -/
def pullRows (s : Store) : Except Fault (List Pull) :=
  s.reading .pulls (readPulls (arrange (·.id < ·.id) s.pulls))

/-- The reviews by pull request and user. -/
def reviewRows (s : Store) : Except Fault (List Review) :=
  s.reading .reviews (.ok (arrange isReviewBefore s.reviews))

/-- All rows of the store. -/
def dump (s : Store) : Json :=
  .record [
    ("teams", shown s.teamRows .text),
    ("users", shown s.userRows fun u =>
      .list [.text u.id, .text u.name, .text u.team, .bool u.isActive]),
    ("prs", shown s.pullRows Pull.row),
    ("reviews", shown s.reviewRows fun r => .list [.text r.pull, .text r.user])]

/-- All references of the store, from both sides. -/
def relations (s : Store) : Except Fault Json := do
  let teams ← s.teamRows
  let users ← s.userRows
  let pulls ← s.pullRows
  let reviews ← s.reviewRows
  let userName (id : UserId) : Json :=
    Json.textOrNull ((users.find? (·.id = id)).map (·.name))
  let pullName (id : PullId) : Json :=
    Json.textOrNull ((pulls.find? (·.id = id)).map (·.name))
  return .record [
    ("team_users", .list (teams.map fun t =>
      .list [.text t, Json.texts ((users.filter (·.team = t)).map (·.id))])),
    ("user_team", .list (users.map fun u =>
      .list [.text u.id, Json.textOrNull (teams.find? (· = u.team))])),
    ("user_reviews", .list (users.map fun u =>
      .list [.text u.id, Json.texts ((reviews.filter (·.user = u.id)).map (·.pull))])),
    ("pr_author", .list (pulls.map fun p => .list [.text p.id, userName p.author])),
    ("pr_reviews", .list (pulls.map fun p =>
      .list [.text p.id, Json.texts ((reviews.filter (·.pull = p.id)).map (·.user))])),
    ("review_pr", .list (reviews.map fun r => .list [.text r.pull, .text r.user, pullName r.pull])),
    ("review_user", .list (reviews.map fun r =>
      .list [.text r.pull, .text r.user, userName r.user]))]

end Store

end ReviewDesk
