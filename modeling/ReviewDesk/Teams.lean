import ReviewDesk.Desk

/-!
# Teams and their members

A team is made with its members.  A member who exists already moves to the new
team and takes the given name and flag; of two entries for one member the later
one counts.  Switching a user on or off touches neither reviews nor pull
requests.
-/

namespace ReviewDesk

/-- A member as listed in a team. -/
structure Member where
  userId : UserId
  username : String
  isActive : Bool
deriving DecidableEq, Repr

/-- A team with its members, by id. -/
structure Team where
  name : TeamName
  members : List Member
deriving DecidableEq, Repr

namespace User

/-- A user as a member of the team. -/
def member (u : User) : Member := ⟨u.id, u.name, u.isActive⟩

/-- A user in an answer. -/
def toJson (u : User) : Json :=
  .record [("user_id", .text u.id), ("username", .text u.name), ("team_name", .text u.team),
    ("is_active", .bool u.isActive)]

end User

namespace Member

/-- The user row of a member of a team. -/
def user (m : Member) (team : TeamName) : User := ⟨m.userId, m.username, team, m.isActive⟩

/-- A member in an answer. -/
def toJson (m : Member) : Json :=
  .record [("user_id", .text m.userId), ("username", .text m.username),
    ("is_active", .bool m.isActive)]

end Member

namespace Team

/-- A team in an answer. -/
def toJson (t : Team) : Json :=
  .record [("team_name", .text t.name), ("members", .list (t.members.map Member.toJson))]

end Team

namespace Desk

/-- The team of a name with its present members. -/
def loadTeam (name : TeamName) : Desk Team := do
  let users ← ask (·.usersOf name)
  return ⟨name, users.map User.member⟩

/-- Adds a team without members. -/
def addTeam (name : TeamName) : Desk Unit := changeUnless .teamExists (·.insert (.team name))

/-- Goes on only if no team has this name. -/
def requireNewTeam (name : TeamName) : Desk Unit := do
  if ← ask (·.hasTeam name) then throw .teamExists

/-- Adds a team and its members; the name is not looked up first, so it may turn
out to be taken when the row is inserted. -/
def fillTeam (name : TeamName) (members : List Member) : Desk Team := do
  addTeam name
  members.forM fun m => change (·.upsertUser (m.user name))
  loadTeam name

/-- Makes a team of the given members. -/
def createTeam (name : TeamName) (members : List Member) : Desk Team :=
  transaction do
    requireNewTeam name
    fillTeam name members

/-- Looks a team up. -/
def getTeam (name : TeamName) : Desk Team := do
  unless ← ask (·.hasTeam name) do throw .teamNotFound
  loadTeam name

/-- Switches a user on or off. -/
def setActive (id : UserId) (isActive : Bool) : Desk User := do
  let user ← orFail .userNotFound (← ask (·.findUser id))
  if user.isActive ≠ isActive then
    change (·.setActive (· = id) isActive)
  return { user with isActive }

end Desk

end ReviewDesk
