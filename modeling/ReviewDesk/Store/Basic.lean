import ReviewDesk.Names
import ReviewDesk.Schema.Table
import ReviewDesk.Status

/-!
# The store

The store holds the rows of the four tables, each in the order in which they
were inserted.  A table can be used once its migration was applied, and as long
as the store is open.  Keys that refer to other tables are checked unless the
checks are switched off.

A pull request is stored with the text of its status, and this text may be
anything; only a row whose text stands for a status can be read as a pull
request.
-/

namespace ReviewDesk

/-- A user. -/
structure User where
  id : UserId
  name : String
  team : TeamName
  isActive : Bool
deriving DecidableEq, Repr, Inhabited

/-- A pull request as it is stored. -/
structure StoredPull where
  id : PullId
  name : String
  author : UserId
  /-- The stored text of the status. -/
  status : String
  createdAt : Instant
  mergedAt : Option Instant
deriving DecidableEq, Repr, Inhabited

/-- A pull request as it is read. -/
structure Pull where
  id : PullId
  name : String
  author : UserId
  status : Status
  createdAt : Instant
  mergedAt : Option Instant
deriving DecidableEq, Repr

/-- A review: the user is a reviewer of the pull request. -/
structure Review where
  pull : PullId
  user : UserId
deriving DecidableEq, Repr, Inhabited

/-- The pull request that a stored row stands for. -/
def StoredPull.read? (p : StoredPull) : Option Pull := do
  let status ← Status.ofStored? p.status
  return ⟨p.id, p.name, p.author, status, p.createdAt, p.mergedAt⟩

/-- The row in which a pull request is stored. -/
def Pull.stored (p : Pull) : StoredPull :=
  ⟨p.id, p.name, p.author, p.status.text, p.createdAt, p.mergedAt⟩

/-- A stored pull request reads back as it was. -/
theorem Pull.read?_stored (p : Pull) : p.stored.read? = some p := by
  simp [Pull.stored, StoredPull.read?, Status.ofStored?_eq_some_iff.2 rfl]

/-- The storage of the service. -/
structure Store where
  teams : List TeamName := []
  users : List User := []
  pulls : List StoredPull := []
  reviews : List Review := []
  /-- How many migrations were applied. -/
  migrated : Nat := Table.all.length
  /-- Whether references between tables are checked. -/
  checksKeys : Bool := true
  /-- Whether the store can be used at all. -/
  isOpen : Bool := true
deriving DecidableEq, Inhabited

/-- Why a statement could not be carried out. -/
inductive Fault where
  /-- The store is closed or lacks the table. -/
  | unavailable
  /-- A row with this key exists. -/
  | duplicateKey
  /-- A reference would point nowhere. -/
  | brokenReference
  /-- A row holds a status that cannot be read. -/
  | unreadable
  /-- The storage reports something in words. -/
  | reported (words : String)
deriving DecidableEq, Repr

/-- Whether a fault says that a key is taken.  Words never do, whatever they
say. -/
def Fault.isClash (f : Fault) : Bool := f = .duplicateKey

namespace Store

/-- Whether a table can be used. -/
def has (s : Store) (t : Table) : Bool := s.isOpen && decide (t.rank < s.migrated)

/-- Whether a team has this name. -/
def isTeam (s : Store) (name : TeamName) : Bool := s.teams.contains name

/-- Whether a user has this id. -/
def isUser (s : Store) (id : UserId) : Bool := s.users.any (·.id = id)

/-- Whether a pull request has this id. -/
def isPull (s : Store) (id : PullId) : Bool := s.pulls.any (·.id = id)

end Store

end ReviewDesk
