import ReviewDesk.Store.Basic

/-!
# Writing the store

Every statement that changes a store either gives the store as it is
afterwards or a fault, in which case nothing changes.

A row can be inserted if its key is new and what it refers to exists; the key
is looked at first.  A row can be deleted unless another one depends on it: a
team on its users, a user on the pull requests of that author.  Review rows
depend on both their sides and are deleted along with either.  With the checks
switched off none of this about references holds.
-/

namespace ReviewDesk

/-- A row of one of the tables. -/
inductive Row where
  | team (name : TeamName)
  | user (u : User)
  | pull (p : StoredPull)
  | review (r : Review)
deriving DecidableEq

/-- The key of a row. -/
inductive Key where
  | team (name : TeamName)
  | user (id : UserId)
  | pull (id : PullId)
  | review (r : Review)
deriving DecidableEq

namespace Store

/-- Whether a state of references may stand: while they are checked, it has to
be sound. -/
def accepts (s : Store) (isSound : Bool) : Bool := !s.checksKeys || isSound

/-- Inserts a row. -/
def insert (s : Store) : Row → Except Fault Store
  | .team name =>
    if ¬ s.has .teams then .error .unavailable
    else if s.isTeam name then .error .duplicateKey
    else .ok { s with teams := s.teams ++ [name] }
  | .user u =>
    if ¬ s.has .users then .error .unavailable
    else if s.isUser u.id then .error .duplicateKey
    else if ¬ s.accepts (s.isTeam u.team) then .error .brokenReference
    else .ok { s with users := s.users ++ [u] }
  | .pull p =>
    if ¬ s.has .pulls then .error .unavailable
    else if s.isPull p.id then .error .duplicateKey
    else if ¬ s.accepts (s.isUser p.author) then .error .brokenReference
    else .ok { s with pulls := s.pulls ++ [p] }
  | .review r =>
    if ¬ s.has .reviews then .error .unavailable
    else if s.reviews.contains r then .error .duplicateKey
    else if ¬ s.accepts (s.isPull r.pull && s.isUser r.user) then .error .brokenReference
    else .ok { s with reviews := s.reviews ++ [r] }

/-- Inserts several rows, all or none. -/
def insertAll (s : Store) (rows : List Row) : Except Fault Store := rows.foldlM insert s

/-- Inserts a user, or gives the user with this id the new name, team and
flag. -/
def upsertUser (s : Store) (u : User) : Except Fault Store :=
  if s.has .users ∧ s.isUser u.id then
    if ¬ s.accepts (s.isTeam u.team) then .error .brokenReference
    else .ok { s with users := s.users.map fun v => if v.id = u.id then u else v }
  else s.insert (.user u)

/-- The number of rows with a key. -/
def count (s : Store) : Key → Nat
  | .team name => s.teams.count name
  | .user id => s.users.countP (·.id = id)
  | .pull id => s.pulls.countP (·.id = id)
  | .review r => s.reviews.count r

/-- Deletes the row with a key, if there is one. -/
def delete (s : Store) : Key → Except Fault Store
  | .team name =>
    if ¬ s.has .teams then .error .unavailable
    else if ¬ s.accepts (! s.isTeam name || s.users.all (·.team ≠ name)) then
      .error .brokenReference
    else .ok { s with teams := s.teams.filter (· ≠ name) }
  | .user id =>
    if ¬ s.has .users then .error .unavailable
    else if ¬ s.accepts (! s.isUser id || s.pulls.all (·.author ≠ id)) then
      .error .brokenReference
    else .ok { s with
      users := s.users.filter (·.id ≠ id)
      reviews := if s.checksKeys && s.isUser id then s.reviews.filter (·.user ≠ id) else s.reviews }
  | .pull id =>
    if ¬ s.has .pulls then .error .unavailable
    else .ok { s with
      pulls := s.pulls.filter (·.id ≠ id)
      reviews := if s.checksKeys && s.isPull id then s.reviews.filter (·.pull ≠ id) else s.reviews }
  | .review r =>
    if ¬ s.has .reviews then .error .unavailable
    else .ok { s with reviews := s.reviews.filter (· ≠ r) }

/-- Changes rows of a table. -/
def updating (s : Store) (t : Table) (changed : Store) : Except Fault Store :=
  if s.has t then .ok changed else .error .unavailable

/-- Sets the flag of the users that `chosen` accepts. -/
def setActive (s : Store) (chosen : UserId → Bool) (isActive : Bool) : Except Fault Store :=
  s.updating .users { s with
    users := s.users.map fun u => if chosen u.id then { u with isActive } else u }

/-- Stores that a pull request was merged. -/
def setMerged (s : Store) (id : PullId) (now : Instant) : Except Fault Store :=
  s.updating .pulls { s with
    pulls := s.pulls.map fun p =>
      if p.id = id then { p with status := Status.merged.text, mergedAt := some now } else p }

/-- Stores any text as the status of a pull request. -/
def setStatus (s : Store) (id : PullId) (status : String) : Except Fault Store :=
  s.updating .pulls { s with
    pulls := s.pulls.map fun p => if p.id = id then { p with status } else p }

end Store

end ReviewDesk
