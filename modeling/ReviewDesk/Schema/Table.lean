/-!
# The four tables

The storage has one table each for teams, users, pull requests and reviews.
They are made in this order, since each refers only to those before it.
-/

namespace ReviewDesk

/-- A table of the storage. -/
inductive Table where
  | teams
  | users
  | pulls
  | reviews
deriving DecidableEq, Repr

namespace Table

/-- The tables in the order in which they are made. -/
def all : List Table := [teams, users, pulls, reviews]

/-- How many tables are made before this one. -/
def rank : Table → Nat
  | teams => 0
  | users => 1
  | pulls => 2
  | reviews => 3

/-- The name under which the storage knows the table. -/
def name : Table → String
  | teams => "teams"
  | users => "users"
  | pulls => "pull_requests"
  | reviews => "reviewer_assignments"

end Table

end ReviewDesk
