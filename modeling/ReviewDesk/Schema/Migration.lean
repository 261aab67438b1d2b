import ReviewDesk.Schema.Layout

/-!
# Migrations

The tables are made by migrations, one each, applied in a fixed order and
rolled back in the opposite one.  The storage records the names of the applied
ones.  A migration that fails ends its command; what was done before it stays.
-/

namespace ReviewDesk

/-- A migration: it makes one table, and drops it when it is rolled back. -/
structure Migration where
  name : String
  table : Table
deriving DecidableEq, Repr

namespace Migration

/-- The migrations in the order in which they are applied. -/
def all : List Migration :=
  [⟨"m20251103_090000_create_teams_table", .teams⟩,
    ⟨"m20251103_090100_create_users_table", .users⟩,
    ⟨"m20251103_090200_create_pull_requests_table", .pulls⟩,
    ⟨"m20251103_090300_create_reviewer_assignments_table", .reviews⟩]

/-- How far a storage has been migrated. -/
structure Progress where
  /-- The applied migrations, in the order in which they were applied. -/
  applied : List Migration := []
  /-- The tables that exist. -/
  schema : Schema := []
deriving DecidableEq, Repr

/-- An empty storage. -/
def Progress.blank : Progress := {}

/-- The migrations that are not applied. -/
def Progress.pending (p : Progress) : List Migration := all.filter (· ∉ p.applied)

/-- Applies a migration. -/
def applyTo (m : Migration) (p : Progress) : Option Progress := do
  let schema ← p.schema.create (Layout.ofTable m.table)
  return { applied := p.applied ++ [m], schema }

/-- Rolls a migration back. -/
def undoOn (m : Migration) (p : Progress) : Option Progress := do
  let schema ← p.schema.drop m.table
  return { applied := p.applied.filter (· ≠ m), schema }

/-- Takes the given steps until one fails, and tells whether none did. -/
def runAll : List (Progress → Option Progress) → Progress → Bool × Progress
  | [], p => (true, p)
  | step :: later, p =>
    match step p with
    | some q => runAll later q
    | none => (false, p)

/-- What can be asked of the migrations. -/
inductive Command where
  /-- Apply the next `count` pending migrations, or all. -/
  | up (count : Option Nat)
  /-- Roll back the last `count` applied migrations, or all. -/
  | down (count : Option Nat)
  /-- Drop every table and apply all. -/
  | fresh
  /-- Roll back all and apply all. -/
  | refresh
  /-- Roll back all. -/
  | reset
deriving DecidableEq, Repr

/-- The first `count` entries, or all. -/
def first {α : Type} (count : Option Nat) (l : List α) : List α :=
  match count with
  | some n => l.take n
  | none => l

/-- Applies the next `count` pending migrations, or all. -/
def up (count : Option Nat) (p : Progress) : Bool × Progress :=
  runAll ((first count p.pending).map applyTo) p

/-- Rolls back the last `count` applied migrations, or all. -/
def down (count : Option Nat) (p : Progress) : Bool × Progress :=
  runAll ((first count p.applied.reverse).map undoOn) p

/-- Runs a command and tells whether it succeeded. -/
def Command.run : Command → Progress → Bool × Progress
  | .up count, p => Migration.up count p
  | .down count, p => Migration.down count p
  | .fresh, _ => Migration.up none .blank
  | .refresh, p =>
    match Migration.down none p with
    | (true, q) => Migration.up none q
    | failed => failed
  | .reset, p => Migration.down none p

end Migration

end ReviewDesk
