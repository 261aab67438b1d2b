import ReviewDesk.Schema.Table

/-!
# Table layouts

What the storage declares of each table: its columns, its primary key, the keys
by which it refers to other tables, and its indexes.
-/

namespace ReviewDesk

/-- A declared column. -/
structure Column where
  name : String
  /-- The declared type. -/
  type : String
  /-- Whether it must have a value. -/
  isRequired : Bool := true
  /-- The flag that a row gets if it is inserted without one. -/
  preset : Option Bool := none
deriving DecidableEq, Repr

/-- A named list of columns: a primary key or an index. -/
structure Index where
  name : String
  /-- The columns, the leading one first. -/
  columns : List String
deriving DecidableEq, Repr

/-- What becomes of a row when the row it refers to is to be deleted. -/
inductive OnDelete where
  /-- The other row cannot be deleted. -/
  | restrict
  /-- The row is deleted too. -/
  | cascade
deriving DecidableEq, Repr

/-- How the storage spells it. -/
def OnDelete.text : OnDelete → String
  | restrict => "RESTRICT"
  | cascade => "CASCADE"

/-- A column whose values are keys of another table. -/
structure ForeignKey where
  name : String
  column : String
  target : Table
  targetColumn : String
  onDelete : OnDelete
deriving DecidableEq, Repr

/-- The declaration of a table. -/
structure Layout where
  table : Table
  columns : List Column
  primaryKey : Index
  /-- The foreign keys, by column. -/
  foreignKeys : List ForeignKey := []
  indexes : List Index := []
deriving DecidableEq, Repr

namespace Layout

/-- The place of a column in the primary key, counted from 1; 0 if it is not part of it. -/
def keyPlace (l : Layout) (column : String) : Nat :=
  if l.primaryKey.columns.contains column then l.primaryKey.columns.idxOf column + 1 else 0

/-- A column for names and ids. -/
def label (name : String) : Column := { name, type := "text(255)" }

/-- The declaration of each table. -/
def ofTable : Table → Layout
  | .teams => {
      table := .teams
      columns := [label "name"]
      primaryKey := ⟨"PK_teams", ["name"]⟩ }
  | .users => {
      table := .users
      columns := [label "id", label "name", label "team",
        { name := "active", type := "boolean", preset := some true }]
      primaryKey := ⟨"PK_users", ["id"]⟩
      foreignKeys := [⟨"FK_users_team", "team", .teams, "name", .restrict⟩]
      indexes := [⟨"IDX_users_team_active", ["team", "active"]⟩] }
  | .pulls => {
      table := .pulls
      columns := [label "id", label "name", label "author",
        { name := "status", type := "text(16)" },
        { name := "created_at", type := "text" },
        { name := "merged_at", type := "text", isRequired := false }]
      primaryKey := ⟨"PK_pull_requests", ["id"]⟩
      foreignKeys := [⟨"FK_pull_requests_author", "author", .users, "id", .restrict⟩] }
  | .reviews => {
      table := .reviews
      columns := [label "pr_id", label "user_id"]
      primaryKey := ⟨"PK_reviewer_assignments", ["pr_id", "user_id"]⟩
      foreignKeys := [
        ⟨"FK_reviewer_assignments_pr_id", "pr_id", .pulls, "id", .cascade⟩,
        ⟨"FK_reviewer_assignments_user_id", "user_id", .users, "id", .cascade⟩]
      indexes := [⟨"IDX_reviewer_assignments_user_id", ["user_id"]⟩] }

end Layout

/-- The tables that exist, in the order in which they were made. -/
abbrev Schema := List Layout

namespace Schema

/-- The declaration of a table, if it exists. -/
def find? (s : Schema) (t : Table) : Option Layout := List.find? (·.table = t) s

/-- Makes a table without indexes, unless it exists; the tables it refers to have to. -/
def createTable (s : Schema) (layout : Layout) : Option Schema :=
  if (s.find? layout.table).isSome then some s
  else if layout.foreignKeys.all fun key => (s.find? key.target).isSome then
    some (s ++ [{ layout with indexes := [] }])
  else none

/-- Makes an index of a table, which has to exist, unless there is an index of this name. -/
def createIndex (s : Schema) (t : Table) (index : Index) : Option Schema :=
  if ¬ (s.find? t).isSome then none
  else if s.any fun layout => layout.indexes.any (·.name = index.name) then some s
  else some (s.map fun layout =>
    if layout.table = t then { layout with indexes := layout.indexes ++ [index] } else layout)

/-- Makes a table and then its indexes, each of them unless it exists. -/
def create (s : Schema) (layout : Layout) : Option Schema := do
  let made ← s.createTable layout
  layout.indexes.foldlM (fun schema index => schema.createIndex layout.table index) made

/-- Drops a table, which has to exist and must not be referred to.  Its indexes go with it. -/
def drop (s : Schema) (t : Table) : Option Schema :=
  if (s.find? t).isSome ∧ s.all fun other => other.foreignKeys.all (·.target ≠ t) then
    some (s.filter (·.table ≠ t))
  else none

end Schema

end ReviewDesk
