import ReviewDesk.Proofs.Migrations
import ReviewDesk.Proofs.StoreSteps

/-!
# Statements follow the declarations

The migrations declare of each table what its columns are, which of them make its primary key,
and which refer to other tables.  The statements that insert, replace and delete rows go through
the tables one by one.  Here their checks are derived from the declarations: what a statement
does is said for all tables at once, by the layout of the row, and then each statement is proved
to do just that.

A row is read as its cells, one for each column.  Two rows clash if they have the same cells in
the columns of the primary key.  A row is supported if each of its foreign keys leads to a row,
and it depends on the rows to which they lead.  As a foreign key always leads to the whole
primary key of its target, all of this comes down to searching for primary keys (`holds_key`).

* `has_eq` — a table can be used when the migrations that were applied have made it;
* `insert_eq`, `upsertUser_eq` — which rows are refused, and for which reason;
* `delete_eq` — which rows keep another one from being deleted, and which go with it;
* `setActive_keeps`, `setMerged_keeps`, `setStatus_keeps` — all other changes leave keys and
  references alone, so nothing has to be checked.
-/

namespace ReviewDesk

/-! ## Rows as cells -/

/-- What stands in a column of a row. -/
inductive Cell where
  | text (s : String)
  | flag (b : Bool)
  | time (t : Instant)
  | missing
deriving DecidableEq

/-- Whether a column may hold a cell. -/
def Cell.fits (column : Column) : Cell → Bool
  | text _ => column.type ∈ ["text(255)", "text(16)"]
  | flag _ => column.type = "boolean"
  | time _ => column.type = "text"
  | missing => !column.isRequired

namespace Row

/-- The table of a row. -/
def table : Row → Table
  | team _ => .teams
  | user _ => .users
  | pull _ => .pulls
  | review _ => .reviews

/-- The declaration of its table. -/
def layout (row : Row) : Layout := .ofTable row.table

/-- The cells of a row, in the order of the columns. -/
def cells : Row → List Cell
  | team name => [.text name]
  | user u => [.text u.id, .text u.name, .text u.team, .flag u.isActive]
  | pull p => [.text p.id, .text p.name, .text p.author, .text p.status, .time p.createdAt,
      (p.mergedAt.map Cell.time).getD .missing]
  | review r => [.text r.pull, .text r.user]

/-- The cell in a column. -/
def cell (row : Row) (column : String) : Option Cell :=
  ((row.layout.columns.map (·.name)).zip row.cells).lookup column

/-- The cells of the primary key. -/
def key (row : Row) : List (Option Cell) := row.layout.primaryKey.columns.map row.cell

/-- The cells that refer to other tables. -/
def references (row : Row) : List (Option Cell) :=
  row.layout.foreignKeys.map fun foreign => row.cell foreign.column

@[simp] theorem key_team (name : TeamName) : (team name).key = [some (.text name)] := rfl

@[simp] theorem key_user (u : User) : (user u).key = [some (.text u.id)] := rfl

@[simp] theorem key_pull (p : StoredPull) : (pull p).key = [some (.text p.id)] := rfl

@[simp] theorem key_review (r : Review) :
    (review r).key = [some (.text r.pull), some (.text r.user)] := rfl

@[simp] theorem cell_user_team (u : User) : (user u).cell "team" = some (.text u.team) := rfl

@[simp] theorem cell_pull_author (p : StoredPull) :
    (pull p).cell "author" = some (.text p.author) := rfl

@[simp] theorem cell_review_pull (r : Review) :
    (review r).cell "pr_id" = some (.text r.pull) := rfl

@[simp] theorem cell_review_user (r : Review) :
    (review r).cell "user_id" = some (.text r.user) := rfl

/-- A row has one cell for each column, and it fits. -/
theorem cells_fit (row : Row) :
    row.cells.length = row.layout.columns.length ∧
      ∀ e ∈ row.layout.columns.zip row.cells, e.2.fits e.1 = true := by
  cases row with
  | team | user | review => simp [cells, layout, table, Layout.ofTable, Layout.label, Cell.fits]
  | pull p =>
      obtain ⟨id, name, author, status, createdAt, _ | t⟩ := p <;>
        simp [cells, layout, table, Layout.ofTable, Layout.label, Cell.fits]

end Row

namespace Layout

/-- What a row gets if it is inserted without a cell fits the column. -/
theorem fits_of_preset {t : Table} {column : Column} (h : column ∈ (ofTable t).columns) {b : Bool}
    (hb : column.preset = some b) : (Cell.flag b).fits column = true := by
  have hflag : ∀ t, ∀ c ∈ (ofTable t).columns, c.preset.isSome → c.type = "boolean" := by
    intro t
    cases t <;> decide
  exact decide_eq_true (hflag t column h (hb ▸ rfl))

/-- A foreign key leads from a declared column to the primary key of its target. -/
theorem foreignKeys_lead (t : Table) : ∀ foreign ∈ (ofTable t).foreignKeys,
    foreign.column ∈ (ofTable t).columns.map (·.name) ∧
      (ofTable foreign.target).primaryKey.columns = [foreign.targetColumn] := by
  cases t <;> decide

/-- Rows that go with a deleted row take no others along: nothing refers to their table. -/
theorem target_ne_of_cascade {t : Table} {foreign : ForeignKey}
    (h : foreign ∈ (ofTable t).foreignKeys) (hcascade : foreign.onDelete = .cascade)
    (other : Table) : ∀ f ∈ (ofTable other).foreignKeys, f.target ≠ t := by
  have hlast : ∀ t, (∃ f ∈ (ofTable t).foreignKeys, f.onDelete = .cascade) → t = .reviews := by
    intro t
    cases t <;> decide
  rw [hlast t ⟨foreign, h, hcascade⟩]
  cases other <;> decide

end Layout

namespace Key

/-- The table of the row that has the key. -/
def table : Key → Table
  | team _ => .teams
  | user _ => .users
  | pull _ => .pulls
  | review _ => .reviews

/-- The cells of the primary key of this row. -/
def cells : Key → List (Option Cell)
  | team name => [some (.text name)]
  | user id => [some (.text id)]
  | pull id => [some (.text id)]
  | review r => [some (.text r.pull), some (.text r.user)]

end Key

theorem Review.eq_iff {r t : Review} : r = t ↔ r.pull = t.pull ∧ r.user = t.user := by
  cases r
  cases t
  exact Review.mk.injEq .. ▸ Iff.rfl

/-- Whether a foreign key leads from one row to the other. -/
def ForeignKey.leads (foreign : ForeignKey) (row other : Row) : Bool :=
  row.cell foreign.column = other.cell foreign.targetColumn

namespace Store

variable (s : Store)

/-- The rows of a table. -/
def rows : Table → List Row
  | .teams => s.teams.map .team
  | .users => s.users.map .user
  | .pulls => s.pulls.map .pull
  | .reviews => s.reviews.map .review

/-- Whether a table has a row with these cells in its primary key. -/
def holds (t : Table) (key : List (Option Cell)) : Bool := (s.rows t).any (·.key = key)

/-- Whether there is a row with the primary key of this one. -/
def clashes (row : Row) : Bool := s.holds row.table row.key

/-- Whether every foreign key of a row leads to a row. -/
def supports (row : Row) : Bool :=
  row.layout.foreignKeys.all fun foreign => (s.rows foreign.target).any (foreign.leads row)

/-- The rows with a key. -/
def found (key : Key) : List Row := (s.rows key.table).filter (·.key = key.cells)

/-- Whether a foreign key with this rule leads from a row to one with the key. -/
def depends (key : Key) (rule : OnDelete) (row : Row) : Bool :=
  row.layout.foreignKeys.any fun foreign =>
    foreign.target = key.table && foreign.onDelete = rule && (s.found key).any (foreign.leads row)

/-- The store with one more row. -/
def withRow : Row → Store
  | .team name => { s with teams := s.teams ++ [name] }
  | .user u => { s with users := s.users ++ [u] }
  | .pull p => { s with pulls := s.pulls ++ [p] }
  | .review r => { s with reviews := s.reviews ++ [r] }

/-- The store with only some of its rows. -/
def keeping (kept : Row → Bool) : Store :=
  { s with
    teams := s.teams.filter fun name => kept (.team name)
    users := s.users.filter fun u => kept (.user u)
    pulls := s.pulls.filter fun p => kept (.pull p)
    reviews := s.reviews.filter fun r => kept (.review r) }

theorem rows_withRow (row : Row) (t : Table) :
    (s.withRow row).rows t = s.rows t ++ if row.table = t then [row] else [] := by
  cases row <;> cases t <;> simp [withRow, rows, Row.table]

theorem rows_keeping (kept : Row → Bool) (t : Table) :
    (s.keeping kept).rows t = (s.rows t).filter kept := by
  cases t <;> simp [keeping, rows, List.filter_map, Function.comp_def]

/-! ## Keys and references -/

/-- Rows are found by their keys. -/
theorem holds_key (key : Key) : s.holds key.table key.cells = match key with
    | .team name => s.isTeam name
    | .user id => s.isUser id
    | .pull id => s.isPull id
    | .review r => s.reviews.contains r := by
  rw [holds, Bool.eq_iff_iff]
  cases key with
  | team name => simp [Key.table, Key.cells, rows, isTeam]
  | user id => simp [Key.table, Key.cells, rows, isUser]
  | pull id => simp [Key.table, Key.cells, rows, isPull]
  | review r => simp [Key.table, Key.cells, rows, ← Review.eq_iff]

theorem clashes_cases (row : Row) : s.clashes row = match row with
    | .team name => s.isTeam name
    | .user u => s.isUser u.id
    | .pull p => s.isPull p.id
    | .review r => s.reviews.contains r := by
  cases row with
  | team name => exact s.holds_key (.team name)
  | user u => exact s.holds_key (.user u.id)
  | pull p => exact s.holds_key (.pull p.id)
  | review r => exact s.holds_key (.review r)

/-- A foreign key leads to the rows that have the cell as their primary key. -/
theorem leads_eq {row other : Row} {foreign : ForeignKey} (h : foreign ∈ row.layout.foreignKeys)
    (hother : other.table = foreign.target) :
    foreign.leads row other = decide (other.key = [row.cell foreign.column]) := by
  have hkey : other.key = [other.cell foreign.targetColumn] := by
    rw [Row.key, Row.layout, hother, (Layout.foreignKeys_lead row.table foreign h).2]
    rfl
  rw [ForeignKey.leads, hkey, decide_eq_decide, List.singleton_inj, eq_comm]

theorem table_of_mem_rows {s : Store} {t : Table} {row : Row} (h : row ∈ s.rows t) :
    row.table = t := by
  cases t <;> obtain ⟨_, -, rfl⟩ := List.mem_map.1 h <;> rfl

/-- A row is supported if the cells of its foreign keys are keys of rows. -/
theorem supports_eq (row : Row) : s.supports row =
    row.layout.foreignKeys.all fun foreign => s.holds foreign.target [row.cell foreign.column] := by
  have hlead : ∀ foreign ∈ row.layout.foreignKeys, ∀ other ∈ s.rows foreign.target,
      foreign.leads row other = decide (other.key = [row.cell foreign.column]) :=
    fun _ hforeign _ hother => leads_eq hforeign (table_of_mem_rows hother)
  rw [supports, Bool.eq_iff_iff, List.all_eq_true, List.all_eq_true]
  refine forall₂_congr fun foreign hforeign => ?_
  rw [holds, List.any_eq_true, List.any_eq_true]
  exact exists_congr fun other => and_congr_right fun hother => by
    rw [hlead foreign hforeign other hother]

theorem supports_cases (row : Row) : s.supports row = match row with
    | .team _ => true
    | .user u => s.isTeam u.team
    | .pull p => s.isUser p.author
    | .review r => s.isPull r.pull && s.isUser r.user := by
  rw [supports_eq]
  cases row with
  | team name => rfl
  | user u => exact (Bool.and_true _).trans (s.holds_key (.team u.team))
  | pull p => exact (Bool.and_true _).trans (s.holds_key (.user p.author))
  | review r =>
      have huser : (s.holds .users [some (.text r.user)] && true) = s.isUser r.user :=
        (Bool.and_true _).trans (s.holds_key (.user r.user))
      exact congr (congrArg and (s.holds_key (.pull r.pull))) huser

/-- A row depends on a key if a row has it and a foreign key of that rule says so. -/
theorem depends_eq (key : Key) (rule : OnDelete) (row : Row) : s.depends key rule row =
    (s.holds key.table key.cells && row.layout.foreignKeys.any fun foreign =>
      foreign.target = key.table && foreign.onDelete = rule &&
        key.cells = [row.cell foreign.column]) := by
  rw [Bool.eq_iff_iff, depends, Bool.and_eq_true, holds]
  simp only [found, Bool.and_eq_true, decide_eq_true_eq, List.any_eq_true, List.mem_filter]
  constructor
  · rintro ⟨foreign, hforeign, ⟨htarget, hrule⟩, other, ⟨hother, hkey⟩, hleads⟩
    have htable : other.table = foreign.target := (table_of_mem_rows hother).trans htarget.symm
    rw [leads_eq hforeign htable, decide_eq_true_iff] at hleads
    exact ⟨⟨other, hother, hkey⟩, foreign, hforeign, ⟨htarget, hrule⟩, hkey.symm.trans hleads⟩
  · rintro ⟨⟨other, hother, hkey⟩, foreign, hforeign, ⟨htarget, hrule⟩, hcell⟩
    have htable : other.table = foreign.target := (table_of_mem_rows hother).trans htarget.symm
    refine ⟨foreign, hforeign, ⟨htarget, hrule⟩, other, ⟨hother, hkey⟩, ?_⟩
    rw [leads_eq hforeign htable, decide_eq_true_iff]
    exact hkey.trans hcell

/-- The four ways in which a row can depend on a key. -/
theorem depends_cases (key : Key) (rule : OnDelete) (row : Row) : s.depends key rule row =
    match key, row with
    | .team name, .user u => rule = .restrict && s.isTeam name && u.team = name
    | .user id, .pull p => rule = .restrict && s.isUser id && p.author = id
    | .user id, .review r => rule = .cascade && s.isUser id && r.user = id
    | .pull id, .review r => rule = .cascade && s.isPull id && r.pull = id
    | _, _ => false := by
  rw [depends_eq, holds_key]
  cases key <;> cases row <;> cases rule <;>
    simp [Row.layout, Row.table, Layout.ofTable, Key.table, Key.cells, eq_comm]

/-! ## Statements -/

/-- A table can be used when the migrations that were applied have made it. -/
theorem has_eq (t : Table) : s.has t =
    (s.isOpen && ((Migration.Progress.upTo s.migrated).schema.find? t).isSome) := by
  have hmade : ∀ k, ((Migration.Progress.upTo k).schema.find? t).isSome = decide (t.rank < k) := by
    intro k
    match k with
    | 0 | 1 | 2 | 3 => cases t <;> decide
    | k + 4 =>
        have hlast : Migration.Progress.upTo (k + 4) = .upTo 4 :=
          Migration.upTo_of_le (Nat.le_add_left 4 k)
        have hrank : t.rank < k + 4 := by
          cases t <;> exact Nat.lt_of_lt_of_le (by decide) (Nat.le_add_left 4 k)
        rw [hlast, decide_eq_true hrank]
        cases t <;> decide
  rw [has, hmade]

/-- **Insertion.**  A row is refused if its table is not there, if it clashes, or if references
are checked and it is not supported; the first of these is the reason that is given.  Otherwise
the row is added and nothing else changes. -/
theorem insert_eq (row : Row) : s.insert row =
    if ¬ s.has row.table then .error .unavailable
    else if s.clashes row then .error .duplicateKey
    else if s.checksKeys ∧ ¬ s.supports row then .error .brokenReference
    else .ok (s.withRow row) := by
  rw [clashes_cases, supports_cases]
  cases row with
  | team name => simp [insert, Row.table, withRow]
  | user u => simp [insert, Row.table, withRow, accepts]
  | pull p => simp [insert, Row.table, withRow, accepts]
  | review r => simp [insert, Row.table, withRow, accepts]

/-- **Replacement.**  An upsert is refused like an insertion, except that a row with the same
key is no reason: it is replaced. -/
theorem upsertUser_eq (u : User) : s.upsertUser u =
    if ¬ s.has .users then .error .unavailable
    else if s.checksKeys ∧ ¬ s.supports (.user u) then .error .brokenReference
    else if s.clashes (.user u) then .ok { s with
      users := s.users.map fun v => if (Row.user v).key = (Row.user u).key then u else v }
    else .ok (s.withRow (.user u)) := by
  rw [upsertUser, insert, clashes_cases, supports_cases]
  by_cases hhas : s.has .users = true <;> by_cases huser : s.isUser u.id = true <;>
    simp [hhas, huser, accepts, withRow]

/-- **Deletion.**  A row that is there cannot be deleted while references are checked and a row
depends on it by a key that restricts this.  Otherwise it goes, and while references are checked
all rows go with it that depend on it by a key that cascades; on these no row depends in turn, as
`target_ne_of_cascade` says. -/
theorem delete_eq (key : Key) : s.delete key =
    if ¬ s.has key.table then .error .unavailable
    else if s.checksKeys ∧ Table.all.any fun t => (s.rows t).any (s.depends key .restrict) then
      .error .brokenReference
    else .ok (s.keeping fun row =>
      ¬ (row.table = key.table ∧ row.key = key.cells) ∧
        ¬ (s.checksKeys ∧ s.depends key .cascade row)) := by
  have hall : ∀ {α : Type} (l : List α), l.filter (fun _ => true) = l := fun l =>
    List.filter_eq_self.2 fun _ _ => rfl
  cases key with
  | team name =>
      by_cases hteam : s.isTeam name = true <;>
        simp [delete, accepts, Key.table, Key.cells, Table.all, rows, keeping, Row.table,
          depends_cases, hteam, hall]
  | user id =>
      by_cases hkeys : s.checksKeys = true <;> by_cases huser : s.isUser id = true <;>
        simp [delete, accepts, Key.table, Key.cells, Table.all, rows, keeping, Row.table,
          depends_cases, hkeys, huser, hall]
  | pull id =>
      by_cases hkeys : s.checksKeys = true <;> by_cases hpull : s.isPull id = true <;>
        simp [delete, Key.table, Key.cells, Table.all, rows, keeping, Row.table, depends_cases,
          hkeys, hpull, hall]
  | review r =>
      simp [delete, Key.table, Key.cells, Table.all, rows, keeping, Row.table, depends_cases, hall,
        ← Review.eq_iff]

/-! ## Changes of other columns -/

/-- The primary keys of the rows of a table with their cells in columns of foreign keys. -/
def links (t : Table) : List (List (Option Cell) × List (Option Cell)) :=
  (s.rows t).map fun row => (row.key, row.references)

variable {s} {s' : Store}

/-- Changed users with their ids and teams have the links of the old ones. -/
theorem links_of_users {change : User → User}
    (hkeeps : ∀ u, (change u).id = u.id ∧ (change u).team = u.team) (t : Table) :
    links { s with users := s.users.map change } t = s.links t := by
  cases t with
  | users =>
      simp only [links, rows, List.map_map]
      refine List.map_congr_left fun u _ => ?_
      simp [Row.references, Row.layout, Row.table, Layout.ofTable, hkeeps u]
  | teams | pulls | reviews => rfl

/-- Changed pull requests with their ids and authors have the links of the old ones. -/
theorem links_of_pulls {change : StoredPull → StoredPull}
    (hkeeps : ∀ p, (change p).id = p.id ∧ (change p).author = p.author) (t : Table) :
    links { s with pulls := s.pulls.map change } t = s.links t := by
  cases t with
  | pulls =>
      simp only [links, rows, List.map_map]
      refine List.map_congr_left fun p _ => ?_
      simp [Row.references, Row.layout, Row.table, Layout.ofTable, hkeeps p]
  | teams | users | reviews => rfl

theorem setActive_keeps {chosen : UserId → Bool} {isActive : Bool}
    (h : s.setActive chosen isActive = .ok s') (t : Table) : s'.links t = s.links t := by
  obtain ⟨-, rfl⟩ := updating_eq_ok.1 h
  exact links_of_users (fun u => by split <;> exact ⟨rfl, rfl⟩) t

theorem setMerged_keeps {id : PullId} {now : Instant} (h : s.setMerged id now = .ok s')
    (t : Table) : s'.links t = s.links t := by
  obtain ⟨-, rfl⟩ := updating_eq_ok.1 h
  exact links_of_pulls (fun p => by split <;> exact ⟨rfl, rfl⟩) t

theorem setStatus_keeps {id : PullId} {status : String} (h : s.setStatus id status = .ok s')
    (t : Table) : s'.links t = s.links t := by
  obtain ⟨-, rfl⟩ := updating_eq_ok.1 h
  exact links_of_pulls (fun p => by split <;> exact ⟨rfl, rfl⟩) t

end Store

end ReviewDesk
