import ReviewDesk.Store.Basic

/-!
# Joins

A query may read the rows of a table together with the reviews that belong to
them.  In an inner join a row comes once for each of its reviews, so as often
as it has any.  In a left join a row without reviews comes too, once, with a
gap in their place.

Joined rows can be grouped by a label that they carry.  A group is there for
every label that occurs, and counts the reviews in it; gaps do not count.

* `mem_innerJoin` — which pairs an inner join is made of;
* `countP_partners` — how many reviews a left join puts beside a row.
-/

namespace ReviewDesk

variable {α : Type}

/-- Every row with each of the reviews that belong to it. -/
def innerJoin (rows : List α) (reviews : List Review) (belongs : α → Review → Bool) :
    List (α × Review) :=
  rows.flatMap fun a => (reviews.filter (belongs a)).map (a, ·)

/-- What a left join puts beside a row: the reviews that belong to it, or one
gap if there are none. -/
def partners (reviews : List Review) (belongs : Review → Bool) : List (Option Review) :=
  match reviews.filter belongs with
  | [] => [none]
  | found => found.map some

/-- Every row with each of its partners. -/
def leftJoin (rows : List α) (reviews : List Review) (belongs : α → Review → Bool) :
    List (α × Option Review) :=
  rows.flatMap fun a => (partners reviews (belongs a)).map (a, ·)

/-- The labels that occur, each once and with the number of the reviews that
stand beside it. -/
def countByLabel {κ : Type} [DecidableEq κ] (rows : List (κ × Option Review)) : List (κ × Nat) :=
  (rows.map Prod.fst).eraseDups.map fun label =>
    (label, rows.countP fun e => e.1 = label ∧ e.2.isSome)

@[simp] theorem mem_innerJoin {rows : List α} {reviews : List Review} {belongs : α → Review → Bool}
    {a : α} {r : Review} :
    (a, r) ∈ innerJoin rows reviews belongs ↔ a ∈ rows ∧ r ∈ reviews ∧ belongs a r = true := by
  simp only [innerJoin, List.mem_flatMap, List.mem_map, List.mem_filter, Prod.mk.injEq]
  constructor
  · rintro ⟨_, ha, _, hr, rfl, rfl⟩
    exact ⟨ha, hr⟩
  · rintro ⟨ha, hr⟩
    exact ⟨a, ha, r, hr, rfl, rfl⟩

/-- A left join puts as many reviews beside a row as belong to it. -/
theorem countP_partners (reviews : List Review) (belongs : Review → Bool) :
    (partners reviews belongs).countP Option.isSome = reviews.countP belongs := by
  rw [partners, List.countP_eq_length_filter (p := belongs)]
  cases reviews.filter belongs with
  | nil => rfl
  | cons r rest =>
    have hall : ∀ found ∈ (r :: rest).map some, found.isSome = true := by
      intro found hfound
      obtain ⟨_, -, rfl⟩ := List.mem_map.1 hfound
      rfl
    exact (List.countP_eq_length.2 hall).trans (List.length_map _)

end ReviewDesk
