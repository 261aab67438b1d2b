/-!
# Arranging lists

A list is put in order by inserting its entries one by one, from the last to
the first, each before the entries that it does not have to follow.

* `arrange_perm` — the entries stay the same;
* `arrange_sorted` — in an order that any two entries agree on, every entry
  stands before all those that have to follow it.
-/

namespace ReviewDesk

variable {α : Type}

/-- Puts `a` before the first entry that need not come before it. -/
def insertWhere (precedes : α → α → Bool) (a : α) : List α → List α
  | [] => [a]
  | b :: rest => if precedes b a then b :: insertWhere precedes a rest else a :: b :: rest

/-- The list in order: `precedes b a` says that `b` has to come before `a`. -/
def arrange (precedes : α → α → Bool) : List α → List α
  | [] => []
  | a :: rest => insertWhere precedes a (arrange precedes rest)

theorem insertWhere_perm (precedes : α → α → Bool) (a : α) (l : List α) :
    (insertWhere precedes a l).Perm (a :: l) := by
  induction l with
  | nil => exact .refl _
  | cons b rest ih =>
    unfold insertWhere
    split
    · exact (ih.cons b).trans (.swap a b rest)
    · exact .refl _

/-- Arranging keeps the entries. -/
theorem arrange_perm (precedes : α → α → Bool) (l : List α) : (arrange precedes l).Perm l := by
  induction l with
  | nil => exact .refl _
  | cons a rest ih => exact (insertWhere_perm precedes a _).trans (ih.cons a)

theorem insertWhere_sorted {precedes : α → α → Bool}
    (trans : ∀ a b c, precedes a b = false → precedes b c = false → precedes a c = false)
    (asymm : ∀ a b, precedes a b = true → precedes b a = false) (a : α) {l : List α}
    (h : l.Pairwise fun x y => precedes y x = false) :
    (insertWhere precedes a l).Pairwise fun x y => precedes y x = false := by
  induction l with
  | nil => simp [insertWhere]
  | cons b rest ih =>
    obtain ⟨hb, hrest⟩ := List.pairwise_cons.1 h
    unfold insertWhere
    split
    · rename_i hba
      refine List.pairwise_cons.2 ⟨fun x hx => ?_, ih hrest⟩
      rcases List.mem_cons.1 ((insertWhere_perm precedes a rest).mem_iff.1 hx) with rfl | hx
      · exact asymm _ _ hba
      · exact hb x hx
    · rename_i hba
      have hba : precedes b a = false := by simpa using hba
      refine List.pairwise_cons.2 ⟨fun x hx => ?_, h⟩
      rcases List.mem_cons.1 hx with rfl | hx
      · exact hba
      · exact trans _ _ _ (hb x hx) hba

/-- An arranged list has no entry that should have come before an earlier
one. -/
theorem arrange_sorted {precedes : α → α → Bool}
    (trans : ∀ a b c, precedes a b = false → precedes b c = false → precedes a c = false)
    (asymm : ∀ a b, precedes a b = true → precedes b a = false) (l : List α) :
    (arrange precedes l).Pairwise fun x y => precedes y x = false := by
  induction l with
  | nil => exact .nil
  | cons a rest ih => exact insertWhere_sorted trans asymm a ih

end ReviewDesk
