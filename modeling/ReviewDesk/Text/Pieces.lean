/-!
# Pieces of a text

A text, or any list, is cut into pieces at every place where a mark stands.  The marks
themselves are in no piece, and between two of them that touch there is an
empty one.

What stands at the start can also be told apart from the rest: the items that
keep to a class, or a mark of several characters that may come any number of
times.

* `intercalate_cutAt` — the pieces with the mark between them are the text;
* `cutAt_of_not_mem` — a text without the mark is one piece.
-/

namespace ReviewDesk

namespace Pieces

/-- Cuts a list at every `mark`. -/
def cutAt {α : Type} [DecidableEq α] (mark : α) : List α → List (List α)
  | [] => [[]]
  | c :: rest =>
    if c = mark then [] :: cutAt mark rest
    else
      match cutAt mark rest with
      | piece :: pieces => (c :: piece) :: pieces
      | [] => [[c]]

theorem cutAt_ne_nil {α : Type} [DecidableEq α] (mark : α) (cs : List α) :
    cutAt mark cs ≠ [] := by
  cases cs with
  | nil => simp [cutAt]
  | cons c rest =>
    unfold cutAt
    split
    · simp
    · split <;> simp

/-- The pieces with the mark between them are the text. -/
theorem intercalate_cutAt {α : Type} [DecidableEq α] (mark : α) (cs : List α) :
    [mark].intercalate (cutAt mark cs) = cs := by
  induction cs with
  | nil => rfl
  | cons c rest ih =>
    unfold cutAt
    split
    · rename_i hc
      obtain ⟨piece, pieces, hcut⟩ := List.exists_cons_of_ne_nil (cutAt_ne_nil mark rest)
      rw [hcut] at ih ⊢
      simp_all [List.intercalate]
    · split
      · rename_i piece pieces hcut
        rw [hcut] at ih
        cases pieces <;> simp_all [List.intercalate]
      · rename_i hcut
        exact absurd hcut (cutAt_ne_nil mark rest)

/-- A text without the mark is one piece. -/
theorem cutAt_of_not_mem {α : Type} [DecidableEq α] {mark : α} {cs : List α} (h : mark ∉ cs) :
    cutAt mark cs = [cs] := by
  induction cs with
  | nil => rfl
  | cons c rest ih =>
    rw [List.mem_cons, not_or] at h
    rw [cutAt, if_neg (Ne.symm h.1), ih h.2]

/-- The items at the start that are in a class, and the rest. -/
def leading {α : Type} (isIn : α → Bool) (items : List α) : List α × List α :=
  (items.takeWhile isIn, items.dropWhile isIn)

/-- Where all items are in the class, nothing is left. -/
theorem leading_eq_of_all {α : Type} (isIn : α → Bool) {items : List α}
    (h : ∀ x ∈ items, isIn x = true) : leading isIn items = (items, []) := by
  induction items with
  | nil => rfl
  | cons x rest ih =>
    have hx := h x (List.mem_cons_self ..)
    have hrest := ih fun y hy => h y (List.mem_cons_of_mem x hy)
    simp only [leading, Prod.mk.injEq] at hrest ⊢
    simp [hx, hrest]

/-- What stands behind all marks at the start. -/
def behindAll (mark cs : List Char) : List Char :=
  if h : mark ≠ [] ∧ mark <+: cs then
    have hlt : cs.length - mark.length < cs.length := by
      have hle := h.2.length_le
      have hpos := List.length_pos_iff.2 h.1
      omega
    behindAll mark (cs.drop mark.length)
  else cs
termination_by cs.length
decreasing_by
  rw [List.length_drop]
  exact hlt

end Pieces

end ReviewDesk
