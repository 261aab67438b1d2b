import Mathlib.Data.Finset.Prod
import Mathlib.Data.List.Permutation
import ReviewDesk.Proofs.FairIndices

/-!
# Every choice is as likely as any other

A shuffle exchanges the last entry with one that is drawn, then the last but one, and so on.
The first exchange decides which entry is the last in the end, and what is before it is
arranged by the other places alone.  So if no entry comes twice, different places give
different arrangements, and every arrangement comes from some places.

A pick keeps the first entries of an arrangement.  Arrangements that begin alike differ in
how the other entries follow, and those can follow in any order.  So all choices come from
equally many lists of places, and since each place has as many words as any other, no choice
is more likely than another.

* `shuffleBy_cons` — the first place decides on the last entry;
* `shuffleBy_injOn`, `exists_shuffleBy_eq` — every arrangement comes from one list of places;
* `card_filter_take`, `card_filter_head?` — how many lists of places give a choice;
* `picks_are_fair` — the picks themselves.
-/

namespace ReviewDesk

open scoped Nat

namespace Draw

variable {α : Type}

/-! ## All places that can be drawn -/

/-- All lists of places for `k + 1` entries: the first place is below `k + 1`, the next one
below `k`, and so on down to one below 2. -/
def allPlaces : Nat → Finset (List Nat)
  | 0 => {[]}
  | k + 1 => (Finset.range (k + 2) ×ˢ allPlaces k).image fun p => p.1 :: p.2

theorem mem_allPlaces_succ {k : Nat} {places : List Nat} :
    places ∈ allPlaces (k + 1) ↔ ∃ j rest, places = j :: rest ∧ j < k + 2 ∧ rest ∈ allPlaces k := by
  simp only [allPlaces, Finset.mem_image, Finset.mem_product, Finset.mem_range, Prod.exists]
  constructor
  · rintro ⟨j, rest, ⟨hj, hrest⟩, rfl⟩
    exact ⟨j, rest, rfl, hj, hrest⟩
  · rintro ⟨j, rest, rfl, hj, hrest⟩
    exact ⟨j, rest, ⟨hj, hrest⟩, rfl⟩

theorem card_allPlaces (k : Nat) : (allPlaces k).card = (k + 1)! := by
  induction k with
  | zero => rfl
  | succ k ih =>
      have hinjective : Function.Injective fun p : Nat × List Nat => p.1 :: p.2 := by
        rintro ⟨i, rest⟩ ⟨j, others⟩ h
        exact Prod.ext (List.cons.inj h).1 (List.cons.inj h).2
      rw [allPlaces, Finset.card_image_of_injective _ hinjective, Finset.card_product,
        Finset.card_range, ih, Nat.factorial_succ (k + 1)]

theorem mem_allPlaces {k : Nat} {places : List Nat} :
    places ∈ allPlaces k ↔
      places.length = k ∧ ∀ i j, places[i]? = some j → j < k + 1 - i := by
  induction k generalizing places with
  | zero =>
      rw [allPlaces, Finset.mem_singleton, List.length_eq_zero_iff]
      refine ⟨fun h => ⟨h, fun i j hj => ?_⟩, And.left⟩
      rw [h] at hj
      cases hj
  | succ k ih =>
      rw [mem_allPlaces_succ]
      constructor
      · rintro ⟨j, rest, rfl, hj, hrest⟩
        obtain ⟨hlength, hbelow⟩ := ih.1 hrest
        refine ⟨congrArg Nat.succ hlength, fun i j' hplace => ?_⟩
        cases i with
        | zero =>
            cases hplace
            exact hj
        | succ i =>
            have := hbelow i j' hplace
            omega
      · rintro ⟨hlength, hbelow⟩
        obtain ⟨j, rest, rfl⟩ := List.exists_cons_of_length_eq_add_one hlength
        refine ⟨j, rest, rfl, hbelow 0 j rfl, ih.2 ⟨Nat.succ.inj hlength, fun i j' hplace => ?_⟩⟩
        have := hbelow (i + 1) j' hplace
        omega

/-- What a stream gives is one of these lists. -/
theorem places_mem_allPlaces (k : Nat) (w : Words) : (w.places k).1 ∈ allPlaces k := by
  induction k generalizing w with
  | zero => exact Finset.mem_singleton_self _
  | succ k ih =>
      exact mem_allPlaces_succ.2 ⟨_, _, rfl, indexBelow_lt (Nat.succ_pos _) w, ih _⟩

/-! ## Each arrangement comes once -/

theorem swap_append {m : List α} {i j : Nat} (hi : i < m.length) (hj : j < m.length)
    (rest : List α) : swap (m ++ rest) i j = swap m i j ++ rest := by
  simp [swap, hi, hj, List.getElem?_append_left, List.set_append_left]

theorem length_swap (l : List α) (i j : Nat) : (swap l i j).length = l.length :=
  (swap_perm l i j).length_eq

/-- The places for the first entries leave those behind them alone. -/
theorem shuffleBy_append {k : Nat} {places : List Nat} (hplaces : places ∈ allPlaces k) {m : List α}
    (hm : k < m.length) (rest : List α) :
    shuffleBy places (m ++ rest) = shuffleBy places m ++ rest := by
  induction k generalizing places m with
  | zero =>
      obtain rfl := Finset.mem_singleton.1 hplaces
      rfl
  | succ k ih =>
      obtain ⟨j, others, rfl, hj, hothers⟩ := mem_allPlaces_succ.1 hplaces
      obtain ⟨hlength, -⟩ := mem_allPlaces.1 hothers
      have hswapped : k < (swap m (k + 1) j).length := by
        rw [length_swap]
        omega
      rw [shuffleBy, shuffleBy, hlength, swap_append hm (by omega), ih hothers hswapped]

theorem swap_of_lt {l : List α} {i j : Nat} (hi : i < l.length) (hj : j < l.length) :
    swap l i j = (l.set i l[j]).set j l[i] := by
  rw [swap, List.getElem?_eq_getElem hi, List.getElem?_eq_getElem hj]

/-- An exchange with the last place puts the drawn entry there. -/
theorem swap_last {k j : Nat} {l : List α} (hlength : l.length = k + 2) (hj : j < l.length) :
    (swap l (k + 1) j).dropLast ++ [l[j]] = swap l (k + 1) j := by
  have hswapped : (swap l (k + 1) j).length = k + 2 := (length_swap l _ j).trans hlength
  have hne : swap l (k + 1) j ≠ [] := List.ne_nil_of_length_eq_add_one hswapped
  have hlast : (swap l (k + 1) j).getLast hne = l[j] := by
    have hk : k + 1 < l.length := by omega
    simp only [List.getLast_eq_getElem, swap_of_lt hk hj, List.length_set, hlength,
      List.getElem_set]
    split
    · rename_i heq
      simp only [heq]
      rfl
    · simp
  rw [← hlast, List.dropLast_append_getLast]

theorem length_dropLast_swap {k : Nat} {l : List α} (hlength : l.length = k + 2) (j : Nat) :
    (swap l (k + 1) j).dropLast.length = k + 1 := by
  rw [List.length_dropLast, length_swap, hlength]
  rfl

/-- The first place decides on the last entry, and the others arrange those before it. -/
theorem shuffleBy_cons {k j : Nat} {places : List Nat} (hplaces : places ∈ allPlaces k) {l : List α}
    (hlength : l.length = k + 2) (hj : j < l.length) :
    shuffleBy (j :: places) l = shuffleBy places (swap l (k + 1) j).dropLast ++ [l[j]] := by
  have hfront : k < (swap l (k + 1) j).dropLast.length := by
    rw [length_dropLast_swap hlength]
    exact Nat.lt_succ_self k
  obtain ⟨hk, -⟩ := mem_allPlaces.1 hplaces
  rw [← shuffleBy_append hplaces hfront, swap_last hlength hj, shuffleBy, hk]

/-- Different places give different arrangements. -/
theorem shuffleBy_injOn {k : Nat} {l : List α} (hl : l.Nodup) (hlength : l.length = k + 1) :
    Set.InjOn (shuffleBy · l) (allPlaces k : Set (List Nat)) := by
  induction k generalizing l with
  | zero =>
      intro places hplaces others hothers _
      rw [Finset.mem_singleton.1 hplaces, Finset.mem_singleton.1 hothers]
  | succ k ih =>
      intro places hplaces others hothers hsame
      obtain ⟨i, rest, rfl, hi, hrest⟩ := mem_allPlaces_succ.1 hplaces
      obtain ⟨j, rest', rfl, hj, hrest'⟩ := mem_allPlaces_succ.1 hothers
      have hil : i < l.length := hlength ▸ hi
      have hjl : j < l.length := hlength ▸ hj
      change shuffleBy (i :: rest) l = shuffleBy (j :: rest') l at hsame
      rw [shuffleBy_cons hrest hlength hil, shuffleBy_cons hrest' hlength hjl] at hsame
      obtain ⟨hfront, hlast⟩ := List.append_inj' hsame rfl
      obtain rfl : i = j := hl.getElem_inj_iff.1 (List.singleton_inj.1 hlast)
      have hnodup : (swap l (k + 1) i).dropLast.Nodup :=
        ((swap_perm l _ i).nodup_iff.2 hl).sublist (List.dropLast_sublist _)
      rw [ih hnodup (length_dropLast_swap hlength i) hrest hrest' hfront]

/-- Every arrangement comes from some places. -/
theorem exists_shuffleBy_eq {k : Nat} {l l' : List α} (hlength : l.length = k + 1)
    (h : l'.Perm l) : ∃ places ∈ allPlaces k, shuffleBy places l = l' := by
  induction k generalizing l l' with
  | zero =>
      obtain ⟨a, rfl⟩ := List.length_eq_one_iff.1 hlength
      exact ⟨[], Finset.mem_singleton_self _, (List.perm_singleton.1 h).symm⟩
  | succ k ih =>
      obtain ⟨front, a, rfl⟩ : ∃ front a, l' = front ++ [a] := by
        have hne : l' ≠ [] := List.ne_nil_of_length_eq_add_one (h.length_eq.trans hlength)
        exact ⟨l'.dropLast, l'.getLast hne, (List.dropLast_append_getLast hne).symm⟩
      have ha : a ∈ l := h.subset (List.mem_append_right front List.mem_cons_self)
      obtain ⟨j, hj, rfl⟩ := List.getElem_of_mem ha
      have hfront : front.Perm (swap l (k + 1) j).dropLast := by
        rw [← List.perm_append_right_iff [l[j]], swap_last hlength hj]
        exact h.trans (swap_perm l _ j).symm
      obtain ⟨rest, hrest, harranged⟩ := ih (length_dropLast_swap hlength j) hfront
      refine ⟨j :: rest, mem_allPlaces_succ.2 ⟨j, rest, rfl, hlength ▸ hj, hrest⟩, ?_⟩
      rw [shuffleBy_cons hrest hlength hj, harranged]

/-! ## How many places give a choice -/

section Counts

variable [DecidableEq α]

/-- The places of a shuffle run through the arrangements of the list. -/
theorem image_shuffleBy {k : Nat} {l : List α} (hlength : l.length = k + 1) :
    (allPlaces k).image (shuffleBy · l) = l.permutations.toFinset := by
  ext l'
  rw [Finset.mem_image, List.mem_toFinset, List.mem_permutations]
  constructor
  · rintro ⟨places, -, rfl⟩
    exact shuffleBy_perm places l
  · exact exists_shuffleBy_eq hlength

/-- As many places give an arrangement of a kind as there are arrangements of this kind. -/
theorem card_filter_shuffleBy {k : Nat} {l : List α} (hl : l.Nodup) (hlength : l.length = k + 1)
    (kind : List α → Prop) [DecidablePred kind] :
    ((allPlaces k).filter fun places => kind (shuffleBy places l)).card =
      (l.permutations.toFinset.filter kind).card := by
  have hinjective : Set.InjOn (shuffleBy · l)
      ((allPlaces k).filter fun places => kind (shuffleBy places l) : Set (List Nat)) :=
    (shuffleBy_injOn hl hlength).mono fun _ h => (Finset.mem_filter.1 h).1
  rw [← image_shuffleBy hlength, Finset.filter_image, Finset.card_image_of_injOn hinjective]

/-- The arrangements that begin with given entries are those of the other entries. -/
theorem card_permutations_take {l chosen : List α} (hl : l.Nodup) (hchosen : chosen.Nodup)
    (hsub : chosen ⊆ l) :
    (l.permutations.toFinset.filter fun l' => l'.take chosen.length = chosen).card =
      (l.length - chosen.length)! := by
  obtain ⟨front, hfront, hsublist⟩ := List.subperm_of_subset hchosen hsub
  obtain ⟨rest, hrest⟩ := hsublist.exists_perm_append
  have hparts : l.Perm (chosen ++ rest) := hrest.trans (hfront.append_right rest)
  have hnodup : rest.Nodup := (List.nodup_append.1 (hparts.nodup_iff.1 hl)).2.1
  have hbegin : (l.permutations.toFinset.filter fun l' => l'.take chosen.length = chosen) =
      rest.permutations.toFinset.image (chosen ++ ·) := by
    ext l'
    simp only [Finset.mem_filter, List.mem_toFinset, List.mem_permutations, Finset.mem_image]
    constructor
    · rintro ⟨hperm, htake⟩
      refine ⟨l'.drop chosen.length, ?_, ?_⟩
      · rw [← List.perm_append_left_iff chosen]
        nth_rewrite 1 [← htake]
        rw [List.take_append_drop]
        exact hperm.trans hparts
      · nth_rewrite 1 [← htake]
        exact List.take_append_drop _ l'
    · rintro ⟨rest', hperm, rfl⟩
      exact ⟨((List.perm_append_left_iff chosen).2 hperm).trans hparts.symm, List.take_left⟩
  have hlength : l.length - chosen.length = rest.length := by
    rw [hparts.length_eq, List.length_append, Nat.add_sub_cancel_left]
  rw [hbegin, Finset.card_image_of_injective _ (List.append_right_injective chosen),
    List.toFinset_card_of_nodup (List.nodup_permutations rest hnodup), List.length_permutations,
    hlength]

/-- How many places put given entries first. -/
theorem card_filter_take {k : Nat} {l chosen : List α} (hl : l.Nodup) (hlength : l.length = k + 1)
    (hchosen : chosen.Nodup) (hsub : chosen ⊆ l) :
    ((allPlaces k).filter fun places =>
      (shuffleBy places l).take chosen.length = chosen).card = (l.length - chosen.length)! :=
  (card_filter_shuffleBy hl hlength fun l' => l'.take chosen.length = chosen).trans
    (card_permutations_take hl hchosen hsub)

/-- How many places put a given entry first. -/
theorem card_filter_head? {k : Nat} {l : List α} (hl : l.Nodup) (hlength : l.length = k + 1)
    {a : α} (ha : a ∈ l) :
    ((allPlaces k).filter fun places => (shuffleBy places l).head? = some a).card = k ! := by
  have hfirst : ∀ l' : List α, l'.head? = some a ↔ l'.take [a].length = [a] := by
    intro l'
    cases l' with
    | nil => simp
    | cons b rest => simp
  have hsub : [a] ⊆ l := List.cons_subset.2 ⟨ha, List.nil_subset l⟩
  simp only [hfirst]
  rw [card_filter_take hl hlength (List.nodup_singleton a) hsub, hlength]
  rfl

end Counts

end Draw

namespace Words

/-! ## Picks -/

section Picks

variable {α : Type} [LT α] [DecidableEq α]

/-- Somebody picked alone is the first one of a shuffle. -/
theorem pickOne_eq_head? (pool exclude : Ascending α) (w : Words) :
    (w.pickOne pool exclude).1 =
      (Draw.shuffleBy (w.places ((pool.diff exclude).size - 1)).1
        (pool.diff exclude).toList).head? := by
  rw [pickOne]
  by_cases hmany : 1 < (pool.diff exclude).size
  · rw [pick_of_lt w hmany]
    exact List.head?_take.trans (if_neg Nat.one_ne_zero)
  · have hfew : (pool.diff exclude).size ≤ 1 := Nat.not_lt.1 hmany
    rw [pick_of_le w hfew, Nat.sub_eq_zero_of_le hfew]
    rfl

variable [LE α] [Std.LawfulOrderLT α]

/-- **Picks are fair.**  Of `n` eligible candidates a pick with a lower limit, and somebody who is
picked alone, depend on the stream only by the `n - 1` places that are drawn: the first below `n`,
the next below `n - 1`, and so on down to 2.  There are `n !` lists of such places.  Every choice
of different candidates in any order comes from equally many of them, and so does every candidate
who is picked alone.

A place below `m` is drawn as the index of the first word that counts.  With `z` the leading zeros
of `m`, every index below `m` is that of `2 ^ z` of the words that count. -/
theorem picks_are_fair (pool exclude : Ascending α) :
    let eligible := pool.diff exclude
    let n := eligible.size
    (∀ places, places ∈ Draw.allPlaces (n - 1) ↔
      places.length = n - 1 ∧ ∀ i j, places[i]? = some j → j < n - i) ∧
    (Draw.allPlaces (n - 1)).card = n ! ∧
    (∀ w : Words, (w.places (n - 1)).1 ∈ Draw.allPlaces (n - 1) ∧
      (∀ limit < n, (w.pick pool exclude limit).1 =
        (Draw.shuffleBy (w.places (n - 1)).1 eligible.toList).take limit) ∧
      (w.pickOne pool exclude).1 =
        (Draw.shuffleBy (w.places (n - 1)).1 eligible.toList).head?) ∧
    (∀ limit < n, ∀ chosen : List α, chosen.Nodup → chosen.length = limit →
      (∀ a ∈ chosen, a ∈ eligible) →
      ((Draw.allPlaces (n - 1)).filter fun places =>
        (Draw.shuffleBy places eligible.toList).take limit = chosen).card = (n - limit)!) ∧
    (∀ a ∈ eligible, ((Draw.allPlaces (n - 1)).filter fun places =>
      (Draw.shuffleBy places eligible.toList).head? = some a).card = (n - 1)!) ∧
    ∀ m, 0 < m → m < Draw.wordCount →
      (2 ^ 31 ≤ m * 2 ^ Draw.leadingZeros m ∧ m * 2 ^ Draw.leadingZeros m < 2 ^ 32) ∧
      (∀ i < m, (Draw.wordsFor m i).card = 2 ^ Draw.leadingZeros m) ∧
      ∀ w : Words, ∃ j, (∀ i < j, Draw.accepts m (w.skip i).next.1.toNat = false) ∧
        Draw.accepts m (w.skip j).next.1.toNat = true ∧
        (w.indexBelow m).1 = Draw.index m (w.skip j).next.1.toNat := by
  intro eligible n
  have hnodup : eligible.toList.Nodup := eligible.nodup
  have hplaces : ∀ {a}, a ∈ eligible → eligible.toList.length = n - 1 + 1 := by
    intro a ha
    have hpos : 0 < eligible.toList.length := List.length_pos_of_mem ha
    exact (Nat.sub_add_cancel hpos).symm
  refine ⟨fun places => ?_, ?_, fun w => ⟨Draw.places_mem_allPlaces _ w, fun limit hlimit => ?_,
    pickOne_eq_head? pool exclude w⟩, fun limit hlimit chosen hchosen hlength hsub => ?_,
    fun a ha => Draw.card_filter_head? hnodup (hplaces ha) ha,
    fun m hm hlt => ⟨Draw.shifted_bounds hm hlt,
      fun i hi => Draw.card_wordsFor hm hlt hi, fun w => ?_⟩⟩
  · rw [Draw.mem_allPlaces]
    refine and_congr_right fun hlength => ?_
    rcases Nat.eq_zero_or_pos n with hzero | hpos
    · rw [hzero] at hlength
      obtain rfl := List.length_eq_zero_iff.1 hlength
      simp
    · rw [Nat.sub_add_cancel hpos]
  · rw [Draw.card_allPlaces]
    cases n with
    | zero => rfl
    | succ n => rfl
  · rw [pick_of_lt w hlimit]
    rfl
  · subst hlength
    have hlength : eligible.toList.length = n - 1 + 1 :=
      (Nat.sub_add_cancel (Nat.zero_lt_of_lt hlimit)).symm
    exact Draw.card_filter_take hnodup hlength hchosen hsub
  · obtain ⟨j, hskipped, hcounts, hindex⟩ := Draw.exists_indexBelow_eq m w
    exact ⟨j, hskipped, hcounts, congrArg Prod.fst hindex⟩

end Picks

/-- Two of three candidates come in each order from one of six lists of places, and each of them
alone from two. -/
theorem threeCandidates_picked_fairly :
    let pool : Ascending String := .ofList ["a", "b", "c"]
    let shuffled := fun places => Draw.shuffleBy places ["a", "b", "c"]
    (Draw.allPlaces 2).card = 6 ∧
      ((Draw.allPlaces 2).filter fun places => (shuffled places).take 2 = ["c", "a"]).card = 1 ∧
      ((Draw.allPlaces 2).filter fun places => (shuffled places).head? = some "b").card = 2 ∧
      (∀ w : Words, (w.pick pool ∅ 2).1 = (shuffled (w.places 2).1).take 2) ∧
      (Draw.wordsFor 3 2).card = 2 ^ 30 := by
  intro pool shuffled
  have heligible : (pool.diff ∅).toList = ["a", "b", "c"] := by decide
  have hsize : (pool.diff ∅).size = 3 := by decide
  obtain ⟨-, hall, hplaces, hchosen, halone, hindices⟩ := picks_are_fair pool ∅
  simp only [heligible, hsize] at hall hplaces hchosen halone
  refine ⟨hall, ?_, ?_, fun w => (hplaces w).2.1 2 (by decide), ?_⟩
  · exact hchosen 2 (by decide) ["c", "a"] (by decide) rfl (by decide)
  · exact halone "b" (by decide)
  · exact (hindices 3 (by decide) (by decide)).2.1 2 (by decide)

end Words

end ReviewDesk
