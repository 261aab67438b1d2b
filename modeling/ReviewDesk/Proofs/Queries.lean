import ReviewDesk.Deactivation
import ReviewDesk.Proofs.Listings

/-!
# What queries come to

The store is asked for rows in the way in which rows can be had: a table is joined with the
reviews, joined rows are grouped and counted, and maps are filled one row after the other.
What the answer says is simpler than the way it is found.  This file proves for each of these
queries what it comes to, so that nothing else has to look at joins, groups or loops.

Keys are what makes them simple.  An inner join brings a pull request once for each review of
the user, and there is only one because a review is stored once.  A grouped left join makes one
group for each label, and no two rows share a label that holds their key.

* `reviewedRows_eq` — the pull requests joined with the reviews of a user are those that the
  user reviews, each once;
* `talliesOf_eq` — a grouped left join has a tally for each row, and the tally counts the
  reviews that belong to it;
* `affectedBy_eq` — the affected pull requests, filled step by step, are the open ones that
  one of the users reviews, with all their reviewers.
-/

namespace ReviewDesk

variable {α : Type}

/-! ## Joined rows -/

namespace Store

/-- Reviews are stored once, so no pull request is joined with two reviews of one user. -/
theorem reviewedRows_eq {s : Store} (hkeys : s.reviews.Nodup) (user : UserId) :
    s.reviewedRows user = s.pulls.filter fun p => ⟨p.id, user⟩ ∈ s.reviews := by
  have hrow : ∀ p : StoredPull,
      (((s.reviews.filter fun r => r.pull = p.id).map (p, ·)).filter (·.2.user = user)).map (·.1) =
        if (⟨p.id, user⟩ : Review) ∈ s.reviews then [p] else [] := by
    intro p
    have hfound : (s.reviews.filter fun r => r.pull = p.id).filter (·.user = user) =
        s.reviews.filter (· = ⟨p.id, user⟩) := by
      rw [List.filter_filter]
      refine List.filter_congr fun r _ => ?_
      cases r
      simp [Bool.and_comm]
    have honce : (s.reviews.filter (· = (⟨p.id, user⟩ : Review))).length =
        if (⟨p.id, user⟩ : Review) ∈ s.reviews then 1 else 0 := by
      rw [← List.countP_eq_length_filter]
      exact hkeys.count
    rw [List.filter_map, List.map_map, Function.comp_def, List.map_const']
    simp only [Function.comp_def, hfound, honce]
    split <;> rfl
  rw [reviewedRows, innerJoin, List.filter_flatMap, List.map_flatMap]
  simp only [hrow]
  induction s.pulls with
  | nil => rfl
  | cons p rest ih =>
      rw [List.flatMap_cons, ih, List.filter_cons]
      by_cases hmem : (⟨p.id, user⟩ : Review) ∈ s.reviews <;> simp [hmem]

end Store

/-! ## Groups -/

theorem nodup_eraseDups [BEq α] [LawfulBEq α] : ∀ l : List α, l.eraseDups.Nodup
  | [] => List.nodup_nil
  | a :: rest => by
      rw [List.eraseDups_cons, List.nodup_cons, List.mem_eraseDups]
      exact ⟨by simp, nodup_eraseDups _⟩
termination_by l => l.length
decreasing_by exact Nat.lt_succ_of_le (List.length_filter_le _ _)

variable {κ : Type} {label : α → κ} {belongs : α → Review → Bool}
  {rows : List α} {reviews : List Review}

/-- Every row of the table comes along in a left join, so the labels that occur are theirs. -/
theorem labels_leftJoin :
    ∀ k, k ∈ ((leftJoin rows reviews belongs).map fun e => (label e.1, e.2)).map Prod.fst ↔
      k ∈ rows.map label := by
  intro k
  have hsome : ∀ a, partners reviews (belongs a) ≠ [] := by
    intro a
    rw [partners]
    split <;> simp_all
  simp only [leftJoin, List.map_map, List.mem_map, List.mem_flatMap, Function.comp]
  constructor
  · rintro ⟨_, ⟨a, ha, _, -, rfl⟩, rfl⟩
    exact ⟨a, ha, rfl⟩
  · rintro ⟨a, ha, rfl⟩
    obtain ⟨partner, hpartner⟩ := List.exists_mem_of_ne_nil _ (hsome a)
    exact ⟨_, ⟨a, ha, partner, hpartner, rfl⟩, rfl⟩

variable [DecidableEq κ]

/-- The group of a row counts the reviews that belong to it. -/
theorem countP_group (hlabels : (rows.map label).Nodup) {a : α} (ha : a ∈ rows) :
    ((leftJoin rows reviews belongs).map fun e => (label e.1, e.2)).countP
      (fun e => e.1 = label a ∧ e.2.isSome) = reviews.countP (belongs a) := by
  have hown : ∀ b, label b = label a →
      (((partners reviews (belongs b)).map (b, ·)).map fun e => (label e.1, e.2)).countP
        (fun e => e.1 = label a ∧ e.2.isSome) = reviews.countP (belongs b) := by
    intro b hb
    rw [← countP_partners, List.map_map, List.countP_map]
    exact List.countP_congr fun partner _ => by simp [hb]
  have hother : ∀ b, label b ≠ label a →
      (((partners reviews (belongs b)).map (b, ·)).map fun e => (label e.1, e.2)).countP
        (fun e => e.1 = label a ∧ e.2.isSome) = 0 := by
    intro b hb
    refine List.countP_eq_zero.2 fun e he => ?_
    rw [List.map_map] at he
    obtain ⟨_, -, rfl⟩ := List.mem_map.1 he
    simp [hb]
  induction rows with
  | nil => cases ha
  | cons b rest ih =>
      obtain ⟨hnew, hrest⟩ := List.nodup_cons.1 hlabels
      have hsplit : leftJoin (b :: rest) reviews belongs =
          (partners reviews (belongs b)).map (b, ·) ++ leftJoin rest reviews belongs :=
        List.flatMap_cons
      rw [hsplit, List.map_append, List.countP_append]
      rcases List.mem_cons.1 ha with rfl | ha
      · have hnone : ((leftJoin rest reviews belongs).map fun e => (label e.1, e.2)).countP
            (fun e => e.1 = label a ∧ e.2.isSome) = 0 := by
          refine List.countP_eq_zero.2 fun e he hcounted => hnew ?_
          have hlabel : e.1 = label a := (of_decide_eq_true hcounted).1
          exact hlabel ▸ (labels_leftJoin e.1).1 (List.mem_map_of_mem he)
        rw [hown a rfl, hnone, Nat.add_zero]
      · have hne : label b ≠ label a := fun heq => hnew (heq ▸ List.mem_map_of_mem ha)
        rw [hother b hne, ih hrest ha, Nat.zero_add]

/-- Rows with labels of their own make one group each. -/
theorem countByLabel_perm (hlabels : (rows.map label).Nodup) :
    (countByLabel ((leftJoin rows reviews belongs).map fun e => (label e.1, e.2))).Perm
      (rows.map fun a => (label a, reviews.countP (belongs a))) := by
  have hgroups : (((leftJoin rows reviews belongs).map fun e => (label e.1, e.2)).map
      Prod.fst).eraseDups.Perm (rows.map label) := by
    refine (List.perm_ext_iff_of_nodup (nodup_eraseDups _) hlabels).2 fun k => ?_
    rw [List.mem_eraseDups]
    exact labels_leftJoin k
  refine (hgroups.map _).trans ?_
  rw [List.map_map]
  refine List.Perm.of_eq (List.map_congr_left fun a ha => ?_)
  exact congrArg (label a, ·) (countP_group hlabels ha)

namespace Store

variable {s : Store}

/-- Rows with ids of their own are tallied one by one. -/
theorem talliesOf_eq {label : α → String × String} (hids : (rows.map fun a => (label a).1).Nodup) :
    s.talliesOf rows label belongs = arrange Tally.isListedBefore
      (rows.map fun a => ⟨(label a).1, (label a).2, s.reviews.countP (belongs a)⟩) := by
  have hlabels : (rows.map label).Nodup := by
    refine List.Nodup.of_map Prod.fst ?_
    rw [List.map_map]
    exact hids
  have hgroups : (countByLabel ((leftJoin rows s.reviews belongs).map fun e =>
      (label e.1, e.2))).Perm (rows.map fun a => (label a, s.reviews.countP (belongs a))) :=
    countByLabel_perm hlabels
  have hperm := hgroups.map fun g => (⟨g.1.1, g.1.2, g.2⟩ : Tally)
  rw [List.map_map] at hperm
  refine (arrange_tallies ?_ hperm.symm).symm
  rw [List.map_map]
  exact hids

end Store

/-! ## Affected pull requests -/

namespace Affected

theorem ext {a b : Affected} (hauthor : a.author = b.author)
    (hreviewers : ∀ user, user ∈ a.reviewers ↔ user ∈ b.reviewers) : a = b := by
  cases a
  cases b
  exact Affected.mk.injEq .. ▸ ⟨hauthor, Ascending.ext hreviewers⟩

/-- Reviews entered one after the other add their users. -/
theorem foldl_withReviewer (reviews : List Review) (a : Affected) :
    (reviews.foldl (fun a r => a.withReviewer r.user) a).author = a.author ∧
      ∀ user, user ∈ (reviews.foldl (fun a r => a.withReviewer r.user) a).reviewers ↔
        user ∈ a.reviewers ∨ ∃ r ∈ reviews, r.user = user := by
  induction reviews generalizing a with
  | nil => simp
  | cons r rest ih =>
      obtain ⟨hauthor, hreviewers⟩ := ih (a.withReviewer r.user)
      refine ⟨hauthor, fun user => ?_⟩
      rw [List.foldl_cons, hreviewers, withReviewer, Ascending.mem_insert, eq_comm (a := user),
        or_comm (a := r.user = user), or_assoc]
      simp only [List.mem_cons, exists_eq_or_imp]

/-- Reviews entered into a map change the pull requests that they name. -/
theorem get?_foldl_modify (reviews : List Review) (m : Keyed PullId Affected) (id : PullId) :
    (reviews.foldl (fun m r => m.modify r.pull (·.withReviewer r.user)) m).get? id =
      (m.get? id).map ((reviews.filter (·.pull = id)).foldl fun a r => a.withReviewer r.user) := by
  induction reviews generalizing m with
  | nil => simp
  | cons r rest ih =>
      rw [List.foldl_cons, ih, Keyed.get?_modify, Option.map_map]
      refine congrArg (Option.map · (m.get? id)) (funext fun a => ?_)
      by_cases hid : r.pull = id
      · simp [hid]
      · simp [hid, Ne.symm hid]

end Affected

namespace Store

/-- Whether a stored pull request is open and someone of `users` reviews it. -/
def isAffected (s : Store) (users : Ascending UserId) (p : StoredPull) : Bool :=
  p.status = Status.opened.text ∧ s.reviews.any fun r => r.pull = p.id ∧ r.user ∈ users

/-- The pull requests that are affected, with their reviewers. -/
def affected (s : Store) (users : Ascending UserId) : Keyed PullId Affected :=
  .ofList ((s.pulls.filter (s.isAffected users)).map fun p =>
    (p.id, ⟨p.author, s.reviewersIn p.id⟩))

variable {s : Store}

theorem isAffected_iff {users : Ascending UserId} {p : StoredPull} :
    s.isAffected users p = true ↔
      p.status = Status.opened.text ∧ ∃ r ∈ s.reviews, r.pull = p.id ∧ r.user ∈ users := by
  simp [isAffected]

/-- The reviewers of listed pull requests, entered review by review, are all their reviewers. -/
theorem foldl_modify_eq (pulls : List StoredPull) :
    let bare : Keyed PullId Affected := .ofList (pulls.map fun p => (p.id, ⟨p.author, ∅⟩))
    (s.reviews.filter (·.pull ∈ bare.keys)).foldl
        (fun m r => m.modify r.pull (·.withReviewer r.user)) bare =
      .ofList (pulls.map fun p => (p.id, ⟨p.author, s.reviewersIn p.id⟩)) := by
  intro bare
  refine Keyed.ext_get? fun id => ?_
  have hbare := Keyed.get?_ofList_map StoredPull.id StoredPull.author
    (fun _ author => (⟨author, ∅⟩ : Affected)) pulls id
  have hfull := Keyed.get?_ofList_map StoredPull.id StoredPull.author
    (fun id author => (⟨author, s.reviewersIn id⟩ : Affected)) pulls id
  rw [Affected.get?_foldl_modify, hfull, hbare]
  cases hauthor : (Keyed.ofList (pulls.map fun p => (p.id, p.author))).get? id with
  | none => rfl
  | some author =>
      have hlisted : id ∈ bare.keys := by
        rw [Keyed.mem_keys_iff, hbare, hauthor]
        exact ⟨_, rfl⟩
      obtain ⟨hsame, hreviewers⟩ := Affected.foldl_withReviewer
        ((s.reviews.filter (·.pull ∈ bare.keys)).filter (·.pull = id)) ⟨author, ∅⟩
      refine congrArg some (Affected.ext hsame fun user => (hreviewers user).trans ?_)
      rw [mem_reviewersIn]
      simp only [Ascending.not_mem_empty, false_or, List.mem_filter, decide_eq_true_eq]
      constructor
      · rintro ⟨r, ⟨⟨hr, -⟩, rfl⟩, rfl⟩
        exact hr
      · exact fun hr => ⟨_, ⟨⟨hr, hlisted⟩, rfl⟩, rfl⟩

/-- The reviews need the pull requests, so where they can be read these can. -/
theorem has_pulls_of_has_reviews (h : s.has .reviews = true) : s.has .pulls = true := by
  rw [has, Bool.and_eq_true, decide_eq_true_iff] at h ⊢
  obtain ⟨hopen, hmigrated⟩ := h
  exact ⟨hopen, Nat.lt_trans (by decide) hmigrated⟩

/-- **Affected pull requests.**  Read step by step, they are the open pull requests that someone
of the users reviews, each with its author and all its reviewers. -/
theorem affectedBy_eq (s : Store) (users : Ascending UserId) :
    s.affectedBy users = s.reading .reviews (.ok (s.affected users)) := by
  by_cases hreviews : s.has .reviews = true
  · have hpulls := has_pulls_of_has_reviews hreviews
    let ids := Ascending.ofList ((s.reviews.filter (·.user ∈ users)).map (·.pull))
    have hids : ∀ id, id ∈ ids ↔ ∃ r ∈ s.reviews, r.pull = id ∧ r.user ∈ users := by
      intro id
      simp only [ids, Ascending.mem_ofList, List.mem_map, List.mem_filter, decide_eq_true_eq]
      constructor
      · rintro ⟨r, ⟨hr, huser⟩, hid⟩
        exact ⟨r, hr, hid, huser⟩
      · rintro ⟨r, hr, hid, huser⟩
        exact ⟨r, ⟨hr, huser⟩, hid⟩
    have hopened : s.pulls.filter (fun p => p.id ∈ ids ∧ p.status = Status.opened.text) =
        s.pulls.filter (s.isAffected users) := by
      refine List.filter_congr fun p _ => ?_
      rw [Bool.eq_iff_iff, decide_eq_true_iff, isAffected_iff, hids, and_comm]
    let bare : Keyed PullId Affected :=
      .ofList ((s.pulls.filter (s.isAffected users)).map fun p => (p.id, ⟨p.author, ∅⟩))
    have hsteps : s.affectedBy users = if ids.isEmpty then .ok ∅ else
        if bare.isEmpty then .ok bare else
          .ok ((s.reviews.filter (·.pull ∈ bare.keys)).foldl
            (fun m r => m.modify r.pull (·.withReviewer r.user)) bare) := by
      simp only [bare, ← hopened, affectedBy, reading, hreviews, hpulls, if_true]
      rfl
    have hfilled : (s.reviews.filter (·.pull ∈ bare.keys)).foldl
        (fun m r => m.modify r.pull (·.withReviewer r.user)) bare = s.affected users :=
      foldl_modify_eq (s.pulls.filter (s.isAffected users))
    rw [hsteps, reading, if_pos hreviews]
    split
    · -- nobody of the users reviews anything, so nothing is affected
      rename_i hempty
      have hnone : s.pulls.filter (s.isAffected users) = [] := by
        rw [← hopened, Ascending.eq_empty_of_isEmpty hempty]
        exact List.filter_eq_nil_iff.2 fun p _ => by simp [Ascending.not_mem_empty]
      rw [affected, hnone]
      rfl
    · split
      · -- no reviews are entered where no pull request is
        rename_i hempty
        have hnone : s.reviews.filter (·.pull ∈ bare.keys) = [] := by
          rw [Keyed.eq_empty_of_isEmpty hempty]
          exact List.filter_eq_nil_iff.2 fun r _ => by simp [Ascending.not_mem_empty]
        rw [hnone] at hfilled
        exact congrArg Except.ok hfilled
      · exact congrArg Except.ok hfilled
  · have hreviews : s.has .reviews = false := by simpa using hreviews
    simp [affectedBy, reading, hreviews, bind, Except.bind]

end Store

end ReviewDesk
