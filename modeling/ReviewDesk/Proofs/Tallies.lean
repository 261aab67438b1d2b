import Mathlib.Algebra.BigOperators.Group.Finset.Basic
import Mathlib.Algebra.GroupWithZero.Nat
import ReviewDesk.Proofs.Listings
import ReviewDesk.Proofs.Log
import ReviewDesk.Proofs.Refusals

/-!
# The counts agree with the lists

What the desk counts can also be found by asking one by one: what a user reviews, and who
reviews a pull request.  The counts come from the review rows, each taken for itself, while
the lists are read through the pull requests or as sets.  Both tell the same, since a review
row is there only once and both its sides exist.

A breakdown is the same thing for users and for pull requests: one tally for each row, in the
order of the counts.  As every review belongs to one user and to one pull request who are
listed, the tallies of each breakdown add up to the number of all reviews.

* `breaksDown_arrange`, `BreaksDown.sum_eq` — what holds of both breakdowns;
* `length_reviewed`, `reviewerCount_eq_size` — the counts as lengths of lists;
* `Sound.stats_agree` — the counts of a sound store;
* `counts_agree` — the counts after every history.
-/

namespace ReviewDesk

/-! ## Breakdowns -/

/-- Entries with a key are as many as its places in the list of all keys. -/
theorem countP_key {α κ : Type} [DecidableEq κ] (key : α → κ) (l : List α) (k : κ) :
    l.countP (fun a => key a = k) = (l.map key).count k := by
  rw [List.count, List.countP_map]
  exact List.countP_congr fun a _ => by simp

/-- If the keys are distinct and every entry is one of them, then counting the entries key by key
counts each once. -/
theorem sum_map_count {κ : Type} [DecidableEq κ] {keys entries : List κ} (hkeys : keys.Nodup)
    (hall : entries ⊆ keys) : (keys.map fun k => entries.count k).sum = entries.length := by
  have hmem : ∀ k ∈ (↑entries : Multiset κ), k ∈ keys.toFinset := fun k hk =>
    List.mem_toFinset.2 (hall (Multiset.mem_coe.1 hk))
  calc (keys.map fun k => entries.count k).sum
      = ∑ k ∈ keys.toFinset, (↑entries : Multiset κ).count k := by
        simp only [Multiset.coe_count, List.sum_toFinset _ hkeys]
    _ = entries.length := by rw [Multiset.sum_count_eq_card hmem, Multiset.coe_card]

namespace Tally

/-- The tallies of entries by key: one for each row with an id and a name, and in the order of the
counts. -/
structure BreaksDown (tallies : List Tally) (rows : List (String × String))
    (entries : List String) : Prop where
  rows : (tallies.map fun t => (t.id, t.name)).Perm rows
  distinct : (tallies.map (·.id)).Nodup
  counts : ∀ t ∈ tallies, t.count = entries.count t.id
  ordered : tallies.Pairwise fun s t => t.count < s.count ∨ s.count = t.count ∧ s.id < t.id

variable {tallies : List Tally} {rows : List (String × String)} {entries : List String}

/-- Tallies of rows with ids of their own, arranged, break their counts down. -/
theorem breaksDown_arrange {α : Type} {rows : List α} {label : α → String × String}
    (hids : (rows.map fun a => (label a).1).Nodup) :
    BreaksDown (arrange isListedBefore
        (rows.map fun a => ⟨(label a).1, (label a).2, entries.count (label a).1⟩))
      (rows.map label) entries := by
  let tallies : List Tally :=
    rows.map fun a => ⟨(label a).1, (label a).2, entries.count (label a).1⟩
  have hperm : (arrange isListedBefore tallies).Perm tallies := arrange_perm _ _
  have hdistinct : (tallies.map (·.id)).Nodup := by
    rw [List.map_map]
    exact hids
  exact {
    rows := by
      have hrows := hperm.map fun t => (t.id, t.name)
      rwa [List.map_map] at hrows
    distinct := (hperm.map _).nodup_iff.2 hdistinct
    counts := by
      intro t ht
      obtain ⟨a, -, rfl⟩ := List.mem_map.1 (hperm.mem_iff.1 ht)
      rfl
    ordered := arrange_tallies_strict hdistinct }

namespace BreaksDown

variable (h : BreaksDown tallies rows entries)

include h

/-- A row without entries is tallied with none. -/
theorem mem_of_idle {id name : String} (hrow : (id, name) ∈ rows) (hidle : id ∉ entries) :
    ⟨id, name, 0⟩ ∈ tallies := by
  obtain ⟨⟨_, _, count⟩, ht, heq⟩ := List.mem_map.1 (h.rows.mem_iff.2 hrow)
  obtain ⟨rfl, rfl⟩ := Prod.mk.inj heq
  have hcount : count = entries.count _ := h.counts _ ht
  rw [List.count_eq_zero.2 hidle] at hcount
  exact hcount ▸ ht

/-- The tallies add up if all entries belong to rows. -/
theorem sum_eq (hall : entries ⊆ rows.map Prod.fst) :
    (tallies.map (·.count)).sum = entries.length := by
  have hids : (tallies.map (·.id)).Perm (rows.map Prod.fst) := by
    have hfirst := h.rows.map Prod.fst
    rwa [List.map_map] at hfirst
  have hcounts : tallies.map (·.count) = (tallies.map (·.id)).map fun k => entries.count k := by
    rw [List.map_map]
    exact List.map_congr_left h.counts
  rw [hcounts]
  exact sum_map_count h.distinct fun k hk => hids.mem_iff.2 (hall hk)

end BreaksDown

end Tally

namespace Store

variable {s : Store}

/-! ## Counts and lists -/

/-- The tallies of a table whose rows are named by a column of the reviews. -/
theorem breaksDown_talliesOf (s : Store) {α : Type} {rows : List α} (label : α → String × String)
    (key : Review → String) (hids : (rows.map fun a => (label a).1).Nodup) :
    Tally.BreaksDown (s.talliesOf rows label fun a r => key r = (label a).1) (rows.map label)
      (s.reviews.map key) := by
  rw [talliesOf_eq hids]
  simp only [countP_key]
  exact Tally.breaksDown_arrange hids

/-- In a consistent store a user has as many reviews as there are pull requests that the user
reviews. -/
theorem length_reviewed (hs : s.Consistent) (user : UserId) :
    (s.reviewedRows user).length = s.reviewCount user := by
  rw [reviewedRows_eq hs.reviewKeys]
  -- a pull request for the review of the user that belongs to it
  have hperm : ((s.pulls.filter fun p => ⟨p.id, user⟩ ∈ s.reviews).map
      fun p => (⟨p.id, user⟩ : Review)).Perm (s.reviews.filter (·.user = user)) := by
    refine (List.perm_ext_iff_of_nodup ?_ (hs.reviewKeys.filter _)).2 fun r => ?_
    · refine List.Nodup.of_map (·.pull) ?_
      rw [List.map_map]
      exact nodup_keys_filter _ hs.pullKeys
    · simp only [List.mem_map, List.mem_filter, decide_eq_true_eq]
      constructor
      · rintro ⟨p, ⟨-, hreview⟩, rfl⟩
        exact ⟨hreview, rfl⟩
      · rintro ⟨hreview, rfl⟩
        obtain ⟨p, hp, hid⟩ := List.mem_map.1 (hs.reviewPulls (List.mem_map_of_mem hreview))
        have hsame : (⟨p.id, r.user⟩ : Review) = r := by rw [hid]
        exact ⟨p, ⟨hp, hsame.symm ▸ hreview⟩, hsame⟩
  have hlength := hperm.length_eq
  rwa [List.length_map, ← List.countP_eq_length_filter (p := fun r : Review => _)] at hlength

/-- What a user reviews is as long as the count of the reviews. -/
theorem Sound.exists_reviewsOf (hs : s.Sound) (user : UserId) (w : Words) :
    ∃ l, Desk.reviewsOf user ⟨s, w⟩ = .ok l ⟨s, w⟩ ∧ l.length = s.reviewCount user := by
  rcases hs.reviewsOf w user with ⟨l, o, hanswer⟩ | ⟨f, hf, -⟩
  · obtain ⟨hlist, rfl⟩ := Desk.ask_eq_ok.1 hanswer
    obtain ⟨-, hrows⟩ := reading_eq_ok.1 hlist
    obtain ⟨-, hrows⟩ := reading_eq_ok.1 hrows
    have hstored := congrArg List.length (readPulls_eq_ok_iff.1 hrows)
    rw [List.length_map, (arrange_perm _ _).length_eq, length_reviewed hs.consistent] at hstored
    exact ⟨l, hanswer, hstored.symm⟩
  · cases hf

/-- Every pull request is open or merged, and none is both. -/
theorem opened_add_merged (hreadable : ∀ p ∈ s.pulls, ∃ status : Status, p.status = status.text) :
    s.pulls.countP (·.status = Status.opened.text) + s.pulls.countP (·.status = Status.merged.text)
      = s.pulls.length := by
  rw [List.length_eq_countP_add_countP (·.status = Status.opened.text)]
  refine congrArg _ (List.countP_congr fun p hp => ?_)
  obtain ⟨status, hstatus⟩ := hreadable p hp
  cases status <;> simp [hstatus, Status.text]

end Store

/-! ## What the counts tell -/

/-- Counts tell of a store what its rows and its other reads tell of it. -/
structure Stats.AgreeWith (n : Stats) (s : Store) (w : Words) : Prop where
  teams : n.teams = s.teams.length
  users : n.users = s.users.length
  pulls : n.pulls = s.pulls.length
  opened : n.opened = s.pulls.countP (·.status = "OPEN")
  merged : n.merged = s.pulls.countP (·.status = "MERGED")
  statuses : n.opened + n.merged = n.pulls
  byUser : Tally.BreaksDown n.byUser (s.users.map fun u => (u.id, u.name)) (s.reviews.map (·.user))
  byPull : Tally.BreaksDown n.byPull (s.pulls.map fun p => (p.id, p.name)) (s.reviews.map (·.pull))
  reviewed : ∀ t ∈ n.byUser, ∃ l, Desk.reviewsOf t.id ⟨s, w⟩ = .ok l ⟨s, w⟩ ∧ t.count = l.length
  reviewers : ∀ t ∈ n.byPull, ∃ users,
    Desk.ask (·.reviewersOf t.id) ⟨s, w⟩ = .ok users ⟨s, w⟩ ∧ t.count = users.size
  userSum : (n.byUser.map (·.count)).sum = s.reviews.length
  pullSum : (n.byPull.map (·.count)).sum = s.reviews.length
  /-- A user without reviews is listed. -/
  idle : ∀ u ∈ s.users, u.id ∉ s.reviews.map (·.user) → ⟨u.id, u.name, 0⟩ ∈ n.byUser
  /-- A pull request without reviewers is listed. -/
  bare : ∀ p ∈ s.pulls, p.id ∉ s.reviews.map (·.pull) → ⟨p.id, p.name, 0⟩ ∈ n.byPull

namespace Store

variable {s : Store}

/-- The counts of a sound store agree with its other reads. -/
theorem Sound.stats_agree (hs : s.Sound) (w : Words) :
    ∃ n, Desk.stats ⟨s, w⟩ = .ok n ⟨s, w⟩ ∧ n.AgreeWith s w := by
  obtain ⟨n, hanswer, hcounts⟩ : ∃ n, Desk.stats ⟨s, w⟩ = .ok n ⟨s, w⟩ ∧ s.stats = .ok n := by
    rcases hs.stats w with ⟨n, o, hanswer⟩ | ⟨f, hf, -⟩
    · obtain ⟨hcounts, rfl⟩ := Desk.ask_eq_ok.1 hanswer
      exact ⟨n, hanswer, hcounts⟩
    · cases hf
  refine ⟨n, hanswer, ?_⟩
  simp only [Store.stats, reading_eq_ok, Except.ok.injEq] at hcounts
  obtain ⟨-, -, -, -, rfl⟩ := hcounts
  have hcons := hs.consistent
  have hbyUser := s.breaksDown_talliesOf (fun u : User => (u.id, u.name)) Review.user hcons.userKeys
  have hbyPull :=
    s.breaksDown_talliesOf (fun p : StoredPull => (p.id, p.name)) Review.pull hcons.pullKeys
  exact {
    teams := rfl
    users := rfl
    pulls := rfl
    opened := rfl
    merged := rfl
    statuses := opened_add_merged hs.readable
    byUser := hbyUser
    byPull := hbyPull
    reviewed := by
      intro t ht
      obtain ⟨l, hanswer, hlength⟩ := hs.exists_reviewsOf t.id w
      exact ⟨l, hanswer, by rw [hbyUser.counts t ht, hlength, reviewCount, countP_key]⟩
    reviewers := by
      intro t ht
      have hanswer : s.reviewersOf t.id = .ok (s.reviewersIn t.id) :=
        reading_eq_ok.2 ⟨hs.has .reviews, rfl⟩
      refine ⟨s.reviewersIn t.id, Desk.ask_eq_ok.2 ⟨hanswer, rfl⟩, ?_⟩
      rw [hbyPull.counts t ht, ← countP_key, ← reviewerCount, reviewerCount_eq_size hcons]
    userSum := by
      have hall : s.reviews.map (·.user) ⊆ (s.users.map fun u => (u.id, u.name)).map Prod.fst := by
        rw [List.map_map]
        exact hcons.reviewUsers
      exact (hbyUser.sum_eq hall).trans (List.length_map _)
    pullSum := by
      have hall : s.reviews.map (·.pull) ⊆ (s.pulls.map fun p => (p.id, p.name)).map Prod.fst := by
        rw [List.map_map]
        exact hcons.reviewPulls
      exact (hbyPull.sum_eq hall).trans (List.length_map _)
    idle := fun u hu hidle => hbyUser.mem_of_idle (List.mem_map.2 ⟨u, hu, rfl⟩) hidle
    bare := fun p hp hbare => hbyPull.mem_of_idle (List.mem_map.2 ⟨p, hp, rfl⟩) hbare }

/-- **The counts agree with the lists.**  After every history from the empty store, the desk
counts, and it counts for each user as many reviews as it lists and for each pull request as many
reviewers as it has.  Both breakdowns are in order and add up to all reviews, and whoever has none
is listed with none. -/
theorem counts_agree (calls : List Call) (w : Words) :
    ∃ n, Desk.stats ⟨after {} calls, w⟩ = .ok n ⟨after {} calls, w⟩ ∧
      n.AgreeWith (after {} calls) w :=
  (sound_after calls).stats_agree w

/-- Two of four users review, and the author is listed with no reviews. -/
theorem aReview_counted :
    ∃ n, Desk.stats ⟨after {} Call.aReview, default⟩ = .ok n ⟨after {} Call.aReview, default⟩ ∧
      ⟨"a", "A", 0⟩ ∈ n.byUser ∧ (n.byUser.map (·.count)).sum = 2 ∧
      (n.byPull.map (·.count)).sum = 2 ∧ n.opened + n.merged = 1 := by
  have hauthor : ⟨"a", "A", "t", true⟩ ∈ (after {} Call.aReview).users := by decide
  have hidle : "a" ∉ (after {} Call.aReview).reviews.map (·.user) := by decide
  have hreviews : (after {} Call.aReview).reviews.length = 2 := by decide
  have hpulls : (after {} Call.aReview).pulls.length = 1 := by decide
  obtain ⟨n, hanswer, hagree⟩ := counts_agree Call.aReview default
  exact ⟨n, hanswer, hagree.idle _ hauthor hidle, hagree.userSum.trans hreviews,
    hagree.pullSum.trans hreviews, hagree.statuses.trans (hagree.pulls.trans hpulls)⟩

end Store

end ReviewDesk
