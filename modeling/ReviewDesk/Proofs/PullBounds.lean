import ReviewDesk.Proofs.PullRows

/-!
# What holds of every pull request

A pull request starts with at most two reviewers, and none of them is its
author.  A replacement takes the place of somebody who is there, a deactivation
takes reviewers out, and nothing else touches a slot; so the number never grows
behind the first moment, and the author never comes in.

The reviewers of a new pull request are counted from nothing.  That no review
stands there before is a matter of references: a review belongs to a pull
request that exists.  Likewise a replacement is compared with the author of the
first row with the id, which has to be the only one.

* `Effect.inOrder` — every effect keeps the pull requests in order;
* `pulls_in_order` — they are in order after every history from the empty store.
-/

namespace ReviewDesk

namespace Store

variable {s : Store}

/-- The reviewers of all pull requests are few and not their authors, and a date
of merging stands where a pull request was merged. -/
structure InOrder (s : Store) : Prop where
  few : ∀ id, s.reviewerCount id ≤ maxReviewers
  notAuthor : ∀ p ∈ s.pulls, ⟨p.id, p.author⟩ ∉ s.reviews
  dated : ∀ p ∈ s.pulls, p.mergedAt.isSome = true ↔ p.status = Status.merged.text

theorem inOrder_empty : InOrder {} where
  few _ := Nat.zero_le _
  notAuthor _ hp := (List.not_mem_nil hp).elim
  dated _ hp := (List.not_mem_nil hp).elim

/-! ## Counting reviewers -/

theorem reviewerCount_withPull (p : StoredPull) (reviewers : List UserId) (id : PullId) :
    (s.withPull p reviewers).reviewerCount id
      = s.reviewerCount id + if p.id = id then reviewers.length else 0 := by
  simp only [reviewerCount, withPull, List.countP_append, List.countP_map]
  by_cases hid : p.id = id
  · simp [hid, Function.comp_def]
  · simp [hid, Function.comp_def]

/-- Whoever comes in takes the place of somebody who was there. -/
theorem reviewerCount_withSwap {id : PullId} {old : UserId} (new : UserId)
    (assigned : ⟨id, old⟩ ∈ s.reviews) (other : PullId) :
    (s.withSwap id old new).reviewerCount other ≤ s.reviewerCount other := by
  have hsplit : s.reviewerCount other
      = (s.reviews.filter (· ≠ ⟨id, old⟩)).countP (·.pull = other)
        + (s.reviews.filter (· = ⟨id, old⟩)).countP (·.pull = other) := by
    have hparts := List.countP_eq_countP_filter_add s.reviews
      (fun r => decide (r.pull = other)) (fun r => decide (r ≠ ⟨id, old⟩))
    simpa [reviewerCount] using hparts
  -- the rows that go hold at least the one whose place is taken
  have hplace : (if id = other then 1 else 0)
      ≤ (s.reviews.filter (· = ⟨id, old⟩)).countP (·.pull = other) := by
    by_cases hid : id = other
    · rw [if_pos hid]
      refine List.countP_pos_iff.2 ⟨⟨id, old⟩, List.mem_filter.2 ⟨assigned, ?_⟩, ?_⟩
      · exact decide_eq_true rfl
      · exact decide_eq_true hid
    · rw [if_neg hid]
      exact Nat.zero_le _
  have hcount : (s.withSwap id old new).reviewerCount other
      = (s.reviews.filter (· ≠ ⟨id, old⟩)).countP (·.pull = other)
        + if id = other then 1 else 0 := by
    simp [reviewerCount, withSwap, List.countP_append, List.countP_singleton]
  omega

theorem reviewerCount_retire (users : Ascending UserId) (id : PullId) :
    (s.retire users).reviewerCount id ≤ s.reviewerCount id :=
  List.filter_sublist.countP_le

/-- A pull request that does not exist has no reviewers. -/
theorem reviewerCount_eq_zero (hs : s.Consistent) {id : PullId}
    (hnew : id ∉ s.pulls.map (·.id)) : s.reviewerCount id = 0 := by
  refine List.countP_eq_zero.2 fun r hr => ?_
  intro hid
  have hpull : r.pull ∈ s.pulls.map (·.id) := hs.reviewPulls (List.mem_map_of_mem hr)
  rw [of_decide_eq_true hid] at hpull
  exact hnew hpull

end Store

/-! ## Keeping the order -/

namespace Effect

variable {now : Instant} {s s' : Store} {op : Operation} {a : Answer}

theorem few (h : Effect now s op a s') (hs : s.Consistent)
    (hfew : ∀ id, s.reviewerCount id ≤ maxReviewers) (id : PullId) :
    s'.reviewerCount id ≤ maxReviewers := by
  cases h with
  | @createPull new name author reviewers r isNew _ few =>
      have hold := hfew id
      simp only [Store.reviewerCount_withPull, Pull.stored]
      by_cases hid : new = id
      · have hnone : s.reviewerCount id = 0 :=
          hid ▸ Store.reviewerCount_eq_zero hs (Store.isPull_eq_false_iff.1 isNew)
        rw [if_pos hid]
        omega
      · rw [if_neg hid]
        omega
  | reassign _ _ assigned =>
      exact Nat.le_trans (Store.reviewerCount_withSwap _ assigned id) (hfew id)
  | deactivate => exact Nat.le_trans (Store.reviewerCount_retire _ id) (hfew id)
  | _ => exact hfew id

theorem notAuthor (h : Effect now s op a s') (hs : s.Consistent)
    (hnot : ∀ p ∈ s.pulls, ⟨p.id, p.author⟩ ∉ s.reviews) :
    ∀ p ∈ s'.pulls, ⟨p.id, p.author⟩ ∉ s'.reviews := by
  intro p hp hmem
  cases h with
  | @createPull id name author reviewers r isNew _ _ _ pool =>
      have hnew := Store.isPull_eq_false_iff.1 isNew
      rcases List.mem_append.1 hp with hold | hadded
      · rcases List.mem_append.1 hmem with hbefore | hassigned
        · exact hnot p hold hbefore
        · obtain ⟨user, -, heq⟩ := List.mem_map.1 hassigned
          have hid : id = p.id := (Review.mk.inj heq).1
          exact hnew (hid ▸ List.mem_map_of_mem hold)
      · obtain rfl := List.mem_singleton.1 hadded
        rcases List.mem_append.1 hmem with hbefore | hassigned
        · exact hnew (hs.reviewPulls (List.mem_map_of_mem hbefore))
        · obtain ⟨user, huser, heq⟩ := List.mem_map.1 hassigned
          exact (pool user huser).2 (Review.mk.inj heq).2
  | mergePull =>
      rcases Store.mem_withMerged hp with hold | ⟨q, hq, -, rfl⟩
      · exact hnot p hold hmem
      · exact hnot q hq hmem
  | @reassign id old new q r found _ _ _ _ notAuthor =>
      rcases List.mem_append.1 hmem with hbefore | hadded
      · exact hnot p hp (List.mem_filter.1 hbefore).1
      · obtain ⟨hid, hauthor⟩ := Review.mk.inj (List.mem_singleton.1 hadded)
        have hrow : p = q.stored := Store.eq_of_find?_pull hs.pullKeys found hp hid
        rw [hrow] at hauthor
        exact notAuthor hauthor.symm
  | deactivate => exact hnot p hp (List.mem_filter.1 hmem).1
  | _ => exact hnot p hp hmem

theorem dated (h : Effect now s op a s')
    (hdated : ∀ p ∈ s.pulls, p.mergedAt.isSome = true ↔ p.status = Status.merged.text) :
    ∀ p ∈ s'.pulls, p.mergedAt.isSome = true ↔ p.status = Status.merged.text := by
  intro p hp
  rcases h.pull_cases hp with hold | ⟨hopened, -, hnone, -⟩ | ⟨q, -, rfl⟩
  · exact hdated p hold
  · rw [hopened, hnone]
    decide
  · exact iff_of_true rfl rfl

/-- Every effect keeps the pull requests of a consistent store in order. -/
theorem inOrder (h : Effect now s op a s') (hs : s.Consistent) (ho : s.InOrder) : s'.InOrder where
  few := h.few hs ho.few
  notAuthor := h.notAuthor hs ho.notAuthor
  dated := h.dated ho.dated

end Effect

/-! ## Dates -/

namespace Store

variable {s : Store}

/-- No pull request was merged before it was opened. -/
def IsTimely (s : Store) : Prop :=
  ∀ p ∈ s.pulls, ∀ merged, p.mergedAt = some merged → p.createdAt ≤ merged

end Store

variable {now : Instant} {s s' : Store} {op : Operation} {a : Answer}

/-- An effect that comes no earlier than all pull requests merges none before it
was opened. -/
theorem Effect.isTimely (h : Effect now s op a s') (past : ∀ p ∈ s.pulls, p.createdAt ≤ now)
    (hs : s.IsTimely) : s'.IsTimely := by
  intro p hp merged hmerged
  rcases h.pull_cases hp with hold | ⟨-, -, hnone, -⟩ | ⟨q, hq, rfl⟩
  · exact hs p hold merged hmerged
  · rw [hnone] at hmerged
    cases hmerged
  · obtain rfl := Option.some.inj hmerged
    exact past q hq

/-- All pull requests after an effect are as old as one before it or of its time. -/
theorem Effect.createdAt_cases (h : Effect now s op a s') {p : StoredPull} (hp : p ∈ s'.pulls) :
    p.createdAt = now ∨ ∃ q ∈ s.pulls, p.createdAt = q.createdAt := by
  rcases h.pull_cases hp with hold | ⟨-, hnow, -⟩ | ⟨q, hq, rfl⟩
  · exact .inr ⟨p, hold, rfl⟩
  · exact .inl hnow
  · exact .inr ⟨q, hq, rfl⟩

/-- While the clock does not go back, no pull request is merged before it was
opened. -/
theorem Store.isTimely_after (hs : s.IsTimely) {calls : List Call}
    (past : ∀ p ∈ s.pulls, ∀ c ∈ calls, p.createdAt ≤ c.now)
    (clock : calls.Pairwise fun c d => c.now ≤ d.now) : (s.after calls).IsTimely := by
  -- what has to hold of a store on the way speaks of the calls still to come
  induction calls generalizing s with
  | nil => exact hs
  | cons c later ih =>
      obtain ⟨hfirst, hlater⟩ := List.pairwise_cons.1 clock
      have hpast : ∀ p ∈ s.pulls, ∀ d ∈ later, p.createdAt ≤ d.now :=
        fun p hp d hd => past p hp d (List.mem_cons_of_mem c hd)
      rcases c.next_cases s with hsame | ⟨a, heffect⟩
      · have hstart : (s.after (c :: later)) = s.after later := by
          rw [after, List.foldl_cons, hsame, after]
        rw [hstart]
        exact ih hs hpast hlater
      · refine ih (heffect.isTimely (fun p hp => past p hp c List.mem_cons_self) hs) ?_ hlater
        intro p hp d hd
        rcases heffect.createdAt_cases hp with hnow | ⟨q, hq, heq⟩
        · rw [hnow]
          exact hfirst d hd
        · rw [heq]
          exact hpast q hq d hd

namespace Store

/-- **Pull requests stay in order.**  After every history from the empty store a
pull request has at most two reviewers, its author is none of them, and it
carries a date of merging exactly if its status is merged.  If the clock never
goes back, that date is not before the one it was opened. -/
theorem pulls_in_order (calls : List Call) :
    (∀ p ∈ (after {} calls).pulls,
      (after {} calls).reviewerCount p.id ≤ 2 ∧
      p.author ∉ (after {} calls).reviewersIn p.id ∧
      (p.mergedAt.isSome = true ↔ p.status = Status.merged.text)) ∧
    (calls.Pairwise (fun c d => c.now ≤ d.now) →
      ∀ p ∈ (after {} calls).pulls, ∀ merged, p.mergedAt = some merged → p.createdAt ≤ merged) := by
  have hfirst : Consistent {} ∧ InOrder {} := ⟨consistent_empty _ _ _, inOrder_empty⟩
  have horder : (after {} calls).Consistent ∧ (after {} calls).InOrder :=
    after_induction (P := fun s => s.Consistent ∧ s.InOrder) hfirst
      (fun heffect hs => ⟨heffect.consistent hs.1, heffect.inOrder hs.1 hs.2⟩) calls
  constructor
  · intro p hp
    refine ⟨horder.2.few p.id, ?_, horder.2.dated p hp⟩
    rw [mem_reviewersIn]
    exact horder.2.notAuthor p hp
  · intro clock
    refine isTimely_after ?_ ?_ clock
    · exact fun p hp => (List.not_mem_nil hp).elim
    · exact fun p hp => (List.not_mem_nil hp).elim

end Store

/-- A pull request of one of four, from its team to its merge. -/
def Call.aMerge : List Call :=
  [⟨.createTeam "t" [⟨"a", "A", true⟩, ⟨"b", "B", true⟩, ⟨"c", "C", true⟩, ⟨"d", "D", true⟩],
      ⟨1, 0⟩, default⟩,
    ⟨.createPull "p" "P" "a", ⟨2, 0⟩, default⟩,
    ⟨.setActive "b" false, ⟨2, 5⟩, default⟩,
    ⟨.mergePull "p", ⟨3, 0⟩, default⟩]

namespace Store

theorem aMerge_in_order :
    (Call.aMerge.Pairwise fun c d => c.now ≤ d.now) ∧
    ∃ p ∈ (after {} Call.aMerge).pulls, p.mergedAt = some ⟨3, 0⟩ ∧ p.createdAt ≤ ⟨3, 0⟩ ∧
      (after {} Call.aMerge).reviewerCount p.id ≤ 2 ∧
      p.author ∉ (after {} Call.aMerge).reviewersIn p.id := by
  have hclock : Call.aMerge.Pairwise fun c d => c.now ≤ d.now := by decide
  have hmem : ⟨"p", "P", "a", "MERGED", ⟨2, 0⟩, some ⟨3, 0⟩⟩ ∈ (after {} Call.aMerge).pulls := by
    decide
  obtain ⟨hfew, hauthor, -⟩ := (pulls_in_order Call.aMerge).1 _ hmem
  exact ⟨hclock, _, hmem, rfl, (pulls_in_order Call.aMerge).2 hclock _ hmem _ rfl, hfew, hauthor⟩

end Store

end ReviewDesk
