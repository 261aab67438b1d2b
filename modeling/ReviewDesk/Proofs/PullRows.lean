import ReviewDesk.Proofs.Consistency

/-!
# The rows of pull requests along a history

Of all effects only two touch the rows of pull requests: one adds an open pull
request, one merges an open one.  So a row is met again after any effect, as it
was or merged, and whatever is met there was a row before, or one of those two.

A pull request that is merged is left alone altogether.  Here its key matters:
effects say that the first row with an id is open, and in a store with distinct
keys that is the only row.

* `Effect.pull_cases` — where a row comes from;
* `Effect.pull_kept` — what becomes of a row;
* `Effect.review_iff_of_merged` — a merged pull request keeps its reviewers.
-/

namespace ReviewDesk

variable {now : Instant} {s s' : Store} {op : Operation} {a : Answer}

namespace Store

/-- With distinct keys a row is what a search for its id finds. -/
theorem eq_of_find?_pull (hkeys : (s.pulls.map (·.id)).Nodup) {id : PullId} {p q : StoredPull}
    (hfound : s.pulls.find? (·.id = id) = some q) (hp : p ∈ s.pulls) (hid : p.id = id) :
    p = q := by
  subst hid
  have hself : s.pulls.find? (·.id = p.id) = some p := find?_eq_some_of_mem hkeys hp
  exact Option.some.inj (hself.symm.trans hfound)

theorem mem_withMerged {id : PullId} {q : StoredPull} (hq : q ∈ (s.withMerged id now).pulls) :
    q ∈ s.pulls ∨ ∃ p ∈ s.pulls, p.id = id ∧ q = p.merge now := by
  obtain ⟨p, hp, rfl⟩ := List.mem_map.1 hq
  by_cases hid : p.id = id
  · exact .inr ⟨p, hp, hid, if_pos hid⟩
  · rw [if_neg hid]
    exact .inl hp

end Store

namespace Effect

/-- A row was there before, is a new open pull request, or was merged now. -/
theorem pull_cases (h : Effect now s op a s') {q : StoredPull} (hq : q ∈ s'.pulls) :
    q ∈ s.pulls ∨
      (q.status = Status.opened.text ∧ q.createdAt = now ∧ q.mergedAt = none ∧
        q.id ∉ s.pulls.map (·.id)) ∨
      ∃ p ∈ s.pulls, q = p.merge now := by
  cases h with
  | createPull isNew =>
      rcases List.mem_append.1 hq with hold | hadded
      · exact .inl hold
      · obtain rfl := List.mem_singleton.1 hadded
        exact .inr (.inl ⟨rfl, rfl, rfl, Store.isPull_eq_false_iff.1 isNew⟩)
  | mergePull =>
      rcases Store.mem_withMerged hq with hold | ⟨p, hp, -, heq⟩
      · exact .inl hold
      · exact .inr (.inr ⟨p, hp, heq⟩)
  | _ => exact .inl hq

/-- A row stays, or was that of an open pull request and is merged. -/
theorem pull_kept (h : Effect now s op a s') (hkeys : (s.pulls.map (·.id)).Nodup)
    {p : StoredPull} (hp : p ∈ s.pulls) :
    p ∈ s'.pulls ∨ p.status = Status.opened.text ∧ p.merge now ∈ s'.pulls := by
  cases h with
  | createPull => exact .inl (List.mem_append_left _ hp)
  | @mergePull id q _ found opened =>
      have hrow : (if p.id = id then p.merge now else p) ∈ (s.withMerged id now).pulls :=
        List.mem_map_of_mem hp
      by_cases hid : p.id = id
      · -- all rows with the id are rewritten, but there is only the open one
        rw [if_pos hid] at hrow
        have hopen : p.status = Status.opened.text := by
          rw [Store.eq_of_find?_pull hkeys found hp hid, Pull.stored, opened]
        exact .inr ⟨hopen, hrow⟩
      · rw [if_neg hid] at hrow
        exact .inl hrow
  | _ => exact .inl hp

/-- Pull requests are never taken out. -/
theorem pullIds_subset (h : Effect now s op a s') :
    s.pulls.map (·.id) ⊆ s'.pulls.map (·.id) := by
  cases h with
  | createPull =>
      rw [Store.withPull, List.map_append]
      exact List.subset_append_left _ _
  | mergePull =>
      rw [Store.ids_withMerged]
      exact fun _ hid => hid
  | _ => exact fun _ hid => hid

/-- A pull request that was not there before is the one that was opened. -/
theorem opened_of_new (h : Effect now s op a s') {id : PullId} (hid : id ∈ s'.pulls.map (·.id))
    (hnew : id ∉ s.pulls.map (·.id)) :
    ∃ name author r, op = .createPull id name author ∧ a = .pull r := by
  cases h with
  | @createPull new name author _ r =>
      rw [Store.withPull, List.map_append] at hid
      rcases List.mem_append.1 hid with hold | hadded
      · exact absurd hold hnew
      · obtain rfl : id = new := List.mem_singleton.1 hadded
        exact ⟨name, author.id, r, rfl, rfl⟩
  | mergePull =>
      rw [Store.ids_withMerged] at hid
      exact absurd hid hnew
  | _ => exact absurd hid hnew

/-- No effect gives two pull requests one id. -/
theorem pullKeys (h : Effect now s op a s') (hkeys : (s.pulls.map (·.id)).Nodup) :
    (s'.pulls.map (·.id)).Nodup := by
  cases h with
  | createPull isNew =>
      rw [Store.withPull, List.map_append, List.map_singleton, ← List.concat_eq_append]
      exact hkeys.concat (Store.isPull_eq_false_iff.1 isNew)
  | mergePull =>
      rw [Store.ids_withMerged]
      exact hkeys
  | _ => exact hkeys

/-- A merged pull request keeps its reviewers. -/
theorem review_iff_of_merged (h : Effect now s op a s') (hkeys : (s.pulls.map (·.id)).Nodup)
    {p : StoredPull} (hp : p ∈ s.pulls) (hmerged : p.status = Status.merged.text)
    (user : UserId) : ⟨p.id, user⟩ ∈ s'.reviews ↔ ⟨p.id, user⟩ ∈ s.reviews := by
  have hnotOpen : p.status ≠ Status.opened.text := by
    rw [hmerged]
    decide
  cases h with
  | @createPull id _ _ _ _ isNew =>
      have hne : p.id ≠ id := by
        intro heq
        have hnew := Store.isPull_eq_false_iff.1 isNew
        rw [← heq] at hnew
        exact hnew (List.mem_map_of_mem hp)
      simp [Store.withPull, Pull.stored, Ne.symm hne]
  | @reassign id _ _ q _ found opened =>
      have hne : p.id ≠ id := by
        intro heq
        have hrow : p = q.stored := Store.eq_of_find?_pull hkeys found hp heq
        rw [hrow, Pull.stored, opened] at hnotOpen
        exact hnotOpen rfl
      simp [Store.withSwap, hne]
  | deactivate =>
      have hclosed : s.isOpenPull p.id = false := by
        rw [← Bool.not_eq_true, Store.isOpenPull_iff]
        intro hopen
        obtain ⟨q, hq, hid, hstatus⟩ := hopen
        have hfound : s.pulls.find? (·.id = q.id) = some q := find?_eq_some_of_mem hkeys hq
        rw [Store.eq_of_find?_pull hkeys hfound hp hid.symm] at hnotOpen
        exact hnotOpen hstatus
      simp [Store.retire, hclosed]
  | _ => rfl

end Effect

end ReviewDesk
