import ReviewDesk.Proofs.PullRows

/-!
# What lasts

Teams, users and pull requests stay once they are there.  Of a pull request only
its status and its date of merging ever change, both with the one merge; from
then on the row and its reviewers are final.

A store is later than another if all this can be said of the two.  Every effect
leads to a later store, and a later store of a later one is later again, so what
lasts through one step lasts through a history.

* `Effect.precedes` — every effect leads to a later store;
* `precedes_after` — so does every history;
* `merged_is_final` — what this means for operations on a merged pull request.
-/

namespace ReviewDesk

/-- What may become of the row of a pull request. -/
structure StoredPull.Becomes (p q : StoredPull) : Prop where
  id : q.id = p.id
  name : q.name = p.name
  author : q.author = p.author
  createdAt : q.createdAt = p.createdAt
  status : q.status = p.status ∨ p.status = Status.opened.text ∧ q.status = Status.merged.text
  /-- With the same status the whole row is the same. -/
  same : q.status = p.status → q = p

namespace StoredPull.Becomes

variable {p q r : StoredPull}

theorem refl (p : StoredPull) : p.Becomes p where
  id := rfl
  name := rfl
  author := rfl
  createdAt := rfl
  status := .inl rfl
  same _ := rfl

theorem merge (opened : p.status = Status.opened.text) (now : Instant) :
    p.Becomes (p.merge now) where
  id := rfl
  name := rfl
  author := rfl
  createdAt := rfl
  status := .inr ⟨opened, rfl⟩
  same hsame := absurd (hsame.trans opened) (by decide : Status.merged.text ≠ Status.opened.text)

/-- A merged pull request becomes nothing else. -/
theorem eq_of_merged (h : p.Becomes q) (hmerged : p.status = Status.merged.text) : q = p := by
  rcases h.status with hsame | ⟨hopened, -⟩
  · exact h.same hsame
  · exact absurd (hopened.symm.trans hmerged) (by decide)

theorem trans (h : p.Becomes q) (h' : q.Becomes r) : p.Becomes r where
  id := h'.id.trans h.id
  name := h'.name.trans h.name
  author := h'.author.trans h.author
  createdAt := h'.createdAt.trans h.createdAt
  status := by
    rcases h.status with hsame | ⟨hopened, hmerged⟩
    · rw [← hsame]
      exact h'.status
    · rw [h'.eq_of_merged hmerged]
      exact .inr ⟨hopened, hmerged⟩
  same hsame := by
    rcases h.status with hstill | ⟨hopened, hmerged⟩
    · obtain rfl := h.same hstill
      exact h'.same hsame
    · -- what was merged on the way does not come back to open
      rw [h'.eq_of_merged hmerged, hopened, hmerged] at hsame
      exact absurd hsame (by decide)

end StoredPull.Becomes

namespace Store

/-- The second store may come later than the first one. -/
structure Precedes (s t : Store) : Prop where
  tables : ∀ table, t.has table = s.has table
  teams : s.teams ⊆ t.teams
  users : s.users.map (·.id) ⊆ t.users.map (·.id)
  pulls : ∀ p ∈ s.pulls, ∃ q ∈ t.pulls, p.Becomes q
  reviewers : ∀ p ∈ s.pulls, p.status = Status.merged.text →
    ∀ user, ⟨p.id, user⟩ ∈ t.reviews ↔ ⟨p.id, user⟩ ∈ s.reviews

namespace Precedes

variable {s t u : Store}

theorem refl (s : Store) : s.Precedes s where
  tables _ := rfl
  teams _ h := h
  users _ h := h
  pulls p hp := ⟨p, hp, .refl p⟩
  reviewers _ _ _ _ := .rfl

/-- A merged pull request is met again as it was. -/
theorem mem_of_merged (h : s.Precedes t) {p : StoredPull} (hp : p ∈ s.pulls)
    (hmerged : p.status = Status.merged.text) : p ∈ t.pulls := by
  obtain ⟨q, hq, hbecomes⟩ := h.pulls p hp
  rw [hbecomes.eq_of_merged hmerged] at hq
  exact hq

theorem trans (h : s.Precedes t) (h' : t.Precedes u) : s.Precedes u where
  tables table := (h'.tables table).trans (h.tables table)
  teams := List.Subset.trans h.teams h'.teams
  users := List.Subset.trans h.users h'.users
  pulls p hp := by
    obtain ⟨q, hq, hpq⟩ := h.pulls p hp
    obtain ⟨r, hr, hqr⟩ := h'.pulls q hq
    exact ⟨r, hr, hpq.trans hqr⟩
  reviewers p hp hmerged user := by
    have hlater := h'.reviewers p (h.mem_of_merged hp hmerged) hmerged user
    exact hlater.trans (h.reviewers p hp hmerged user)

/-- The reviewers of a merged pull request stay the same. -/
theorem reviewersIn_eq (h : s.Precedes t) {p : StoredPull} (hp : p ∈ s.pulls)
    (hmerged : p.status = Status.merged.text) : t.reviewersIn p.id = s.reviewersIn p.id := by
  refine Ascending.ext fun user => ?_
  rw [mem_reviewersIn, mem_reviewersIn]
  exact h.reviewers p hp hmerged user

end Precedes

end Store

variable {now : Instant} {s s' : Store} {op : Operation} {a : Answer}

/-- No table is made or dropped. -/
theorem Effect.tables (h : Effect now s op a s') (table : Table) : s'.has table = s.has table := by
  cases h <;> rfl

/-- Teams are never taken out. -/
theorem Effect.teams_subset (h : Effect now s op a s') : s.teams ⊆ s'.teams := by
  cases h with
  | createTeam => exact List.subset_append_left _ _
  | _ => exact fun _ hteam => hteam

/-- Users are never taken out. -/
theorem Effect.ids_subset (h : Effect now s op a s') :
    s.users.map (·.id) ⊆ s'.users.map (·.id) := by
  cases h with
  | createTeam => exact User.ids_subset_enrollAll _ _
  | setActive =>
      rw [Store.ids_withFlag]
      exact fun _ hid => hid
  | deactivate =>
      rw [Store.ids_retire]
      exact fun _ hid => hid
  | _ => exact fun _ hid => hid

/-- Every effect leads to a later store. -/
theorem Effect.precedes (h : Effect now s op a s') (hkeys : (s.pulls.map (·.id)).Nodup) :
    s.Precedes s' where
  tables := h.tables
  teams := h.teams_subset
  users := h.ids_subset
  pulls p hp := by
    rcases h.pull_kept hkeys hp with hsame | ⟨hopened, hmerged⟩
    · exact ⟨p, hsame, .refl p⟩
    · exact ⟨p.merge now, hmerged, .merge hopened now⟩
  reviewers p hp hmerged user := h.review_iff_of_merged hkeys hp hmerged user

namespace Store

/-- Every history leads to a later store, and keeps the keys of pull requests
distinct. -/
theorem precedes_after (hkeys : (s.pulls.map (·.id)).Nodup) (calls : List Call) :
    ((s.after calls).pulls.map (·.id)).Nodup ∧ s.Precedes (s.after calls) := by
  refine after_induction (P := fun t => (t.pulls.map (·.id)).Nodup ∧ s.Precedes t)
    ⟨hkeys, .refl s⟩ ?_ calls
  intro _ _ _ _ _ heffect ht
  exact ⟨heffect.pullKeys ht.1, ht.2.trans (heffect.precedes ht.1)⟩

/-- A later store shows a merged pull request as before. -/
theorem Shows.later {t : Store} {id : PullId} {r : PullRequest} (h : s.Shows id r)
    (hmerged : r.pull.status = .merged) (hkeys : (t.pulls.map (·.id)).Nodup)
    (hlater : s.Precedes t) : t.Shows id r := by
  have hrow : r.pull.stored ∈ s.pulls := List.mem_of_find?_eq_some h.found
  have hstatus : r.pull.stored.status = Status.merged.text := by rw [Pull.stored, hmerged]
  obtain rfl := h.id_eq
  exact {
    hasPulls := (hlater.tables .pulls).trans h.hasPulls
    hasReviews := (hlater.tables .reviews).trans h.hasReviews
    found := find?_eq_some_of_mem hkeys (hlater.mem_of_merged hrow hstatus)
    reviewers := h.reviewers.trans (hlater.reviewersIn_eq hrow hstatus).symm }

/-- A row with the status of a merged pull request is that of one. -/
theorem exists_stored_of_merged {p : StoredPull} (hmerged : p.status = Status.merged.text) :
    ∃ q : Pull, q.status = .merged ∧ q.stored = p :=
  StoredPull.exists_stored hmerged

end Store

namespace Desk

variable {w : Words} {id : PullId}

/-- Reviewers of a merged pull request are not replaced. -/
theorem reassign_of_merged (hpulls : s.has .pulls = true) {q : Pull}
    (hfound : s.pulls.find? (·.id = id) = some q.stored) (hmerged : q.status = .merged)
    (old : UserId) : reassign id old ⟨s, w⟩ = .error .pullMerged ⟨s, w⟩ := by
  apply transaction_of_error (Store.isOpen_of_has hpulls)
  refine ask_bind_eq_error.2 (.inr ⟨some q, Store.findPull_eq_some_iff.2 ⟨hpulls, hfound⟩, ?_⟩)
  refine orFail_bind_eq_error.2 (.inr ⟨q, rfl, ite_eq_error.2 (.inl ⟨hmerged, ?_⟩)⟩)
  exact throw_bind_eq_error.2 ⟨rfl, rfl⟩

/-- Merging a merged pull request shows it and changes nothing. -/
theorem mergePull_of_merged {now : Instant} {r : PullRequest} (hshown : s.Shows id r)
    (hmerged : r.pull.status = .merged) : mergePull now id ⟨s, w⟩ = .ok r ⟨s, w⟩ := by
  refine transaction_eq_ok.2 ⟨Store.isOpen_of_has hshown.hasPulls, ?_⟩
  refine ask_bind_eq_ok.2
    ⟨some r.pull, Store.findPull_eq_some_iff.2 ⟨hshown.hasPulls, hshown.found⟩, ?_⟩
  refine orFail_bind_eq_ok.2 ⟨r.pull, rfl, ite_eq_ok.2 (.inr ⟨?_, ?_⟩)⟩
  · rw [hmerged]
    decide
  · exact orFail_loadPull_eq_ok.2 ⟨rfl, hshown⟩

/-- What a merge answers is merged, and the store shows it. -/
theorem shows_of_mergePull {now : Instant} {r : PullRequest} {o o' : Office}
    (h : mergePull now id o = .ok r o') : r.pull.status = .merged ∧ o'.store.Shows id r := by
  obtain ⟨p, -, hshown, ⟨-, hstore⟩ | ⟨hmerged, -⟩⟩ := mergePull_eq_ok h
  · refine ⟨?_, hshown⟩
    have hrow : r.pull.stored ∈ o'.store.pulls := List.mem_of_find?_eq_some hshown.found
    rw [hstore] at hrow
    obtain ⟨q, -, heq⟩ := List.mem_map.1 hrow
    by_cases hq : q.id = id
    · rw [if_pos hq] at heq
      have htext : Status.merged.text = r.pull.status.text := congrArg StoredPull.status heq
      cases hstatus : r.pull.status with
      | opened =>
          rw [hstatus] at htext
          exact absurd htext (by decide)
      | merged => rfl
    · rw [if_neg hq] at heq
      exact absurd ((congrArg StoredPull.id heq).trans hshown.id_eq) hq
  · exact ⟨hmerged, hshown⟩

end Desk

namespace Store

/-- **A merged pull request is final.**  Along a history from any store whose
pull requests have distinct ids, teams, users and pull requests stay; of the one
row with an id only the status and the date of merging change, once, from open
to merged.  From the moment it is merged the row and its reviewers stay as they
are, every replacement of a reviewer is refused, and every later merge answers
what the first one did. -/
theorem merged_is_final (hkeys : (s.pulls.map (·.id)).Nodup) (calls later : List Call) :
    (s.after calls).teams ⊆ (s.after (calls ++ later)).teams ∧
    (s.after calls).users.map (·.id) ⊆ (s.after (calls ++ later)).users.map (·.id) ∧
    (∀ p ∈ (s.after calls).pulls, ∃ q ∈ (s.after (calls ++ later)).pulls, p.Becomes q ∧
      ∀ r ∈ (s.after (calls ++ later)).pulls, r.id = p.id → r = q) ∧
    (∀ p ∈ (s.after calls).pulls, p.status = Status.merged.text →
      p ∈ (s.after (calls ++ later)).pulls ∧
      (s.after (calls ++ later)).reviewersIn p.id = (s.after calls).reviewersIn p.id ∧
      (s.has .pulls = true → ∀ old w, Desk.reassign p.id old ⟨s.after (calls ++ later), w⟩
        = .error .pullMerged ⟨s.after (calls ++ later), w⟩)) ∧
    ∀ now id r w o, Desk.mergePull now id ⟨s.after calls, w⟩ = .ok r o →
      ∀ now' w', Desk.mergePull now' id ⟨o.store.after later, w'⟩
        = .ok r ⟨o.store.after later, w'⟩ := by
  obtain ⟨htkeys, hbefore⟩ := precedes_after hkeys calls
  obtain ⟨hukeys, hlater⟩ := precedes_after htkeys later
  rw [after_append]
  refine ⟨hlater.teams, hlater.users, ?_, ?_, ?_⟩
  · intro p hp
    obtain ⟨q, hq, hbecomes⟩ := hlater.pulls p hp
    refine ⟨q, hq, hbecomes, fun r hr hid => ?_⟩
    exact eq_of_find?_pull hukeys (find?_eq_some_of_mem hukeys hq) hr (hid.trans hbecomes.id.symm)
  · intro p hp hmerged
    have hrow := hlater.mem_of_merged hp hmerged
    refine ⟨hrow, hlater.reviewersIn_eq hp hmerged, fun hpulls old w => ?_⟩
    obtain ⟨q, hstatus, rfl⟩ := exists_stored_of_merged hmerged
    refine Desk.reassign_of_merged ?_ (find?_eq_some_of_mem hukeys hrow) hstatus old
    rw [hlater.tables, hbefore.tables, hpulls]
  · intro now id r w o hmerge now' w'
    obtain ⟨hmerged, hshown⟩ := Desk.shows_of_mergePull hmerge
    have hrun : (Operation.mergePull id).run now ⟨s.after calls, w⟩ = .ok (.pull r) o :=
      Desk.map_eq_ok.2 ⟨r, hmerge, rfl⟩
    have heffect := Operation.effect_of_ok hrun
    obtain ⟨hkeys', hlast⟩ := precedes_after (heffect.pullKeys htkeys) later
    exact Desk.mergePull_of_merged (hshown.later hmerged hkeys' hlast) hmerged

/-- The team of the reviewers is deactivated, and one of them moves to another. -/
theorem merged_ofTwoTeams :
    let later : List Call := [⟨.deactivate "t", ⟨2, 0⟩, default⟩,
      ⟨.createTeam "y" [⟨"a", "A", false⟩], ⟨3, 0⟩, default⟩]
    (ofTwoTeams.pulls.map (·.id)).Nodup ∧
    (⟨"m", "M", "d", "MERGED", .epoch, some .epoch⟩ : StoredPull)
      ∈ (ofTwoTeams.after ([] ++ later)).pulls ∧
    (ofTwoTeams.after ([] ++ later)).reviewersIn "m" = ofTwoTeams.reviewersIn "m" ∧
    Desk.reassign "m" "a" ⟨ofTwoTeams.after ([] ++ later), default⟩
      = .error .pullMerged ⟨ofTwoTeams.after ([] ++ later), default⟩ ∧
    ∃ r o, Desk.mergePull ⟨1, 0⟩ "o" ⟨ofTwoTeams, default⟩ = .ok r o ∧
      Desk.mergePull ⟨4, 0⟩ "o" ⟨o.store.after later, default⟩
        = .ok r ⟨o.store.after later, default⟩ := by
  intro later
  have hkeys : (ofTwoTeams.pulls.map (·.id)).Nodup := by decide
  have hrow : ⟨"m", "M", "d", "MERGED", .epoch, some .epoch⟩ ∈ ofTwoTeams.pulls := by decide
  obtain ⟨-, -, -, hfinal, hmerge⟩ := merged_is_final hkeys [] later
  obtain ⟨hlast, hreviewers, hrefused⟩ := hfinal _ hrow rfl
  refine ⟨hkeys, hlast, hreviewers, hrefused rfl "a" default, _, _, rfl, ?_⟩
  exact hmerge ⟨1, 0⟩ "o" _ default _ rfl ⟨4, 0⟩ default

end Store

end ReviewDesk
