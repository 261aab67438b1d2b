import ReviewDesk.Proofs.Outcomes
import ReviewDesk.Proofs.Repairs

/-!
# How reviewers are assigned

Somebody becomes a reviewer in one of two ways.  A new pull request is given to colleagues of
its author, the others who are active in the author's team.  And a reviewer of an open pull
request can be replaced by somebody who is active in that reviewer's present team, whether
this is the team of the author or another one, and whether the reviewer is still active or
not.

In a sound store both either refuse for the first cause that applies, and then leave the
office as it is, or write what they answer: the rows of the new pull request, or the one row
of the new reviewer in place of the old one.  The answer shows the reviewers in order,
although they may be drawn in another; a set of reviewers has but one list.

* `reviewersIn_opened`, `reviewersIn_withSwap` — the reviewers that are stored afterwards;
* `replaced_unless_refused` — what replacing a reviewer comes to;
* `opened_unless_refused` — what opening a pull request comes to.
-/

namespace ReviewDesk

namespace Store

variable {s : Store}

/-! ## Reviewers of a new pull request -/

/-- Who can review what a user opens: the others who are active in the same team. -/
def colleagues (s : Store) (u : User) : Ascending UserId := (s.activeIn u.team).erase u.id

theorem mem_colleagues {u : User} {user : UserId} :
    user ∈ s.colleagues u ↔ s.IsActiveIn u.team user ∧ user ≠ u.id := by
  rw [colleagues, Ascending.mem_erase, mem_activeIn]
  rfl

theorem colleagues_eq_diff (s : Store) (u : User) :
    (s.activeIn u.team).diff (.ofList [u.id]) = s.colleagues u := by
  refine Ascending.ext fun user => ?_
  rw [mem_colleagues, Ascending.mem_diff, mem_activeIn, Ascending.mem_ofList, List.mem_singleton]
  rfl

/-- A pull request that was not there has just the reviewers it is given. -/
theorem reviewersIn_opened (hs : s.Consistent) {p : StoredPull}
    (isNew : p.id ∉ s.pulls.map (·.id)) (reviewers : List UserId) :
    (s.withPull p reviewers).reviewersIn p.id = .ofList reviewers := by
  refine Ascending.ext fun user => ?_
  have hnone : ⟨p.id, user⟩ ∉ s.reviews := fun hmem =>
    isNew (hs.reviewPulls (List.mem_map_of_mem hmem))
  rw [mem_reviewersIn, Ascending.mem_ofList]
  simp [withPull, hnone]

/-! ## Reviewers after a replacement -/

theorem reviewersIn_withSwap (id : PullId) (old new : UserId) :
    (s.withSwap id old new).reviewersIn id = ((s.reviewersIn id).erase old).insert new := by
  have hsettled := congrFun (reviewersIn_settled (s := s) ⟨id, old, some new⟩) id
  exact hsettled.trans (Board.put_self _ _ _)

/-- The new reviewer makes up for the old one. -/
theorem size_reviewersIn_withSwap {id : PullId} {old new : UserId}
    (assigned : ⟨id, old⟩ ∈ s.reviews) (fresh : ⟨id, new⟩ ∉ s.reviews) :
    ((s.withSwap id old new).reviewersIn id).size = (s.reviewersIn id).size := by
  have hnew : new ∉ (s.reviewersIn id).erase old := by
    intro hmem
    exact fresh (mem_reviewersIn.1 (Ascending.mem_erase.1 hmem).1)
  have hinsert := Ascending.size_insert hnew
  have herase := Ascending.size_erase (mem_reviewersIn.2 assigned)
  rw [reviewersIn_withSwap]
  omega

/-- Nobody can follow exactly if all who are active in the team of the reviewer have a part
in the pull request already. -/
theorem successor_eq_none_iff {id : PullId} {author : UserId} {old : User} {w : Words} :
    (s.successor id author old w).1 = none ↔
      ∀ user, s.IsActiveIn old.team user → user = author ∨ ⟨id, user⟩ ∈ s.reviews := by
  rw [successor, Words.pickOne_eq_none_iff]
  refine forall_congr' fun user => ?_
  rw [Ascending.mem_insert, mem_activeIn, mem_reviewersIn]
  rfl

/-- Why a reviewer is not replaced: the first cause that applies, in this order. -/
inductive KeepsReviewer (s : Store) : PullId → UserId → Failure → Prop
  | unknown {id : PullId} {old : UserId} (isNew : id ∉ s.pulls.map (·.id)) :
      s.KeepsReviewer id old .pullNotFound
  | merged {p : StoredPull} {old : UserId} (isPull : p ∈ s.pulls)
      (merged : p.status = Status.merged.text) : s.KeepsReviewer p.id old .pullMerged
  | notAssigned {p : StoredPull} {old : UserId} (isPull : p ∈ s.pulls)
      (opened : p.status = Status.opened.text) (notAssigned : ⟨p.id, old⟩ ∉ s.reviews) :
      s.KeepsReviewer p.id old .notAssigned
  /-- All who are active in the reviewer's team are the author or review the pull request. -/
  | noCandidate {p : StoredPull} {old : User} (isPull : p ∈ s.pulls)
      (opened : p.status = Status.opened.text) (isUser : old ∈ s.users)
      (assigned : ⟨p.id, old.id⟩ ∈ s.reviews)
      (taken : ∀ user, s.IsActiveIn old.team user → user = p.author ∨ ⟨p.id, user⟩ ∈ s.reviews) :
      s.KeepsReviewer p.id old.id .noCandidate

namespace Sound

variable (hs : s.Sound)

include hs

theorem find?_of_mem {p : StoredPull} (hp : p ∈ s.pulls) :
    s.pulls.find? (·.id = p.id) = some p :=
  find?_eq_some_of_mem hs.consistent.pullKeys hp

/-- A cause to keep a reviewer is what the caller is told. -/
theorem reassign_of_keepsReviewer {id : PullId} {old : UserId} {f : Failure}
    (h : s.KeepsReviewer id old f) (w : Words) :
    Desk.reassign id old ⟨s, w⟩ = .error f ⟨s, w⟩ := by
  cases h with
  | unknown isNew =>
      have hnone : s.pulls.find? (·.id = id) = none := by simpa using isNew
      exact Desk.reassign_of_unknown (hs.has .pulls) hnone old
  | merged isPull merged =>
      obtain ⟨q, hstatus, rfl⟩ := StoredPull.exists_stored merged
      exact Desk.reassign_of_merged (hs.has .pulls) (hs.find?_of_mem isPull) hstatus old
  | notAssigned isPull opened notAssigned =>
      obtain ⟨q, hstatus, rfl⟩ := StoredPull.exists_stored opened
      exact Desk.reassign_of_not_assigned hs.complete (hs.find?_of_mem isPull) hstatus notAssigned
  | @noCandidate _ u isPull opened isUser assigned taken =>
      obtain ⟨q, hstatus, rfl⟩ := StoredPull.exists_stored opened
      have hknown : s.users.find? (·.id = u.id) = some u :=
        find?_eq_some_of_mem hs.consistent.userKeys isUser
      exact Desk.reassign_of_no_candidate hs.complete (hs.find?_of_mem isPull) hstatus assigned
        hknown (successor_eq_none_iff.2 taken)

/-- Without a cause to keep a reviewer there is an open pull request and somebody who can
follow there, whatever the words. -/
theorem replaceable_of_free {id : PullId} {old : UserId}
    (hfree : ∀ f, ¬ s.KeepsReviewer id old f) :
    ∃ (p : Pull) (u : User), s.pulls.find? (·.id = id) = some p.stored ∧ p.status = .opened ∧
      s.users.find? (·.id = u.id) = some u ∧ u.id = old ∧ ⟨id, old⟩ ∈ s.reviews ∧
      ∀ w, ∃ new, (s.successor id p.author u w).1 = some new := by
  rcases hs.find?_pull id with hnone | ⟨p, hp⟩
  · exact absurd (.unknown (by simpa using hnone)) (hfree .pullNotFound)
  obtain ⟨hrow, rfl⟩ := mem_of_find?_key hp
  cases hstatus : p.status with
  | merged =>
      have hmerged : p.stored.status = Status.merged.text := congrArg Status.text hstatus
      exact absurd (.merged hrow hmerged) (hfree .pullMerged)
  | opened =>
      have hopened : p.stored.status = Status.opened.text := congrArg Status.text hstatus
      have hassigned : ⟨p.stored.id, old⟩ ∈ s.reviews := by
        apply Decidable.byContradiction
        intro hnot
        exact hfree .notAssigned (.notAssigned hrow hopened hnot)
      obtain ⟨u, hknown, rfl⟩ := hs.consistent.find?_of_review hassigned
      refine ⟨p, u, hp, hstatus, hknown, rfl, hassigned, fun w => ?_⟩
      apply Option.ne_none_iff_exists'.1
      intro hnobody
      have htaken := successor_eq_none_iff.1 hnobody
      have huser : u ∈ s.users := (mem_of_find?_key hknown).1
      exact hfree .noCandidate (.noCandidate hrow hopened huser hassigned htaken)

end Sound

end Store

namespace Desk

variable {s : Store}

/-- **Replaced unless refused.**  In a sound store, take any two ids and any words.  If there
is a cause to keep the reviewer, the answer is the first one, and nothing changes.  Otherwise
the pull request and the reviewer are there, and the answer names somebody who is active in
the reviewer's present team, is not the author and was no reviewer yet.  This user stands in
the one review row in place of the old one, so there are as many reviewers as before; the
answer shows the pull request as it is stored then, and no other row has changed. -/
theorem replaced_unless_refused (hs : s.Sound) (id : PullId) (old : UserId) (w : Words) :
    (∀ f, s.KeepsReviewer id old f → reassign id old ⟨s, w⟩ = .error f ⟨s, w⟩) ∧
    ((∀ f, ¬ s.KeepsReviewer id old f) →
      ∃ p ∈ s.pulls, ∃ u ∈ s.users, p.id = id ∧ u.id = old ∧
      ∃ request new o, reassign id old ⟨s, w⟩ = .ok ⟨request, new⟩ o ∧
        s.IsActiveIn u.team new ∧ new ≠ p.author ∧ ⟨id, new⟩ ∉ s.reviews ∧
        o.store = { s with reviews := s.reviews.filter (· ≠ ⟨id, old⟩) ++ [⟨id, new⟩] } ∧
        o.store.reviewersIn id = ((s.reviewersIn id).erase old).insert new ∧
        (o.store.reviewersIn id).size = (s.reviewersIn id).size ∧
        o.store.Shows id request) := by
  refine ⟨fun f hkeeps => hs.reassign_of_keepsReviewer hkeeps w, fun hfree => ?_⟩
  obtain ⟨p, u, hp, hopened, hknown, rfl, hassigned, hfollow⟩ := hs.replaceable_of_free hfree
  obtain ⟨new, hnew⟩ := hfollow w
  have hanswer := reassign_of_candidate hs.complete hp hopened hassigned hknown hnew
  obtain ⟨hrow, hid⟩ := mem_of_find?_key hp
  obtain ⟨huser, -⟩ := mem_of_find?_key hknown
  obtain ⟨hactive, hauthor, hfresh⟩ := Store.mem_of_successor hnew
  refine ⟨p.stored, hrow, u, huser, hid, rfl, _, new, _, hanswer, ?_⟩
  refine ⟨Store.mem_activeIn.1 hactive, hauthor, hfresh, rfl, ?_, ?_, ?_⟩
  · exact Store.reviewersIn_withSwap id u.id new
  · exact Store.size_reviewersIn_withSwap hassigned hfresh
  · exact ⟨hs.has .pulls, hs.has .reviews, hp, rfl⟩

end Desk

/-- Two teams.  Of one an open pull request has its author and a reviewer, and of the other
another reviewer, who is not active any more. -/
def Store.ofMixedTeams : Store where
  teams := ["t", "x"]
  users := [⟨"a", "A", "t", true⟩, ⟨"b", "B", "t", true⟩, ⟨"c", "C", "x", false⟩,
    ⟨"d", "D", "x", true⟩, ⟨"e", "E", "x", true⟩, ⟨"f", "F", "x", true⟩]
  pulls := [⟨"p", "P", "a", "OPEN", .epoch, none⟩, ⟨"m", "M", "a", "MERGED", .epoch, some .epoch⟩]
  reviews := [⟨"p", "b"⟩, ⟨"m", "b"⟩, ⟨"p", "c"⟩]

theorem Store.sound_ofMixedTeams : ofMixedTeams.Sound where
  complete := by decide
  consistent := by constructor <;> decide
  readable := by
    intro p hp
    simp only [ofMixedTeams, List.mem_cons, List.not_mem_nil, or_false] at hp
    rcases hp with rfl | rfl
    · exact ⟨.opened, rfl⟩
    · exact ⟨.merged, rfl⟩

namespace Desk

/-- Nobody of the first team can follow there, but somebody of the second can, although the
reviewer who leaves is not active. -/
theorem replaced_ofMixedTeams :
    Store.ofMixedTeams.Sound ∧
    reassign "z" "b" ⟨.ofMixedTeams, default⟩ = .error .pullNotFound ⟨.ofMixedTeams, default⟩ ∧
    reassign "p" "b" ⟨.ofMixedTeams, default⟩ = .error .noCandidate ⟨.ofMixedTeams, default⟩ ∧
    (∀ f, ¬ Store.ofMixedTeams.KeepsReviewer "p" "c" f) ∧
    ∃ request o, reassign "p" "c" ⟨.ofMixedTeams, default⟩ = .ok ⟨request, "f"⟩ o ∧
      o.store.reviews = [⟨"p", "b"⟩, ⟨"m", "b"⟩, ⟨"p", "f"⟩] ∧ o.store.Shows "p" request := by
  have hsound := Store.sound_ofMixedTeams
  have hteam : ∀ u ∈ Store.ofMixedTeams.users, u.team = "t" →
      u.id = "a" ∨ ⟨"p", u.id⟩ ∈ Store.ofMixedTeams.reviews := by decide
  have hkept : Store.ofMixedTeams.KeepsReviewer "p" "b" .noCandidate := by
    refine @Store.KeepsReviewer.noCandidate _ ⟨"p", "P", "a", "OPEN", .epoch, none⟩
      ⟨"b", "B", "t", true⟩ (by decide) rfl (by decide) (by decide) ?_
    rintro user ⟨u, hu, rfl, hsame, -⟩
    exact hteam u hu hsame
  obtain ⟨request, o, hanswer⟩ :
      ∃ request o, reassign "p" "c" ⟨.ofMixedTeams, default⟩ = .ok ⟨request, "f"⟩ o := ⟨_, _, rfl⟩
  obtain ⟨hrefused, hreplaced⟩ := replaced_unless_refused hsound "p" "c" default
  have hfree : ∀ f, ¬ Store.ofMixedTeams.KeepsReviewer "p" "c" f := by
    intro f hkeeps
    cases hanswer.symm.trans (hrefused f hkeeps)
  refine ⟨hsound, ?_, ?_, hfree, request, o, hanswer, ?_⟩
  · exact (replaced_unless_refused hsound "z" "b" default).1 _ (.unknown (by decide))
  · exact (replaced_unless_refused hsound "p" "b" default).1 _ hkept
  · obtain ⟨-, -, -, -, -, -, _, _, _, hsame, -, -, -, hstore, -, -, hshown⟩ := hreplaced hfree
    cases hanswer.symm.trans hsame
    exact ⟨congrArg Store.reviews hstore, hshown⟩

/-- Why a pull request is not opened: the first cause that applies. -/
theorem createPull_eq_error_iff (hs : s.Sound) {now : Instant} {id : PullId} {name : String}
    {author : UserId} {w : Words} {f : Failure} {o : Office} :
    createPull now id name author ⟨s, w⟩ = .error f o ↔
      (f = .pullExists ∧ id ∈ s.pulls.map (·.id) ∨
        f = .authorNotFound ∧ id ∉ s.pulls.map (·.id) ∧ author ∉ s.users.map (·.id)) ∧
      o = ⟨s, w⟩ := by
  rcases hs.find?_pull id with hnone | ⟨p, hp⟩
  · have hnew : id ∉ s.pulls.map (·.id) := by simpa using hnone
    cases hauthor : s.users.find? (·.id = author) with
    | none =>
        have hunknown : author ∉ s.users.map (·.id) := by simpa using hauthor
        rw [createPull_of_no_author hs.complete hnone hauthor]
        simp [hnew, hunknown, eq_comm]
    | some u =>
        obtain ⟨hu, rfl⟩ := mem_of_find?_key hauthor
        have hknown : u.id ∈ s.users.map (·.id) := List.mem_map_of_mem hu
        rw [createPull_of_author hs.complete hs.consistent hnone hauthor]
        simp [hnew, hknown]
  · have htaken : id ∈ s.pulls.map (·.id) := List.mem_map.2 ⟨p.stored, mem_of_find?_key hp⟩
    rw [createPull_of_isPull (hs.has .pulls) hp author]
    simp [htaken, eq_comm]

/-- **Opened unless refused.**  In a sound store, opening a pull request fails exactly if the
id is taken, or if it is not and the author is unknown, and then nothing changes.  Otherwise
it is opened, whether the author is active or not.  It gets two of the author's colleagues, or
all of them if they are no more, and then no word is drawn.  Its one row and one review row
for each of them are put behind the others, and the answer shows it as it is stored. -/
theorem opened_unless_refused (hs : s.Sound) (now : Instant) (id : PullId) (name : String)
    (author : UserId) (w : Words) :
    (∀ f o, createPull now id name author ⟨s, w⟩ = .error f o ↔
      (f = .pullExists ∧ id ∈ s.pulls.map (·.id) ∨
        f = .authorNotFound ∧ id ∉ s.pulls.map (·.id) ∧ author ∉ s.users.map (·.id)) ∧
      o = ⟨s, w⟩) ∧
    (id ∉ s.pulls.map (·.id) → ∀ u ∈ s.users, u.id = author →
      let opened : Pull := ⟨id, name, author, .opened, now, none⟩
      ∃ reviewers o, createPull now id name author ⟨s, w⟩ = .ok ⟨opened, .ofList reviewers⟩ o ∧
        reviewers.Nodup ∧ (∀ user ∈ reviewers, user ∈ s.colleagues u) ∧
        reviewers.length = min 2 (s.colleagues u).size ∧
        ((s.colleagues u).size ≤ 2 → reviewers = (s.colleagues u).toList ∧ o.words = w) ∧
        o.store = { s with
          pulls := s.pulls ++ [opened.stored]
          reviews := s.reviews ++ reviewers.map fun user => ⟨id, user⟩ } ∧
        o.store.Shows id ⟨opened, .ofList reviewers⟩) := by
  refine ⟨fun f o => createPull_eq_error_iff hs, ?_⟩
  intro hnew u hu hauthor opened
  subst hauthor
  have hnone : s.pulls.find? (·.id = id) = none := by simpa using hnew
  have hknown : s.users.find? (·.id = u.id) = some u :=
    find?_eq_some_of_mem hs.consistent.userKeys hu
  let picked := w.pick (s.activeIn u.team) (.ofList [u.id]) maxReviewers
  have hstored : (s.withPull opened.stored picked.1).reviewersIn id = .ofList picked.1 :=
    Store.reviewersIn_opened (p := opened.stored) hs.consistent hnew picked.1
  have hanswer : createPull now id name u.id ⟨s, w⟩ =
      .ok ⟨opened, .ofList picked.1⟩ ⟨s.withPull opened.stored picked.1, picked.2⟩ := by
    rw [← hstored]
    exact createPull_of_author hs.complete hs.consistent hnone hknown
  have hshown : (s.withPull opened.stored picked.1).Shows id ⟨opened, .ofList picked.1⟩ := by
    rw [← hstored]
    exact Store.shows_withPull hs.complete hnone picked.1
  refine ⟨picked.1, _, hanswer, Words.nodup_pick, ?_, ?_, ?_, rfl, hshown⟩
  · intro user huser
    rw [← Store.colleagues_eq_diff, Ascending.mem_diff]
    exact Words.mem_of_mem_pick huser
  · rw [← Store.colleagues_eq_diff]
    exact Words.length_pick
  · intro hfew
    rw [← Store.colleagues_eq_diff] at hfew ⊢
    have hall : picked = (((s.activeIn u.team).diff (.ofList [u.id])).toList, w) :=
      Words.pick_of_le w hfew
    rw [hall]
    exact ⟨rfl, rfl⟩

/-- The draw is one of two out of three; where there is but one colleague nothing is drawn. -/
theorem opened_ofMixedTeams :
    Store.ofMixedTeams.Sound ∧
    createPull .epoch "p" "N" "z" ⟨.ofMixedTeams, default⟩ =
      .error .pullExists ⟨.ofMixedTeams, default⟩ ∧
    createPull .epoch "n" "N" "z" ⟨.ofMixedTeams, default⟩ =
      .error .authorNotFound ⟨.ofMixedTeams, default⟩ ∧
    (∃ reviewers o, createPull .epoch "n" "N" "c" ⟨.ofMixedTeams, default⟩ =
        .ok ⟨⟨"n", "N", "c", .opened, .epoch, none⟩, .ofList reviewers⟩ o ∧
      reviewers.length = 2 ∧ (∀ user ∈ reviewers, user ∈ ["d", "e", "f"]) ∧
      o.store.reviewersIn "n" = .ofList reviewers) ∧
    ∃ o, createPull .epoch "n" "N" "a" ⟨.ofMixedTeams, default⟩ =
        .ok ⟨⟨"n", "N", "a", .opened, .epoch, none⟩, .ofList ["b"]⟩ o ∧
      o.words = default ∧ o.store.reviews = Store.ofMixedTeams.reviews ++ [⟨"n", "b"⟩] := by
  have hnew : "n" ∉ Store.ofMixedTeams.pulls.map (·.id) := by decide
  have hsound := Store.sound_ofMixedTeams
  refine ⟨hsound, ?_, ?_, ?_, ?_⟩
  · apply ((opened_unless_refused hsound .epoch "p" "N" "z" default).1 _ _).2
    exact ⟨.inl ⟨rfl, by decide⟩, rfl⟩
  · apply ((opened_unless_refused hsound .epoch "n" "N" "z" default).1 _ _).2
    exact ⟨.inr ⟨rfl, hnew, by decide⟩, rfl⟩
  · obtain ⟨reviewers, o, hanswer, -, hmem, hlength, -, -, hshown⟩ :=
      (opened_unless_refused hsound .epoch "n" "N" "c" default).2 hnew ⟨"c", "C", "x", false⟩
        (by decide) rfl
    exact ⟨reviewers, o, hanswer, hlength, hmem, hshown.reviewers.symm⟩
  · obtain ⟨reviewers, o, hanswer, -, -, -, hall, hstore, -⟩ :=
      (opened_unless_refused hsound .epoch "n" "N" "a" default).2 hnew ⟨"a", "A", "t", true⟩
        (by decide) rfl
    obtain ⟨rfl, hwords⟩ := hall (by decide)
    exact ⟨o, hanswer, hwords, congrArg Store.reviews hstore⟩

end Desk

end ReviewDesk
