import ReviewDesk.Proofs.Log
import ReviewDesk.Proofs.Outcomes

/-!
# Two ways to replace a reviewer

A reviewer can be replaced by hand.  Then the team of the reviewer is looked up,
its active members are read, and whoever is drawn takes the place at once.  A
repair goes another way: it has a map from the stale reviewers to their teams and
one from teams to their pools, which was filled from a single reading of all active
users.  It decides about every slot first, and writes when all is decided.

For a single slot both ways choose alike.  What the maps have for the reviewer,
nobody if the team has no pool, are the active members of the team.  So the one
draw of the plan is the draw that is made by hand, and carrying out its record
writes what is written by hand.  They part only where nobody can follow: by hand
this is refused and the reviewer stays, while the plan drops the slot.

With several slots the plan cannot look at the store, where nothing is written
yet.  It keeps the reviewers itself, and what it keeps is what the store would
hold if the slots decided so far were settled there.

* `planReassignments_of_one` — a plan for one slot is one draw;
* `planned_as_by_hand` — its record is what replacing by hand comes to;
* `repair_one_by_one` — to repair a pull request is to replace its stale reviewers
  one by one.
-/

namespace ReviewDesk

namespace Plan

variable {teamsOf : Keyed UserId TeamName} {pools : Keyed TeamName (Ascending UserId)}

/-- A plan for one pull request is the repair of its stale slots. -/
theorem planReassignments_of_pull (stale : Ascending UserId) (pull : PullId) (a : Affected)
    (w : Words) :
    planReassignments teamsOf pools stale (.ofList [(pull, a)]) w =
      repairSlots teamsOf pools pull a.author (a.reviewers.inter stale).toList a.reviewers w := by
  change repairAll teamsOf pools stale [(pull, a)] w = _
  simp only [repairAll, List.append_nil]

/-- A plan for one reviewer of one pull request makes one draw, from the pool of
the reviewer's team. -/
theorem planReassignments_of_one {pull : PullId} {a : Affected} {user : UserId} {team : TeamName}
    (held : user ∈ a.reviewers) (hteam : teamsOf.get? user = some team) (w : Words) :
    planReassignments teamsOf pools (.ofList [user]) (.ofList [(pull, a)]) w =
      ([⟨pull, user, (w.pickOne (pools.getD team ∅) (a.reviewers.insert a.author)).1⟩],
        (w.pickOne (pools.getD team ∅) (a.reviewers.insert a.author)).2) := by
  have hstale : a.reviewers.inter (.ofList [user]) = .ofList [user] := by
    refine Ascending.ext fun v => ?_
    rw [Ascending.mem_inter, Ascending.mem_ofList, List.mem_singleton]
    exact ⟨And.right, fun hv => ⟨hv ▸ held, hv⟩⟩
  have hpool : candidates teamsOf pools user = pools.getD team ∅ := candidates_eq_getD hteam
  rw [planReassignments_of_pull, hstale, ← hpool]
  rfl

end Plan

namespace Store

/-- The plan for the slot of one reviewer of one pull request. -/
def planFor (s : Store) (pools : Keyed TeamName (Ascending UserId)) (p : StoredPull) (u : User) :
    Words → List Reassignment × Words :=
  planReassignments (teamsById [u]) pools (.ofList [u.id])
    (.ofList [(p.id, ⟨p.author, s.reviewersIn p.id⟩)])

/-- The pool in which a plan looks up the team holds those whom the query for the active users of
this team finds.  So the plan for one slot draws as replacing by hand does. -/
theorem planFor_activePools {s : Store} {p : StoredPull} {u : User}
    (assigned : ⟨p.id, u.id⟩ ∈ s.reviews) (w : Words) :
    s.planFor s.activePools p u w =
      ([⟨p.id, u.id, (s.successor p.id p.author u w).1⟩], (s.successor p.id p.author u w).2) := by
  have hteam : (teamsById [u]).get? u.id = some u.team :=
    Keyed.get?_eq_some_iff.2 List.mem_cons_self
  rw [planFor, Plan.planReassignments_of_one (mem_reviewersIn.2 assigned) hteam, getD_activePools]
  rfl

end Store

namespace Desk

variable {s : Store} {id : PullId} {p : Pull}

/-! ## One slot -/

/-- A slot can be dropped, or filled with somebody who is known and new to the pull
request. -/
theorem carryOut_of_fresh {r : Reassignment} (hreviews : s.has .reviews = true)
    (hpull : s.isPull r.pull = true)
    (hfresh : ∀ new, r.replacement = some new → s.isUser new = true ∧ ⟨r.pull, new⟩ ∉ s.reviews)
    (w : Words) : carryOut r ⟨s, w⟩ = .ok () ⟨s.settled r, w⟩ := by
  obtain ⟨pull, old, replacement⟩ := r
  cases replacement with
  | none =>
      have hrest : s.settled ⟨pull, old, none⟩ =
          { s with reviews := s.reviews.filter (· ≠ ⟨pull, old⟩) } := by
        simp [Store.settled]
      rw [hrest]
      exact changeUnless_bind_eq_ok.2 ⟨_, Store.delete_review_eq_ok.2 ⟨hreviews, rfl⟩, rfl⟩
  | some new =>
      obtain ⟨hknown, hnew⟩ := hfresh new rfl
      exact swapReviewer_of_new hreviews hpull hknown hnew

/-- What is drawn for a slot can be carried out. -/
theorem carryOut_successor (hcomplete : s.isComplete = true)
    (found : s.pulls.find? (·.id = id) = some p.stored) (old : User) (w v : Words) :
    carryOut ⟨id, old.id, (s.successor id p.author old w).1⟩ ⟨s, v⟩ =
      .ok () ⟨s.settled ⟨id, old.id, (s.successor id p.author old w).1⟩, v⟩ := by
  have hhas := Store.has_of_isComplete hcomplete
  have hpull : s.isPull id = true := Store.isPull_of_found found
  refine carryOut_of_fresh (hhas .reviews) hpull (fun new hnew => ?_) v
  obtain ⟨hactive, -, hfresh⟩ := Store.mem_of_successor hnew
  exact ⟨Store.isUser_iff.2 (Store.isUser_of_mem_activeIn hactive), hfresh⟩

/-- **Planned as by hand.**  In a consistent store, take any reviewer of an open
pull request, active or not, and any words.  The plan for this one slot has one
record.  It names nobody exactly when replacing the reviewer by hand is refused
because there is no candidate; then neither way draws a word.  Otherwise it names
whoever follows by hand, with the same words left, and carrying it out leaves the
same store. -/
theorem planned_as_by_hand {s : Store} (hcomplete : s.isComplete = true) (hs : s.Consistent)
    {p : StoredPull} (hp : p ∈ s.pulls) (hopened : p.status = Status.opened.text) {u : User}
    (hu : u ∈ s.users) (assigned : ⟨p.id, u.id⟩ ∈ s.reviews) (w : Words) :
    ∃ pools new, s.pools = .ok pools ∧ (s.planFor pools p u w).1 = [⟨p.id, u.id, new⟩] ∧
      (new = none ↔ ∃ o, reassign p.id u.id ⟨s, w⟩ = .error .noCandidate o) ∧
      match new with
      | none => reassign p.id u.id ⟨s, w⟩ = .error .noCandidate ⟨s, w⟩ ∧
          (s.planFor pools p u w).2 = w
      | some user => ∃ request after,
          reassign p.id u.id ⟨s, w⟩ = .ok ⟨request, user⟩ ⟨after, (s.planFor pools p u w).2⟩ ∧
          ∀ v, swapReviewer p.id u.id (some user) ⟨s, v⟩ = .ok () ⟨after, v⟩ := by
  have hhas := Store.has_of_isComplete hcomplete
  have hpools : s.pools = .ok s.activePools := Store.reading_eq_ok.2 ⟨hhas .users, rfl⟩
  have hknown : s.users.find? (·.id = u.id) = some u := find?_eq_some_of_mem hs.userKeys hu
  obtain ⟨q, hstatus, rfl⟩ := StoredPull.exists_stored hopened
  have hfound : s.pulls.find? (·.id = q.stored.id) = some q.stored :=
    find?_eq_some_of_mem hs.pullKeys hp
  have hcarried : ∀ v, carryOut ⟨q.id, u.id, (s.successor q.id q.author u w).1⟩ ⟨s, v⟩ =
      .ok () ⟨s.settled ⟨q.id, u.id, (s.successor q.id q.author u w).1⟩, v⟩ :=
    carryOut_successor hcomplete hfound u w
  refine ⟨s.activePools, (s.successor q.id q.author u w).1, hpools, ?_⟩
  rw [Store.planFor_activePools assigned]
  refine ⟨rfl, ?_⟩
  cases hdrawn : (s.successor q.id q.author u w).1 with
  | none =>
      have hrefused := reassign_of_no_candidate hcomplete hfound hstatus assigned hknown hdrawn
      have hwords := Store.words_of_no_successor hdrawn
      exact ⟨⟨fun _ => ⟨_, hrefused⟩, fun _ => rfl⟩, hrefused, hwords⟩
  | some new =>
      have hanswer := reassign_of_candidate hcomplete hfound hstatus assigned hknown hdrawn
      rw [hdrawn] at hcarried
      refine ⟨⟨fun h => ?_, fun h => ?_⟩, _, _, hanswer, hcarried⟩
      · cases h
      · obtain ⟨o, hrefused⟩ := h
        cases hanswer.symm.trans hrefused

end Desk

/-- One team, and a pull request whose only reviewer is not active any more. -/
def Store.ofOneReview : Store where
  teams := ["t"]
  users := [⟨"a", "A", "t", true⟩, ⟨"b", "B", "t", false⟩, ⟨"c", "C", "t", true⟩,
    ⟨"d", "D", "t", true⟩]
  pulls := [⟨"p", "P", "a", "OPEN", .epoch, none⟩]
  reviews := [⟨"p", "b"⟩]

namespace Desk

/-- There are two candidates.  Both ways draw one word and choose the second. -/
theorem planned_ofOneReview :
    Store.ofOneReview.isComplete = true ∧ Store.ofOneReview.Consistent ∧
    ∃ pools request after, Store.ofOneReview.pools = .ok pools ∧
      let planned := Store.ofOneReview.planFor pools ⟨"p", "P", "a", "OPEN", .epoch, none⟩
        ⟨"b", "B", "t", false⟩ default
      planned.1 = [⟨"p", "b", some "d"⟩] ∧ planned.2.taken = 1 ∧
      reassign "p" "b" ⟨.ofOneReview, default⟩ = .ok ⟨request, "d"⟩ ⟨after, planned.2⟩ ∧
      swapReviewer "p" "b" (some "d") ⟨.ofOneReview, default⟩ = .ok () ⟨after, default⟩ := by
  have hcomplete : Store.ofOneReview.isComplete = true := by decide
  have hconsistent : Store.ofOneReview.Consistent := by constructor <;> decide
  have hpull : ⟨"p", "P", "a", "OPEN", .epoch, none⟩ ∈ Store.ofOneReview.pulls := by decide
  have huser : ⟨"b", "B", "t", false⟩ ∈ Store.ofOneReview.users := by decide
  have hreview : ⟨"p", "b"⟩ ∈ Store.ofOneReview.reviews := by decide
  refine ⟨hcomplete, hconsistent, ?_⟩
  obtain ⟨pools, new, hpools, hplan, -, hnew⟩ :=
    planned_as_by_hand hcomplete hconsistent hpull rfl huser hreview default
  have hactive : Store.ofOneReview.activePools = pools := Except.ok.inj hpools
  subst hactive
  have hdrawn : new = some "d" := by
    have hone := congrArg (List.map Reassignment.replacement) hplan
    exact (List.singleton_inj.1 hone).symm
  subst hdrawn
  obtain ⟨request, after, hanswer, hswap⟩ := hnew
  exact ⟨_, request, after, hpools, hplan, rfl, hanswer, hswap default⟩

/-! ## Several slots -/

/-- Replaces a reviewer by hand, and drops the slot where nobody can follow. -/
def replaceOrDrop (id : PullId) (old : UserId) : Desk Unit := fun o =>
  match reassign id old o with
  | .ok _ o' => .ok () o'
  | .error .noCandidate o' => carryOut ⟨id, old, none⟩ o'
  | .error f o' => .error f o'

variable {s : Store} {id : PullId} {p : Pull} {teamsOf : Keyed UserId TeamName}

/-- Replacing by hand or dropping settles the slot with what is drawn for it. -/
theorem replaceOrDrop_eq (hcomplete : s.isComplete = true)
    (found : s.pulls.find? (·.id = id) = some p.stored) (hopened : p.status = .opened)
    {old : User} (assigned : ⟨id, old.id⟩ ∈ s.reviews)
    (known : s.users.find? (·.id = old.id) = some old) (w : Words) :
    replaceOrDrop id old.id ⟨s, w⟩ =
      .ok () ⟨s.settled ⟨id, old.id, (s.successor id p.author old w).1⟩,
        (s.successor id p.author old w).2⟩ := by
  cases hdrawn : (s.successor id p.author old w).1 with
  | none =>
      have hrefused := reassign_of_no_candidate hcomplete found hopened assigned known hdrawn
      have hdropped := carryOut_successor hcomplete found old w w
      rw [hdrawn] at hdropped
      simp only [replaceOrDrop, hrefused, hdropped, Store.words_of_no_successor hdrawn]
  | some new =>
      have hanswer := reassign_of_candidate hcomplete found hopened assigned known hdrawn
      simp only [replaceOrDrop, hanswer]
      rfl

/-- The slots behind the first one are decided as if it had been settled. -/
theorem repairSlots_cons (author : UserId) {old : User}
    (hteam : teamsOf.get? old.id = some old.team) (others : List UserId) (w : Words) :
    let drawn := s.successor id author old w
    let after := s.settled ⟨id, old.id, drawn.1⟩
    let rest := Plan.repairSlots teamsOf after.activePools id author others (after.reviewersIn id)
      drawn.2
    Plan.repairSlots teamsOf s.activePools id author (old.id :: others) (s.reviewersIn id) w =
      (⟨id, old.id, drawn.1⟩ :: rest.1, rest.2) := by
  intro drawn after rest
  have hpool : Plan.candidates teamsOf s.activePools old.id = s.activeIn old.team := by
    rw [Plan.candidates_eq_getD hteam, Store.getD_activePools]
  have hlive : after.reviewersIn id = Plan.settle (s.reviewersIn id) old.id drawn.1 := by
    rw [Store.reviewersIn_settled]
    exact Board.put_self _ _ _
  simp only [rest, hlive, Plan.repairSlots, hpool]
  rfl

/-- Slots of a pull request that are repaired as planned, or whose reviewers are
replaced or dropped one by one, are left alike. -/
theorem forM_repairSlots (hcomplete : s.isComplete = true)
    (found : s.pulls.find? (·.id = id) = some p.stored) (hopened : p.status = .opened)
    {olds : List UserId} (distinct : olds.Nodup) (assigned : ∀ old ∈ olds, ⟨id, old⟩ ∈ s.reviews)
    (known : ∀ old ∈ olds, ∃ u,
      s.users.find? (·.id = old) = some u ∧ teamsOf.get? old = some u.team)
    (w : Words) :
    ∃ after,
      let plan := Plan.repairSlots teamsOf s.activePools id p.author olds (s.reviewersIn id) w
      (∀ v, plan.1.forM carryOut ⟨s, v⟩ = .ok () ⟨after, v⟩) ∧
      olds.forM (replaceOrDrop id) ⟨s, w⟩ = .ok () ⟨after, plan.2⟩ := by
  induction olds generalizing s w with
  | nil => exact ⟨s, fun _ => rfl, rfl⟩
  | cons old others ih =>
      obtain ⟨hnotMem, hothers⟩ := List.nodup_cons.1 distinct
      obtain ⟨u, hfind, hteam⟩ := known old List.mem_cons_self
      obtain rfl : u.id = old := (mem_of_find?_key hfind).2
      have hfirst := assigned u.id List.mem_cons_self
      have hcarried := carryOut_successor hcomplete found u w
      have hbyHand := replaceOrDrop_eq hcomplete found hopened hfirst hfind w
      -- settling one slot leaves the other reviewers in place, and users and pull requests anyway
      have hstill : ∀ old ∈ others, ⟨id, old⟩ ∈
          (s.settled ⟨id, u.id, (s.successor id p.author u w).1⟩).reviews := by
        intro old hold
        refine Store.mem_settled (assigned old (List.mem_cons_of_mem _ hold)) ?_
        intro heq
        have hsame : old = u.id := (Review.mk.inj heq).2
        exact hnotMem (hsame ▸ hold)
      obtain ⟨after, hplanned, hrest⟩ := ih
        (s := s.settled ⟨id, u.id, (s.successor id p.author u w).1⟩) hcomplete found hothers hstill
        (fun old hold => known old (List.mem_cons_of_mem _ hold)) (s.successor id p.author u w).2
      refine ⟨after, ?_⟩
      rw [repairSlots_cons p.author hteam]
      refine ⟨fun v => bind_eq_ok.2 ⟨(), _, hcarried v, hplanned v⟩, ?_⟩
      exact bind_eq_ok.2 ⟨(), _, hbyHand, hrest⟩

/-- **One by one.**  In a consistent store, repairing an open pull request as
planned comes to replacing its stale reviewers by hand, one after the other, where
those whom nobody can follow are dropped: the same reviews are left, and the same
words. -/
theorem repair_one_by_one (hcomplete : s.isComplete = true) (hs : s.Consistent) {p : StoredPull}
    (hp : p ∈ s.pulls) (hopened : p.status = Status.opened.text) {stale : Ascending UserId}
    (hteams : ∀ u ∈ s.users, u.id ∈ stale → teamsOf.get? u.id = some u.team) (w : Words) :
    (do
      let plan ← draw (planReassignments teamsOf s.activePools stale
        (.ofList [(p.id, ⟨p.author, s.reviewersIn p.id⟩)]))
      plan.forM carryOut) ⟨s, w⟩ =
    ((s.reviewersIn p.id).inter stale).toList.forM (replaceOrDrop p.id) ⟨s, w⟩ := by
  obtain ⟨q, hstatus, rfl⟩ := StoredPull.exists_stored hopened
  have hfound : s.pulls.find? (·.id = q.stored.id) = some q.stored :=
    find?_eq_some_of_mem hs.pullKeys hp
  have hassigned : ∀ old ∈ ((s.reviewersIn q.id).inter stale).toList, ⟨q.id, old⟩ ∈ s.reviews :=
    fun old hold => Store.mem_reviewersIn.1 (Ascending.mem_inter.1 hold).1
  have hknown : ∀ old ∈ ((s.reviewersIn q.id).inter stale).toList,
      ∃ u, s.users.find? (·.id = old) = some u ∧ teamsOf.get? old = some u.team := by
    intro old hold
    obtain ⟨u, hfind, rfl⟩ := hs.find?_of_review (hassigned old hold)
    have huser : u ∈ s.users := (mem_of_find?_key hfind).1
    exact ⟨u, hfind, hteams u huser (Ascending.mem_inter.1 hold).2⟩
  obtain ⟨after, hplanned, hbyHand⟩ := forM_repairSlots hcomplete hfound hstatus
    ((s.reviewersIn q.id).inter stale).nodup hassigned hknown w
  refine Eq.trans (draw_bind_eq_ok.2 ?_) hbyHand.symm
  rw [Plan.planReassignments_of_pull]
  exact hplanned _

end Desk

end ReviewDesk
