import ReviewDesk.Proofs.DeskSteps
import ReviewDesk.Proofs.Queries

/-!
# Deactivating a team drops every slot

The repair after a deactivation looks for replacements in the team of the
reviewer who left.  All reviewers who left are members of the deactivated team,
and that team has no active member any more.  So the pool is empty for every
slot: nobody is ever drawn, and every slot is dropped.

There are two ingredients.

1.  A plan without candidates drops the slots in order and leaves the stream of
    words alone (`repairAll_of_no_candidates`).
2.  The affected pull requests, collected by id with all their reviewers, hold
    exactly the review rows of the deactivated members on open pull requests
    (`mem_slotsOf_affected`).

Together they say what a deactivation does to any store with the four tables,
whatever rows it holds: `deactivateHere_eq_ok` gives the answer, the store and
the words, and `deactivate_drops_every_slot` describes them by the rows before it.
-/

namespace ReviewDesk

/-! ## Plans without candidates -/

namespace Plan

/-- The reassignment that drops a reviewer. -/
def drop (r : Review) : Reassignment := ⟨r.pull, r.user, none⟩

/-- The slots that stale reviewers hold, in the order in which a plan visits
them. -/
def slotsOf (stale : Ascending UserId) (affected : List (PullId × Affected)) : List Review :=
  affected.flatMap fun e => (e.2.reviewers.inter stale).toList.map fun user => ⟨e.1, user⟩

variable {teamsOf : Keyed UserId TeamName} {pools : Keyed TeamName (Ascending UserId)}

theorem repairSlots_of_no_candidates (hnone : ∀ user, candidates teamsOf pools user = ∅)
    (pull : PullId) (author : UserId) (olds : List UserId) (live : Ascending UserId)
    (w : Words) :
    repairSlots teamsOf pools pull author olds live w
      = (olds.map fun user => drop ⟨pull, user⟩, w) := by
  induction olds generalizing live with
  | nil => rfl
  | cons old others ih => simp [repairSlots, hnone, Words.pickOne_empty, ih, drop]

/-- Without candidates a plan drops all slots in order and draws no word. -/
theorem repairAll_of_no_candidates (hnone : ∀ user, candidates teamsOf pools user = ∅)
    (stale : Ascending UserId) (affected : List (PullId × Affected)) (w : Words) :
    repairAll teamsOf pools stale affected w = ((slotsOf stale affected).map drop, w) := by
  induction affected with
  | nil => rfl
  | cons e others ih =>
      simp [repairAll, repairSlots_of_no_candidates hnone, ih, slotsOf, List.map_flatMap]

/-- Slots are visited by pull request and within one by reviewer. -/
theorem slotsOf_ascends (stale : Ascending UserId) (affected : Keyed PullId Affected) :
    (slotsOf stale affected.toList).Pairwise fun r t =>
      r.pull < t.pull ∨ r.pull = t.pull ∧ r.user < t.user := by
  refine List.pairwise_flatMap.2 ⟨fun e _ => ?_, ?_⟩
  · refine List.pairwise_map.2 ?_
    exact (e.2.reviewers.inter stale).ascends.imp fun h => .inr ⟨rfl, h⟩
  · refine (List.pairwise_map.1 affected.ascends).imp fun {d e} hkey r hr t ht => .inl ?_
    obtain ⟨_, _, rfl⟩ := List.mem_map.1 hr
    obtain ⟨_, _, rfl⟩ := List.mem_map.1 ht
    exact hkey

end Plan

/-! ## The slots of a team -/

namespace Store

/-- Whether the store can be used and has all four tables. -/
def isComplete (s : Store) : Bool := Table.all.all s.has

theorem has_of_isComplete {s : Store} (h : s.isComplete = true) (t : Table) : s.has t = true := by
  have hall := List.all_eq_true.1 h
  cases t <;> exact hall _ (by decide)

/-- Whether an open pull request has this id. -/
def isOpenPull (s : Store) (id : PullId) : Bool :=
  s.pulls.any fun p => p.id = id ∧ p.status = Status.opened.text

theorem isOpenPull_iff {s : Store} {id : PullId} :
    s.isOpenPull id = true ↔ ∃ p ∈ s.pulls, p.id = id ∧ p.status = Status.opened.text := by
  simp [isOpenPull]

/-- The store with users switched off. -/
def switchOff (s : Store) (users : Ascending UserId) : Store :=
  { s with users := s.users.map fun u => if u.id ∈ users then { u with isActive := false } else u }

/-- The store with users switched off and without their reviews of open pull
requests. -/
def retire (s : Store) (users : Ascending UserId) : Store :=
  { s.switchOff users with
    reviews := s.reviews.filter fun r => ¬ (r.user ∈ users ∧ s.isOpenPull r.pull = true) }

theorem retire_empty (s : Store) : s.retire ∅ = s := by
  have hreviews : (s.reviews.filter fun r => ¬ (r.user ∈ (∅ : Ascending UserId) ∧
      s.isOpenPull r.pull = true)) = s.reviews :=
    List.filter_eq_self.2 fun r _ => by simp [Ascending.not_mem_empty]
  have husers : (s.users.map fun u =>
      if u.id ∈ (∅ : Ascending UserId) then { u with isActive := false } else u) = s.users := by
    simp [Ascending.not_mem_empty]
  simp only [retire, switchOff, hreviews, husers]

/-- A team whose active members are switched off has no active member. -/
theorem activeIn_switchOff (s : Store) (team : TeamName) :
    (s.switchOff (s.activeIn team)).activeIn team = ∅ := by
  refine Ascending.ext fun id => ?_
  refine iff_of_false (fun h => ?_) Ascending.not_mem_empty
  obtain ⟨v, hv, -, hteam, hactive⟩ := mem_activeIn.1 h
  obtain ⟨u, hu, rfl⟩ := List.mem_map.1 hv
  by_cases hoff : u.id ∈ s.activeIn team
  · rw [if_pos hoff] at hactive
    cases hactive
  · rw [if_neg hoff] at hteam hactive
    exact hoff (mem_activeIn.2 ⟨u, hu, rfl, hteam, hactive⟩)

/-- The affected pull requests are open, someone of the given users reviews
them, and each has all its reviewers. -/
theorem affectedBy_eq_ok {s : Store} {users : Ascending UserId}
    {affected : Keyed PullId Affected} (h : s.affectedBy users = .ok affected) :
    (∀ e ∈ affected.toList, e.2.reviewers = s.reviewersIn e.1) ∧
      ∀ id, id ∈ affected.keys ↔ ∃ p ∈ s.pulls, p.id = id ∧ s.isAffected users p = true := by
  rw [affectedBy_eq, reading_eq_ok, Except.ok.injEq] at h
  obtain ⟨-, rfl⟩ := h
  refine ⟨fun e he => ?_, fun id => ?_⟩
  · obtain ⟨p, -, rfl⟩ := List.mem_map.1 (Keyed.mem_of_mem_ofList he)
    rfl
  · rw [affected, Keyed.mem_keys_ofList, List.map_map, List.mem_map]
    constructor
    · intro h
      obtain ⟨p, hp, rfl⟩ := h
      obtain ⟨hmem, haffected⟩ := List.mem_filter.1 hp
      exact ⟨p, hmem, rfl, haffected⟩
    · intro h
      obtain ⟨p, hmem, rfl, haffected⟩ := h
      exact ⟨p, List.mem_filter.2 ⟨hmem, haffected⟩, rfl⟩

/-- The affected pull requests hold exactly the reviews of open pull requests
by the given users. -/
theorem mem_slotsOf_affected {s : Store} {users : Ascending UserId}
    {affected : Keyed PullId Affected} (h : s.affectedBy users = .ok affected) {r : Review} :
    r ∈ Plan.slotsOf users affected.toList ↔
      r ∈ s.reviews ∧ r.user ∈ users ∧ s.isOpenPull r.pull = true := by
  obtain ⟨hreviewers, hkeys⟩ := affectedBy_eq_ok h
  simp only [Plan.slotsOf, List.mem_flatMap, List.mem_map, Ascending.mem_toList,
    Ascending.mem_inter]
  constructor
  · intro h
    obtain ⟨e, he, user, ⟨hreviewer, huser⟩, rfl⟩ := h
    obtain ⟨p, hp, hid, haffected⟩ := (hkeys e.1).1 (List.mem_map_of_mem he)
    rw [hreviewers e he, mem_reviewersIn] at hreviewer
    exact ⟨hreviewer, huser, isOpenPull_iff.2 ⟨p, hp, hid, (isAffected_iff.1 haffected).1⟩⟩
  · intro h
    obtain ⟨hr, huser, hopen⟩ := h
    obtain ⟨p, hp, hid, hstatus⟩ := isOpenPull_iff.1 hopen
    have haffected : s.isAffected users p = true :=
      isAffected_iff.2 ⟨hstatus, r, hr, hid.symm, huser⟩
    obtain ⟨e, he, hkey⟩ := List.mem_map.1 ((hkeys r.pull).2 ⟨p, hp, hid, haffected⟩)
    have hreviewer : r.user ∈ e.2.reviewers := by
      rw [hreviewers e he, mem_reviewersIn, hkey]
      exact hr
    exact ⟨e, he, r.user, ⟨hreviewer, huser⟩, by rw [hkey]⟩

/-- Taking the slots of switched off users out is all that is left to do. -/
theorem retire_eq_of_affected {s : Store} {users : Ascending UserId}
    {affected : Keyed PullId Affected} (h : (s.switchOff users).affectedBy users = .ok affected) :
    s.retire users = { s.switchOff users with
      reviews := s.reviews.filter (· ∉ Plan.slotsOf users affected.toList) } := by
  have hreviews : (s.reviews.filter fun r => ¬ (r.user ∈ users ∧ s.isOpenPull r.pull = true))
      = s.reviews.filter (· ∉ Plan.slotsOf users affected.toList) := by
    refine List.filter_congr fun r hr => decide_eq_decide.2 (not_congr ?_)
    rw [mem_slotsOf_affected h]
    exact (and_iff_right hr).symm
  rw [retire, hreviews]

end Store

/-! ## What a deactivation does -/

/-- A report of all active members of a team and of their slots on open pull
requests, by pull request and reviewer, each of them dropped. -/
structure Deactivation.DropsSlotsOf (d : Deactivation) (s : Store) (team : TeamName) : Prop where
  /-- Who was an active member is switched off. -/
  members : ∀ id, id ∈ d.deactivated ↔
    ∃ u ∈ s.users, u.id = id ∧ u.team = team ∧ u.isActive = true
  /-- Who reviewed an open pull request is dropped from it. -/
  slots : ∀ r, r ∈ d.reassignments ↔
    r.replacement = none ∧ r.old ∈ d.deactivated ∧ ⟨r.pull, r.old⟩ ∈ s.reviews ∧
      ∃ p ∈ s.pulls, p.id = r.pull ∧ p.status = Status.opened.text
  ascends : d.reassignments.Pairwise fun r t =>
    r.pull < t.pull ∨ r.pull = t.pull ∧ r.old < t.old

/-- A team without active members loses no slot. -/
theorem Deactivation.dropsSlotsOf_of_isEmpty {s : Store} {team : TeamName}
    (hempty : s.activeIn team = ∅) : (Deactivation.mk ∅ []).DropsSlotsOf s team where
  members id := by rw [← hempty, Store.mem_activeIn]
  slots r := by
    refine iff_of_false List.not_mem_nil fun h => ?_
    exact Ascending.not_mem_empty h.2.1
  ascends := .nil

/-- The slots that the affected pull requests hold are all that are lost. -/
theorem Deactivation.dropsSlotsOf_of_affected {s : Store} {team : TeamName}
    {affected : Keyed PullId Affected}
    (haffected : (s.switchOff (s.activeIn team)).affectedBy (s.activeIn team) = .ok affected) :
    (Deactivation.mk (s.activeIn team)
      ((Plan.slotsOf (s.activeIn team) affected.toList).map Plan.drop)).DropsSlotsOf s team where
  members id := Store.mem_activeIn
  slots r := by
    obtain ⟨pull, old, replacement⟩ := r
    simp only [List.mem_map, Store.mem_slotsOf_affected haffected, ← Store.isOpenPull_iff]
    constructor
    · intro h
      obtain ⟨r, ⟨hr, huser, hopen⟩, ⟨⟩⟩ := h
      exact ⟨rfl, huser, hr, hopen⟩
    · intro h
      obtain ⟨rfl, huser, hr, hopen⟩ := h
      exact ⟨⟨pull, old⟩, ⟨hr, huser, hopen⟩, rfl⟩
  ascends := List.pairwise_map.2 (Plan.slotsOf_ascends _ affected)

namespace Desk

variable {team : TeamName} {s : Store} {w : Words}

/-- Carrying out dropped slots takes their review rows out of the store. -/
theorem forM_carryOut_drop (hreviews : s.has .reviews = true) (slots : List Review) :
    (slots.map Plan.drop).forM carryOut ⟨s, w⟩
      = .ok () ⟨{ s with reviews := s.reviews.filter (· ∉ slots) }, w⟩ := by
  induction slots generalizing s with
  | nil =>
      have hall : s.reviews.filter (· ∉ []) = s.reviews :=
        List.filter_eq_self.2 fun _ _ => by simp
      exact pure_eq_ok.2 ⟨rfl, by rw [hall]⟩
  | cons r others ih =>
      have hrow : carryOut (Plan.drop r) ⟨s, w⟩
          = .ok () ⟨{ s with reviews := s.reviews.filter (· ≠ r) }, w⟩ :=
        changeUnless_bind_eq_ok.2 ⟨_, Store.delete_review_eq_ok.2 ⟨hreviews, rfl⟩, rfl⟩
      have hreviews' : ∀ reviews, ({ s with reviews } : Store).has .reviews = true :=
        fun _ => hreviews
      refine bind_eq_ok.2 ⟨(), _, hrow, (ih (hreviews' _)).trans ?_⟩
      simp [List.filter_filter, Bool.and_comm]

/-- Without candidates a repair drops all slots of the affected pull requests. -/
theorem repair_of_no_candidates {teamsOf : Keyed UserId TeamName} (husers : s.has .users = true)
    (hreviews : s.has .reviews = true)
    (hnone : ∀ user, Plan.candidates teamsOf s.activePools user = ∅) (stale : Ascending UserId)
    (affected : Keyed PullId Affected) :
    repair teamsOf stale affected ⟨s, w⟩ =
      .ok ((Plan.slotsOf stale affected.toList).map Plan.drop)
        ⟨{ s with reviews := s.reviews.filter (· ∉ Plan.slotsOf stale affected.toList) }, w⟩ := by
  have hdropped := forM_carryOut_drop (w := w) hreviews (Plan.slotsOf stale affected.toList)
  unfold repair
  split
  · rename_i hempty
    rw [Keyed.eq_empty_of_isEmpty hempty] at hdropped ⊢
    obtain ⟨-, hsame⟩ := pure_eq_ok.1 hdropped
    exact pure_eq_ok.2 ⟨rfl, hsame⟩
  · rw [ask_bind_eq_ok]
    refine ⟨_, Store.reading_eq_ok.2 ⟨husers, rfl⟩, draw_bind_eq_ok.2 ?_⟩
    rw [planReassignments, Plan.repairAll_of_no_candidates hnone]
    exact bind_eq_ok.2 ⟨(), _, hdropped, pure_eq_ok.2 ⟨rfl, rfl⟩⟩

/-- A team without active members has nothing to repair. -/
theorem deactivateHere_of_isEmpty (hteams : s.has .teams = true) (husers : s.has .users = true)
    (hteam : s.isTeam team = true) (hempty : s.activeIn team = ∅) :
    deactivateHere team ⟨s, w⟩ = .ok ⟨∅, []⟩ ⟨s, w⟩ := by
  simp only [deactivateHere, ask_bind_eq_ok, ite_eq_ok]
  refine ⟨true, Store.reading_eq_ok.2 ⟨hteams, by rw [hteam]⟩, .inl ⟨rfl, s.activeRows team, ?_⟩⟩
  refine ⟨Store.reading_eq_ok.2 ⟨husers, rfl⟩, .inl ⟨?_, pure_eq_ok.2 ⟨rfl, rfl⟩⟩⟩
  rw [Store.activeRows_eq_nil_iff.2 hempty]
  rfl

/-- With active members all their slots on open pull requests are dropped. -/
theorem deactivateHere_of_affected (hteams : s.has .teams = true) (husers : s.has .users = true)
    (hreviews : s.has .reviews = true) (hteam : s.isTeam team = true)
    (hsome : s.activeIn team ≠ ∅) {affected : Keyed PullId Affected}
    (haffected : (s.switchOff (s.activeIn team)).affectedBy (s.activeIn team) = .ok affected) :
    deactivateHere team ⟨s, w⟩
      = .ok ⟨s.activeIn team, (Plan.slotsOf (s.activeIn team) affected.toList).map Plan.drop⟩
          ⟨s.retire (s.activeIn team), w⟩ := by
  have hkeys : (teamsById (s.activeRows team)).keys = s.activeIn team := by
    rw [keys_teamsById, Store.ofList_activeRows]
  -- whoever left is of this team, and nobody of it is active any more
  have hnone : ∀ user, Plan.candidates (teamsById (s.activeRows team))
      (s.switchOff (s.activeIn team)).activePools user = ∅ := by
    intro user
    cases hfound : (teamsById (s.activeRows team)).get? user with
    | none => exact Plan.candidates_eq_empty _ hfound
    | some other =>
        obtain ⟨u, hu, heq⟩ := List.mem_map.1
          (Keyed.mem_of_mem_ofList (Keyed.get?_eq_some_iff.1 hfound))
        obtain ⟨rfl, rfl⟩ := Prod.mk.inj heq
        rw [Plan.candidates_eq_getD hfound, Store.getD_activePools, (Store.mem_activeRows.1 hu).2.1]
        exact Store.activeIn_switchOff s team
  have hrepaired := repair_of_no_candidates (s := s.switchOff (s.activeIn team)) (w := w) husers
    hreviews hnone (s.activeIn team) affected
  simp only [deactivateHere, ask_bind_eq_ok, ite_eq_ok, change, changeUnless_bind_eq_ok]
  refine ⟨true, Store.reading_eq_ok.2 ⟨hteams, by rw [hteam]⟩, .inl ⟨rfl, s.activeRows team, ?_⟩⟩
  refine ⟨Store.reading_eq_ok.2 ⟨husers, rfl⟩, .inr ⟨?_, ?_⟩⟩
  · simpa [Store.activeRows_eq_nil_iff] using hsome
  rw [hkeys]
  refine ⟨s.switchOff (s.activeIn team), Store.updating_eq_ok.2 ⟨husers, ?_⟩, affected,
    haffected, bind_eq_ok.2 ⟨_, _, hrepaired, pure_eq_ok.2 ⟨rfl, ?_⟩⟩⟩
  · simp [Store.switchOff]
  · rw [Store.retire_eq_of_affected haffected]
    rfl

/-- A deactivation that answers reports the active members and their dropped
slots, retires the members and draws no word. -/
theorem deactivateHere_eq_ok {o o' : Office} {d : Deactivation}
    (h : deactivateHere team o = .ok d o') :
    o.store.isTeam team = true ∧ d.DropsSlotsOf o.store team ∧
      o' = { o with store := o.store.retire d.deactivated } := by
  have hkeys : (teamsById (o.store.activeRows team)).keys = o.store.activeIn team := by
    rw [keys_teamsById, Store.ofList_activeRows]
  have hparts := h
  simp only [deactivateHere, ask_bind_eq_ok, ite_eq_ok, throw_bind_eq_ok, and_false,
    or_false] at hparts
  obtain ⟨_, hask, rfl, members, hmembers, hrest⟩ := hparts
  obtain ⟨hteams, hteam⟩ := Store.reading_eq_ok.1 hask
  obtain ⟨husers, hactive⟩ := Store.reading_eq_ok.1 hmembers
  obtain rfl : o.store.activeRows team = members := Except.ok.inj hactive
  have hteam : o.store.isTeam team = true := Except.ok.inj hteam
  rcases hrest with ⟨hempty, -⟩ | ⟨hsome, hrest⟩
  · have hnobody : o.store.activeIn team = ∅ :=
      Store.activeRows_eq_nil_iff.1 (List.isEmpty_iff.1 hempty)
    rw [deactivateHere_of_isEmpty hteams husers hteam hnobody] at h
    cases h
    exact ⟨hteam, Deactivation.dropsSlotsOf_of_isEmpty hnobody, by rw [Store.retire_empty]⟩
  · simp only [change, changeUnless_bind_eq_ok, ask_bind_eq_ok, hkeys] at hrest
    obtain ⟨_, hoff, affected, haffected, -⟩ := hrest
    obtain ⟨-, rfl⟩ := Store.updating_eq_ok.1 hoff
    have haffected : (o.store.switchOff (o.store.activeIn team)).affectedBy
        (o.store.activeIn team) = .ok affected := by
      simpa [Store.switchOff] using haffected
    have hreviews : o.store.has .reviews = true := by
      rw [Store.affectedBy_eq] at haffected
      exact (Store.reading_eq_ok.1 haffected).1
    have hsome : o.store.activeIn team ≠ ∅ := by
      simpa [Store.activeRows_eq_nil_iff] using hsome
    rw [deactivateHere_of_affected hteams husers hreviews hteam hsome haffected] at h
    cases h
    exact ⟨hteam, Deactivation.dropsSlotsOf_of_affected haffected, rfl⟩

/-- With all four tables at hand a deactivation of an existing team answers. -/
theorem exists_deactivateHere (hcomplete : s.isComplete = true) (hteam : s.isTeam team = true) :
    ∃ d o', deactivateHere team ⟨s, w⟩ = .ok d o' := by
  have hhas := Store.has_of_isComplete hcomplete
  by_cases hempty : s.activeIn team = ∅
  · exact ⟨_, _, deactivateHere_of_isEmpty (hhas .teams) (hhas .users) hteam hempty⟩
  · obtain ⟨affected, haffected⟩ : ∃ affected,
        (s.switchOff (s.activeIn team)).affectedBy (s.activeIn team) = .ok affected := by
      have hreviews : (s.switchOff (s.activeIn team)).has .reviews = true := hhas .reviews
      rw [Store.affectedBy_eq]
      exact ⟨_, Store.reading_eq_ok.2 ⟨hreviews, rfl⟩⟩
    exact ⟨_, _, deactivateHere_of_affected (hhas .teams) (hhas .users) (hhas .reviews) hteam
      hempty haffected⟩

/-- **Every slot is dropped.**  Deactivating a team that does not exist fails
and changes nothing.  Otherwise it answers with the team's active members and
all their slots on open pull requests, dropped; it switches these members off,
takes these review rows out and changes no other row; and it draws no word. -/
theorem deactivate_drops_every_slot (hcomplete : s.isComplete = true) :
    (team ∉ s.teams → deactivate team ⟨s, w⟩ = .error .teamNotFound ⟨s, w⟩) ∧
    (team ∈ s.teams → ∃ d : Deactivation, d.DropsSlotsOf s team ∧
      deactivate team ⟨s, w⟩ = .ok d ⟨{ s with
        users := s.users.map fun u =>
          if u.id ∈ d.deactivated then { u with isActive := false } else u
        reviews := s.reviews.filter fun r => ¬ (r.user ∈ d.deactivated ∧
          ∃ p ∈ s.pulls, p.id = r.pull ∧ p.status = Status.opened.text) }, w⟩) := by
  have hteams : s.has .teams = true := Store.has_of_isComplete hcomplete .teams
  have hopen : s.isOpen = true := Store.isOpen_of_has hteams
  constructor
  · intro hnot
    have hteam : s.isTeam team = false := by simpa [Store.isTeam] using hnot
    apply transaction_of_error hopen
    simp only [deactivateHere, ask_bind_eq_error, ite_eq_error, throw_bind_eq_error]
    exact .inr ⟨false, Store.reading_eq_ok.2 ⟨hteams, by rw [hteam]⟩, .inr ⟨by simp, by simp⟩⟩
  · intro hmem
    obtain ⟨d, o', h⟩ := exists_deactivateHere (w := w) hcomplete (Store.isTeam_iff.2 hmem)
    obtain ⟨-, hdrops, rfl⟩ := deactivateHere_eq_ok h
    refine ⟨d, hdrops, transaction_eq_ok.2 ⟨hopen, h.trans ?_⟩⟩
    simp only [Store.retire, Store.switchOff, Store.isOpenPull_iff]

end Desk

/-- Two teams that review for each other.  One pull request is merged, and one
has a status that nobody knows. -/
def Store.ofTwoTeams : Store where
  teams := ["t", "x"]
  users := [⟨"a", "A", "t", true⟩, ⟨"b", "B", "t", true⟩, ⟨"c", "C", "t", false⟩,
    ⟨"d", "D", "x", true⟩, ⟨"e", "E", "x", true⟩]
  pulls := [⟨"m", "M", "d", "MERGED", .epoch, some .epoch⟩, ⟨"o", "O", "d", "OPEN", .epoch, none⟩,
    ⟨"q", "Q", "d", "DRAFT", .epoch, none⟩]
  reviews := [⟨"m", "a"⟩, ⟨"m", "b"⟩, ⟨"o", "a"⟩, ⟨"o", "c"⟩, ⟨"o", "e"⟩, ⟨"q", "b"⟩]

namespace Desk

theorem deactivate_ofTwoTeams :
    Store.ofTwoTeams.isComplete = true ∧
    deactivate "z" ⟨.ofTwoTeams, default⟩ = .error .teamNotFound ⟨.ofTwoTeams, default⟩ ∧
    ∃ d o, deactivate "t" ⟨.ofTwoTeams, default⟩ = .ok d o ∧ ⟨"o", "a", none⟩ ∈ d.reassignments ∧
      (∀ r ∈ d.reassignments, r.pull = "o") ∧
      o.store.reviews = [⟨"m", "a"⟩, ⟨"m", "b"⟩, ⟨"o", "c"⟩, ⟨"o", "e"⟩, ⟨"q", "b"⟩] := by
  have hcomplete : Store.ofTwoTeams.isComplete = true := by decide
  refine ⟨hcomplete, ?_, ?_⟩
  · exact (deactivate_drops_every_slot hcomplete).1 (by decide)
  · obtain ⟨d, hdrops, hanswer⟩ := (deactivate_drops_every_slot hcomplete).2
      (by decide : "t" ∈ Store.ofTwoTeams.teams)
    refine ⟨d, _, hanswer, ?_, ?_, ?_⟩
    · refine (hdrops.slots _).2 ⟨rfl, (hdrops.members "a").2 ?_, ?_, ?_⟩ <;> decide
    · intro r hr
      obtain ⟨-, -, -, p, hp, hid, hopen⟩ := (hdrops.slots r).1 hr
      have honly : ∀ p ∈ Store.ofTwoTeams.pulls, p.status = Status.opened.text → p.id = "o" := by
        decide
      rw [← hid]
      exact honly p hp hopen
    · simp only [hdrops.members]
      decide

end Desk

end ReviewDesk
