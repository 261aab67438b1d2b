import Mathlib.Algebra.BigOperators.Group.Finset.Piecewise
import ReviewDesk.Proofs.Repairs

/-!
# How many slots are filled

A plan draws one replacement after the other and never looks ahead.  Still it fills as many
slots as can be filled, whatever is drawn, if no stale user is in a pool and nobody is in
two pools.

Then a draw takes one user from the pool of one team and none from the others, and the
reviewer who leaves does not come back.  So two numbers tell what becomes of a team within
a pull request: how many slots it still has to fill, and how many users it has to spare.
A slot that is filled takes one from both, and one that is dropped finds nobody to spare.
Either way the smaller of the two is what the team still fills.

* `min_lost_spare` — one slot;
* `filled_repairSlots` — all slots of a pull request;
* `repairs_fill_all_they_can` — what a plan makes of each pull request.
-/

namespace ReviewDesk

namespace Plan

variable {teamsOf : Keyed UserId TeamName} {pools : Keyed TeamName (Ascending UserId)}

/-! ## One slot -/

/-- How many of the listed users a team loses. -/
def lost (teamsOf : Keyed UserId TeamName) (olds : List UserId) (team : TeamName) : Nat :=
  olds.countP fun user => teamsOf.get? user = some team

/-- How many users a team has to spare for a pull request: those in its pool who are neither
the author nor review it. -/
def spare (pools : Keyed TeamName (Ascending UserId)) (author : UserId)
    (live : Ascending UserId) (team : TeamName) : Nat :=
  (pools.getD team ∅).toList.countP fun user => user ≠ author ∧ user ∉ live

variable {author old : UserId} {live : Ascending UserId} {team : TeamName}

theorem spare_eq_size :
    spare pools author live team = ((pools.getD team ∅).diff (live.insert author)).size := by
  rw [spare, List.countP_eq_length_filter, Ascending.size, Ascending.diff, Ascending.filter]
  congr 2
  funext user
  simp [not_or]

theorem spare_eq_zero_iff :
    spare pools author live team = 0 ↔ ∀ user ∈ pools.getD team ∅, user ∈ live.insert author := by
  rw [spare, List.countP_eq_zero]
  refine forall_congr' fun user => forall_congr' fun _ => ?_
  rw [Ascending.mem_insert, decide_eq_true_iff, not_and_or, not_not, not_not]

/-- Slots that others hold and others fill leave a team as many users to spare. -/
theorem spare_settle_of_not_mem (gone : old ∉ pools.getD team ∅) {replacement : Option UserId}
    (elsewhere : ∀ new, replacement = some new → new ∉ pools.getD team ∅) :
    spare pools author (settle live old replacement) team = spare pools author live team := by
  refine List.countP_congr fun user huser => ?_
  have hold : user ≠ old := fun heq => gone (heq ▸ huser)
  have hnew : replacement ≠ some user := fun heq => elsewhere user heq huser
  simp [mem_settle, hold, hnew]

/-- Whoever comes in from a team is one less to spare. -/
theorem spare_settle_of_mem (gone : old ∉ pools.getD team ∅) {new : UserId}
    (hpool : new ∈ pools.getD team ∅) (hnew : new ∉ live.insert author) :
    spare pools author (settle live old (some new)) team + 1 = spare pools author live team := by
  have hspare : new ∈ (pools.getD team ∅).diff (live.insert author) :=
    Ascending.mem_diff.2 ⟨hpool, hnew⟩
  have hrest : (pools.getD team ∅).diff ((settle live old (some new)).insert author) =
      ((pools.getD team ∅).diff (live.insert author)).erase new := by
    refine Ascending.ext fun user => ?_
    simp only [Ascending.mem_diff, Ascending.mem_erase, Ascending.mem_insert, mem_settle,
      Option.some.injEq]
    constructor
    · intro h
      obtain ⟨huser, hnot⟩ := h
      have hold : user ≠ old := fun heq => gone (heq ▸ huser)
      refine ⟨⟨huser, fun h => hnot ?_⟩, fun heq => hnot (.inr (.inr heq.symm))⟩
      exact h.imp_right fun hlive => .inl ⟨hlive, hold⟩
    · intro h
      obtain ⟨⟨huser, hnot⟩, hne⟩ := h
      refine ⟨huser, ?_⟩
      rintro (hauthor | ⟨hlive, -⟩ | heq)
      · exact hnot (.inl hauthor)
      · exact hnot (.inr hlive)
      · exact hne heq.symm
  rw [spare_eq_size, spare_eq_size, hrest]
  exact Ascending.size_erase hspare

variable (teamsOf author live) in
/-- Deciding about one slot takes one from what its team fills, if it is filled, and nothing
from what any team fills, if it is dropped. -/
theorem min_lost_spare (gone : ∀ team, old ∉ pools.getD team ∅)
    (disjoint : ∀ team other user, user ∈ pools.getD team ∅ → user ∈ pools.getD other ∅ →
      team = other)
    (others : List UserId) (w : Words) (team : TeamName) :
    let drawn := (w.pickOne (candidates teamsOf pools old) (live.insert author)).1
    min (lost teamsOf (old :: others) team) (spare pools author live team) =
      min (lost teamsOf others team) (spare pools author (settle live old drawn) team) +
        if teamsOf.get? old = some team ∧ drawn.isSome then 1 else 0 := by
  intro drawn
  by_cases hteam : teamsOf.get? old = some team
  · have hlost : lost teamsOf (old :: others) team = lost teamsOf others team + 1 :=
      List.countP_cons_of_pos (decide_eq_true hteam)
    have hcandidates : candidates teamsOf pools old = pools.getD team ∅ :=
      candidates_eq_getD hteam
    cases hdrawn : drawn with
    | none =>
        -- nobody was left to draw, so there is nobody to spare
        have hnobody : spare pools author live team = 0 := by
          rw [spare_eq_zero_iff, ← hcandidates]
          exact Words.pickOne_eq_none_iff.1 hdrawn
        have hstill : spare pools author (settle live old none) team = 0 := by
          rw [← hnobody]
          refine spare_settle_of_not_mem (gone team) ?_
          intro new heq
          cases heq
        simp [hnobody, hstill]
    | some new =>
        obtain ⟨hpool, hnew⟩ := Words.mem_of_pickOne hdrawn
        rw [hcandidates] at hpool
        have hspare := spare_settle_of_mem (gone team) hpool hnew
        simp only [hteam, Option.isSome_some, and_self, if_true]
        omega
  · have hlost : lost teamsOf (old :: others) team = lost teamsOf others team :=
      List.countP_cons_of_neg (by simp [hteam])
    have helsewhere : ∀ new, drawn = some new → new ∉ pools.getD team ∅ := by
      intro new hdrawn hpool
      obtain ⟨other, hother, hmem⟩ := mem_candidates.1 (Words.mem_of_pickOne hdrawn).1
      exact hteam (disjoint team other new hpool hmem ▸ hother)
    have hspare : spare pools author (settle live old drawn) team = spare pools author live team :=
      spare_settle_of_not_mem (gone team) helsewhere
    simp [hlost, hspare, hteam]

/-! ## One pull request -/

section Slots

variable {pull : PullId} {olds : List UserId}

variable (pools) in
/-- A slot that is filled is filled from one team. -/
theorem sum_filled {teams : Finset TeamName}
    (hteams : ∀ team, teamsOf.get? old = some team → team ∈ teams) (exclude : Ascending UserId)
    (w : Words) :
    let drawn := (w.pickOne (candidates teamsOf pools old) exclude).1
    (∑ team ∈ teams, if teamsOf.get? old = some team ∧ drawn.isSome then 1 else 0) =
      if drawn.isSome then 1 else 0 := by
  intro drawn
  cases hdrawn : drawn with
  | none => simp
  | some new =>
      obtain ⟨team, hteam, -⟩ := mem_candidates.1 (Words.mem_of_pickOne hdrawn).1
      simp [hteam, hteams team hteam]

/-- Of each team as many slots are filled as it loses users or as it has users to spare,
whichever is less. -/
theorem filled_repairSlots (gone : ∀ old ∈ olds, ∀ team, old ∉ pools.getD team ∅)
    (disjoint : ∀ team other user, user ∈ pools.getD team ∅ → user ∈ pools.getD other ∅ →
      team = other)
    {teams : Finset TeamName}
    (hteams : ∀ old ∈ olds, ∀ team, teamsOf.get? old = some team → team ∈ teams) (w : Words) :
    (repairSlots teamsOf pools pull author olds live w).1.countP (·.replacement.isSome) =
      ∑ team ∈ teams, min (lost teamsOf olds team) (spare pools author live team) := by
  induction olds generalizing live w with
  | nil => simp [repairSlots, lost]
  | cons old others ih =>
      have hgone := gone old List.mem_cons_self
      have hstep := min_lost_spare teamsOf author live hgone disjoint others w
      have hrest : ∀ live w,
          (repairSlots teamsOf pools pull author others live w).1.countP (·.replacement.isSome) =
            ∑ team ∈ teams, min (lost teamsOf others team) (spare pools author live team) := by
        intro live w
        exact ih (fun user huser => gone user (List.mem_cons_of_mem old huser))
          (fun user huser => hteams user (List.mem_cons_of_mem old huser)) w
      have hone := sum_filled pools (hteams old List.mem_cons_self) (live.insert author) w
      rw [repairSlots, List.countP_cons, hrest, Finset.sum_congr rfl fun team _ => hstep team,
        Finset.sum_add_distrib, hone]

/-- A repair leaves those who stay and those who come in. -/
theorem mem_settleAll_repairSlots (gone : ∀ team, ∀ user ∈ pools.getD team ∅, user ∉ olds)
    {user : UserId} (w : Words) :
    user ∈ settleAll live (repairSlots teamsOf pools pull author olds live w).1 ↔
      (user ∈ live ∧ user ∉ olds) ∨
        ∃ r ∈ (repairSlots teamsOf pools pull author olds live w).1, r.replacement = some user := by
  induction olds generalizing live w with
  | nil => simp [repairSlots, settleAll]
  | cons old others ih =>
      have hgone : ∀ team, ∀ user ∈ pools.getD team ∅, user ∉ others := fun team user huser hmem =>
        gone team user huser (List.mem_cons_of_mem old hmem)
      have hcame : (w.pickOne (candidates teamsOf pools old) (live.insert author)).1 = some user →
          user ∉ others := by
        intro hnew
        obtain ⟨team, -, hpool⟩ := mem_candidates.1 (Words.mem_of_pickOne hnew).1
        exact hgone team user hpool
      rw [repairSlots, settleAll, List.foldl_cons, ← settleAll, ih hgone, mem_settle]
      simp only [List.mem_cons, exists_eq_or_imp, not_or]
      constructor
      · rintro (⟨hstays | hnew, hothers⟩ | hlater)
        · exact .inl ⟨hstays.1, hstays.2, hothers⟩
        · exact .inr (.inl hnew)
        · exact .inr (.inr hlater)
      · rintro (⟨hlive, hne, hothers⟩ | hnew | hlater)
        · exact .inl ⟨.inl ⟨hlive, hne⟩, hothers⟩
        · exact .inl ⟨.inr hnew, hcame hnew⟩
        · exact .inr hlater

end Slots

/-! ## Plans -/

open Board (ofAffected record)

variable {stale : Ascending UserId} {affected : Keyed PullId Affected} {pull : PullId}
  {a : Affected}

/-- How many records bring somebody into a pull request. -/
def filled (pull : PullId) (records : List Reassignment) : Nat :=
  records.countP fun r => r.pull = pull ∧ r.replacement.isSome

theorem filled_eq_countP (pull : PullId) (records : List Reassignment) :
    filled pull records =
      (records.filter (·.pull = pull)).countP (·.replacement.isSome) := by
  rw [filled, List.countP_filter]
  refine List.countP_congr fun r _ => ?_
  simp [and_comm]

theorem filled_planReassignments (fresh : ∀ team, ∀ user ∈ pools.getD team ∅, user ∉ stale)
    (disjoint : ∀ team other user, user ∈ pools.getD team ∅ → user ∈ pools.getD other ∅ →
      team = other)
    (ha : (pull, a) ∈ affected.toList) {teams : Finset TeamName}
    (hteams : ∀ user ∈ a.reviewers, user ∈ stale → ∀ team, teamsOf.get? user = some team →
      team ∈ teams) (w : Words) :
    filled pull (planReassignments teamsOf pools stale affected w).1 =
      ∑ team ∈ teams, min (lost teamsOf (a.reviewers.inter stale).toList team)
        (spare pools a.author a.reviewers team) := by
  obtain ⟨v, hrepair⟩ := filter_planReassignments teamsOf pools stale ha w
  rw [filled_eq_countP, hrepair]
  refine filled_repairSlots (fun old hold team hpool => ?_) disjoint (fun old hold => ?_) v
  · exact fresh team old hpool (Ascending.mem_inter.1 hold).2
  · exact hteams old (Ascending.mem_inter.1 hold).1 (Ascending.mem_inter.1 hold).2

theorem mem_foldl_planReassignments (fresh : ∀ team, ∀ user ∈ pools.getD team ∅, user ∉ stale)
    (ha : (pull, a) ∈ affected.toList) (w : Words) {user : UserId} :
    user ∈ (planReassignments teamsOf pools stale affected w).1.foldl record (ofAffected affected)
        pull ↔
      (user ∈ a.reviewers ∧ user ∉ stale) ∨
        ∃ r ∈ (planReassignments teamsOf pools stale affected w).1,
          r.pull = pull ∧ r.replacement = some user := by
  obtain ⟨v, hrepair⟩ := filter_planReassignments teamsOf pools stale ha w
  have hgone : ∀ team, ∀ user ∈ pools.getD team ∅, user ∉ (a.reviewers.inter stale).toList :=
    fun team user hpool hmem => fresh team user hpool (Ascending.mem_inter.1 hmem).2
  have hrecords : (∃ r ∈ (planReassignments teamsOf pools stale affected w).1,
        r.pull = pull ∧ r.replacement = some user) ↔
      ∃ r ∈ (planReassignments teamsOf pools stale affected w).1.filter (·.pull = pull),
        r.replacement = some user := by
    simp [List.mem_filter, and_assoc]
  have hstays : user ∈ a.reviewers ∧ user ∉ (a.reviewers.inter stale).toList ↔
      user ∈ a.reviewers ∧ user ∉ stale := by
    rw [Ascending.mem_toList, Ascending.mem_inter]
    exact and_congr_right fun hheld => not_congr (and_iff_right hheld)
  rw [Board.foldl_record_apply, Board.ofAffected_of_mem ha, hrecords, hrepair,
    mem_settleAll_repairSlots hgone, hstays]

/-- **A plan fills all it can.**  Let no stale user be in a pool and nobody in two pools.
Then, whatever is drawn, of each team a pull request gets as many replacements as stale
reviewers of that team leave it, or as many as the pool of the team has users who are
neither its author nor among its original reviewers, whichever is less.  It is left with
the reviewers who are not stale and with those who came in, so with nobody stale.  How many
it gets does not depend on the other pull requests that are repaired with it. -/
theorem repairs_fill_all_they_can {teamsOf : Keyed UserId TeamName}
    {pools : Keyed TeamName (Ascending UserId)} {stale : Ascending UserId}
    {affected : Keyed PullId Affected}
    (fresh : ∀ team, ∀ user ∈ pools.getD team ∅, user ∉ stale)
    (disjoint : ∀ team other user, user ∈ pools.getD team ∅ → user ∈ pools.getD other ∅ →
      team = other)
    {pull : PullId} {a : Affected} (ha : (pull, a) ∈ affected.toList) (w : Words) :
    let plan := (planReassignments teamsOf pools stale affected w).1
    let reviewers := plan.foldl record (ofAffected affected) pull
    (∀ teams : Finset TeamName,
      (∀ user ∈ a.reviewers, user ∈ stale → ∀ team, teamsOf.get? user = some team →
        team ∈ teams) →
      filled pull plan = ∑ team ∈ teams,
        min ((a.reviewers.inter stale).toList.countP fun user => teamsOf.get? user = some team)
          ((pools.getD team ∅).toList.countP fun user => user ≠ a.author ∧ user ∉ a.reviewers)) ∧
    (∀ user, user ∈ reviewers ↔ (user ∈ a.reviewers ∧ user ∉ stale) ∨
      ∃ r ∈ plan, r.pull = pull ∧ r.replacement = some user) ∧
    (∀ user ∈ reviewers, user ∉ stale) ∧
    ∀ (others : Keyed PullId Affected) (v : Words), (pull, a) ∈ others.toList →
      filled pull (planReassignments teamsOf pools stale others v).1 = filled pull plan := by
  intro plan reviewers
  have hleft : ∀ user, user ∈ reviewers ↔ (user ∈ a.reviewers ∧ user ∉ stale) ∨
      ∃ r ∈ plan, r.pull = pull ∧ r.replacement = some user := fun user =>
    mem_foldl_planReassignments fresh ha w
  refine ⟨fun teams hteams => ?_, hleft, fun user huser => ?_, fun others v hothers => ?_⟩
  · exact filled_planReassignments fresh disjoint ha hteams w
  · rcases (hleft user).1 huser with ⟨-, hstays⟩ | ⟨r, hr, -, hnew⟩
    · exact hstays
    · obtain ⟨before, later, hplan⟩ := List.append_of_mem hr
      obtain ⟨_, -, hdecides⟩ := decides_of_plan hplan
      obtain ⟨team, -, hpool⟩ := (hdecides.chosen user hnew).2.2.2
      exact fresh team user hpool
  · have hteams : ∀ user ∈ a.reviewers, user ∈ stale → ∀ team, teamsOf.get? user = some team →
        team ∈ ((a.reviewers.inter stale).toList.filterMap teamsOf.get?).toFinset := by
      intro user hheld hstale team hteam
      rw [List.mem_toFinset, List.mem_filterMap]
      exact ⟨user, Ascending.mem_inter.2 ⟨hheld, hstale⟩, hteam⟩
    rw [filled_planReassignments fresh disjoint hothers hteams,
      filled_planReassignments fresh disjoint ha hteams]

/-- The pools of two teams. -/
def twoPools : Keyed TeamName (Ascending UserId) :=
  .ofList [("s", .ofList ["a", "f"]), ("t", .ofList ["g", "h"])]

/-- A pull request with three stale reviewers, two of them from the team of its author, and
another one with one of these two. -/
def sharedStale : Keyed PullId Affected :=
  .ofList [("p", ⟨"a", .ofList ["b", "c", "d", "e"]⟩), ("q", ⟨"e", .ofList ["b"]⟩)]

/-- The team of the author has one user to spare for two slots, the other team two for one. -/
theorem sharedStale_filled :
    let stale := Ascending.ofList ["b", "c", "d"]
    let teamsOf : Keyed UserId TeamName := .ofList [("b", "s"), ("c", "s"), ("d", "t")]
    let plan := (planReassignments teamsOf twoPools stale sharedStale default).1
    (∀ team, ∀ user ∈ twoPools.getD team ∅, user ∉ stale) ∧
    (∀ team other user, user ∈ twoPools.getD team ∅ → user ∈ twoPools.getD other ∅ →
      team = other) ∧
    filled "p" plan = min 2 1 + min 1 2 ∧
    ∀ user ∈ plan.foldl record (ofAffected sharedStale) "p", user ∉ stale := by
  intro stale teamsOf plan
  have hcases : ∀ team user, user ∈ twoPools.getD team ∅ →
      team = "s" ∧ user ∈ ["a", "f"] ∨ team = "t" ∧ user ∈ ["g", "h"] := by
    intro team user huser
    cases hpool : twoPools.get? team with
    | none =>
        rw [Keyed.getD, hpool] at huser
        exact absurd huser Ascending.not_mem_empty
    | some pool =>
        rw [Keyed.getD, hpool] at huser
        have hlisted := Keyed.mem_of_mem_ofList (Keyed.get?_eq_some_iff.1 hpool)
        rcases List.mem_cons.1 hlisted with heq | hlisted
        · obtain ⟨rfl, rfl⟩ := Prod.mk.inj heq
          exact .inl ⟨rfl, Ascending.mem_ofList.1 huser⟩
        · obtain ⟨rfl, rfl⟩ := Prod.mk.inj (List.mem_singleton.1 hlisted)
          exact .inr ⟨rfl, Ascending.mem_ofList.1 huser⟩
  have hfresh : ∀ team, ∀ user ∈ twoPools.getD team ∅, user ∉ stale := by
    have hnames : ∀ user ∈ ["a", "f", "g", "h"], user ∉ stale := by decide
    intro team user huser
    rcases hcases team user huser with ⟨-, hs⟩ | ⟨-, ht⟩
    · exact hnames user (List.mem_append_left ["g", "h"] hs)
    · exact hnames user (List.mem_append_right ["a", "f"] ht)
  have hdisjoint : ∀ team other user, user ∈ twoPools.getD team ∅ →
      user ∈ twoPools.getD other ∅ → team = other := by
    have hnames : ∀ user ∈ ["a", "f"], user ∉ ["g", "h"] := by decide
    intro team other user hteam hother
    rcases hcases team user hteam with ⟨rfl, hs⟩ | ⟨rfl, ht⟩ <;>
      rcases hcases other user hother with ⟨rfl, hs'⟩ | ⟨rfl, ht'⟩
    · rfl
    · exact absurd ht' (hnames user hs)
    · exact absurd ht (hnames user hs')
    · rfl
  have hmem : ("p", ⟨"a", .ofList ["b", "c", "d", "e"]⟩) ∈ sharedStale.toList := by decide
  obtain ⟨hfilled, -, hleft, -⟩ :=
    @repairs_fill_all_they_can teamsOf twoPools stale sharedStale hfresh hdisjoint "p" _ hmem
      default
  refine ⟨hfresh, hdisjoint, (hfilled {"s", "t"} ?_).trans ?_, hleft⟩
  · intro user _ _ team hteam
    have hlisted := Keyed.mem_of_mem_ofList (Keyed.get?_eq_some_iff.1 hteam)
    have hnames : team ∈ ["s", "s", "t"] := List.mem_map_of_mem (f := Prod.snd) hlisted
    simpa using hnames
  · decide

end Plan

end ReviewDesk
