import ReviewDesk.Proofs.Log

/-!
# Repairs, slot by slot

A plan decides about the slots of stale reviewers one after the other.  Which slots these
are is fixed before the first draw, but who is excluded from a draw is not: it is whoever
reviews the pull request at that moment, so those who left do not count any more and those
who came in already do.

What carries the plan from slot to slot is short.  The reviewers whose slots are still to
come are all there, each once; and somebody who comes in was not there, so is none of them.
Hence nobody who came in is ever taken out again, and nobody comes in twice.  This holds
whatever the pools are: they may overlap, be missing, or hold stale users.

A record of one pull request says nothing of the others.  So the plan, replayed on a board,
shows every pull request as the repair of its own slots leaves it.

* `Decides` — what has to hold of a record when its turn comes;
* `decides_of_repairSlots` — it holds of every record of one pull request;
* `replacements_distinct` — and no two of them bring in the same user;
* `filter_planReassignments` — what a plan says of a pull request is the repair of its slots;
* `plan_replays` — all of this for plans, replayed on the original reviewers.
-/

namespace ReviewDesk

/-- Somebody is picked unless the whole pool is excluded. -/
theorem Words.pickOne_eq_none_iff {pool exclude : Ascending UserId} {w : Words} :
    (w.pickOne pool exclude).1 = none ↔ ∀ user ∈ pool, user ∈ exclude := by
  constructor
  · intro h
    exact (pickOne_eq_none h).1
  · intro hall
    cases hpicked : (w.pickOne pool exclude).1 with
    | none => rfl
    | some user =>
        obtain ⟨hpool, hallowed⟩ := mem_of_pickOne hpicked
        exact absurd (hall user hpool) hallowed

namespace Plan

variable {teamsOf : Keyed UserId TeamName} {pools : Keyed TeamName (Ascending UserId)}

/-! ## One slot -/

/-- A candidate is in the pool of the team of the reviewer who leaves, if both are known. -/
theorem mem_candidates {old user : UserId} :
    user ∈ candidates teamsOf pools old ↔
      ∃ team, teamsOf.get? old = some team ∧ user ∈ pools.getD team ∅ := by
  cases hteam : teamsOf.get? old with
  | none =>
      rw [candidates_eq_empty _ hteam]
      exact iff_of_false Ascending.not_mem_empty (by simp)
  | some team => simp [candidates_eq_getD hteam]

theorem mem_settle {live : Ascending UserId} {old user : UserId} {replacement : Option UserId} :
    user ∈ settle live old replacement ↔
      (user ∈ live ∧ user ≠ old) ∨ replacement = some user := by
  cases replacement with
  | none => simp [settle]
  | some new =>
      simp only [settle, Ascending.mem_insert, Ascending.mem_erase, Option.some.injEq]
      rw [or_comm, eq_comm]

/-- A record is right for a pull request with this author and these reviewers. -/
structure Decides (teamsOf : Keyed UserId TeamName) (pools : Keyed TeamName (Ascending UserId))
    (author : UserId) (live : Ascending UserId) (r : Reassignment) : Prop where
  /-- The slot is held. -/
  held : r.old ∈ live
  /-- Whoever comes in is somebody else from the team of the reviewer who leaves. -/
  chosen : ∀ new, r.replacement = some new → new ∉ live ∧ new ≠ author ∧ new ≠ r.old ∧
    ∃ team, teamsOf.get? r.old = some team ∧ new ∈ pools.getD team ∅
  /-- Nobody comes in exactly if nobody could. -/
  dropped : r.replacement = none ↔
    ∀ team user, teamsOf.get? r.old = some team → user ∈ pools.getD team ∅ →
      user = author ∨ user ∈ live

/-- Drawing from the team of a reviewer without the author and those who review gives a
right record. -/
theorem decides_drawn (pull : PullId) {author old : UserId} {live : Ascending UserId}
    (held : old ∈ live) (w : Words) :
    Decides teamsOf pools author live
      ⟨pull, old, (w.pickOne (candidates teamsOf pools old) (live.insert author)).1⟩ where
  held := held
  chosen := by
    intro new hnew
    obtain ⟨hcandidate, hallowed⟩ := Words.mem_of_pickOne hnew
    rw [Ascending.mem_insert, not_or] at hallowed
    obtain ⟨hauthor, hlive⟩ := hallowed
    exact ⟨hlive, hauthor, fun hold => hlive (hold ▸ held), mem_candidates.1 hcandidate⟩
  dropped := by
    rw [Words.pickOne_eq_none_iff]
    constructor
    · intro hall team user hteam huser
      exact Ascending.mem_insert.1 (hall user (mem_candidates.2 ⟨team, hteam, huser⟩))
    · intro hall user hcandidate
      obtain ⟨team, hteam, huser⟩ := mem_candidates.1 hcandidate
      exact Ascending.mem_insert.2 (hall team user hteam huser)

/-! ## One pull request -/

/-- The reviewers of a pull request after records of its slots. -/
def settleAll (live : Ascending UserId) (records : List Reassignment) : Ascending UserId :=
  records.foldl (fun live r => settle live r.old r.replacement) live

section Slots

variable {pull : PullId} {author : UserId} {olds : List UserId} {live : Ascending UserId}

/-- Slots that are still to come stay held when another one is decided. -/
theorem held_settle {old : UserId} {others : List UserId} (distinct : (old :: others).Nodup)
    (held : ∀ user ∈ old :: others, user ∈ live) (replacement : Option UserId) :
    ∀ user ∈ others, user ∈ settle live old replacement := by
  intro user huser
  have hne : user ≠ old := fun heq => (List.nodup_cons.1 distinct).1 (heq ▸ huser)
  exact mem_settle.2 (.inl ⟨held user (List.mem_cons_of_mem old huser), hne⟩)

/-- The slots of stale reviewers are held. -/
theorem held_of_stale {a : Affected} {stale : Ascending UserId} :
    ∀ user ∈ (a.reviewers.inter stale).toList, user ∈ a.reviewers :=
  fun _ huser => (Ascending.mem_inter.1 huser).1

/-- Every record of a repair is right for the reviewers whom the records before it leave. -/
theorem decides_of_repairSlots (distinct : olds.Nodup) (held : ∀ user ∈ olds, user ∈ live)
    {w : Words} {before later : List Reassignment} {r : Reassignment}
    (h : (repairSlots teamsOf pools pull author olds live w).1 = before ++ r :: later) :
    Decides teamsOf pools author (settleAll live before) r := by
  induction olds generalizing live w before with
  | nil => simp [repairSlots] at h
  | cons old others ih =>
      have hfirst := held old List.mem_cons_self
      have hothers := (List.nodup_cons.1 distinct).2
      cases before with
      | nil =>
          obtain ⟨rfl, -⟩ := List.cons.inj h
          exact decides_drawn pull hfirst w
      | cons b before =>
          obtain ⟨rfl, hrest⟩ := List.cons.inj h
          exact ih hothers (held_settle distinct held _) hrest

/-- Who reviews a pull request and does not leave is not brought in. -/
theorem replacement_ne_of_mem {user : UserId} (huser : user ∈ live) (stays : user ∉ olds)
    {w : Words} {r : Reassignment}
    (hr : r ∈ (repairSlots teamsOf pools pull author olds live w).1) :
    r.replacement ≠ some user := by
  induction olds generalizing live w with
  | nil => cases hr
  | cons old others ih =>
      rw [List.mem_cons, not_or] at stays
      obtain ⟨hne, hlater⟩ := stays
      rcases List.mem_cons.1 hr with rfl | hr
      · intro hnew
        have hallowed := (Words.mem_of_pickOne hnew).2
        exact hallowed (Ascending.mem_insert.2 (.inr huser))
      · exact ih (mem_settle.2 (.inl ⟨huser, hne⟩)) hlater hr

/-- No two records of a repair bring in the same user. -/
theorem replacements_distinct (distinct : olds.Nodup) (held : ∀ user ∈ olds, user ∈ live)
    (w : Words) :
    (repairSlots teamsOf pools pull author olds live w).1.Pairwise fun r t =>
      ∀ new, r.replacement = some new → t.replacement ≠ some new := by
  induction olds generalizing live w with
  | nil => exact .nil
  | cons old others ih =>
      have hothers := (List.nodup_cons.1 distinct).2
      refine List.pairwise_cons.2 ⟨?_, ih hothers (held_settle distinct held _) _⟩
      intro t ht new hnew
      -- whoever comes in for the first slot is there when the others are decided
      have hcame : new ∈ settle live old (some new) := mem_settle.2 (.inr rfl)
      have hfresh : new ∉ live := by
        have hallowed := (Words.mem_of_pickOne hnew).2
        exact fun hlive => hallowed (Ascending.mem_insert.2 (.inr hlive))
      have hstays : new ∉ others := fun hmem =>
        hfresh (held new (List.mem_cons_of_mem old hmem))
      rw [← hnew] at hcame
      exact replacement_ne_of_mem hcame hstays ht

end Slots

/-! ## All pull requests -/

theorem pull_of_mem_repairSlots {pull : PullId} {author : UserId} {olds : List UserId}
    {live : Ascending UserId} {w : Words} {r : Reassignment}
    (hr : r ∈ (repairSlots teamsOf pools pull author olds live w).1) : r.pull = pull := by
  have hslot := List.mem_map_of_mem (f := fun r : Reassignment => (r.pull, r.old)) hr
  rw [map_slot_repairSlots] at hslot
  obtain ⟨_, -, heq⟩ := List.mem_map.1 hslot
  exact (Prod.mk.inj heq).1.symm

variable (teamsOf pools) in
/-- A plan lists the slots that stale reviewers hold, in order. -/
theorem map_slot_repairAll (stale : Ascending UserId) (affected : List (PullId × Affected))
    (w : Words) :
    (repairAll teamsOf pools stale affected w).1.map (fun r => (⟨r.pull, r.old⟩ : Review)) =
      slotsOf stale affected := by
  induction affected generalizing w with
  | nil => rfl
  | cons e others ih =>
      have hfirst := congrArg (List.map fun slot : PullId × UserId => (⟨slot.1, slot.2⟩ : Review))
        (map_slot_repairSlots teamsOf pools e.1 e.2.author (e.2.reviewers.inter stale).toList
          e.2.reviewers w)
      rw [List.map_map, List.map_map] at hfirst
      have hall : slotsOf stale (e :: others) =
          (e.2.reviewers.inter stale).toList.map (fun user => ⟨e.1, user⟩) ++
            slotsOf stale others := List.flatMap_cons
      rw [repairAll, List.map_append, ih, hall]
      exact congrArg (· ++ slotsOf stale others) hfirst

theorem mem_slotsOf {stale : Ascending UserId} {affected : List (PullId × Affected)}
    {slot : Review} :
    slot ∈ slotsOf stale affected ↔
      ∃ a, (slot.pull, a) ∈ affected ∧ slot.user ∈ a.reviewers ∧ slot.user ∈ stale := by
  simp only [slotsOf, List.mem_flatMap, List.mem_map, Ascending.mem_toList, Ascending.mem_inter]
  constructor
  · intro h
    obtain ⟨e, he, user, hstale, rfl⟩ := h
    exact ⟨e.2, he, hstale⟩
  · intro h
    obtain ⟨a, ha, hstale⟩ := h
    exact ⟨_, ha, slot.user, hstale, rfl⟩

/-- Pull requests that are not listed have no records. -/
theorem filter_repairAll_of_not_mem {stale : Ascending UserId}
    {affected : List (PullId × Affected)} {pull : PullId} (hnew : pull ∉ affected.map Prod.fst)
    (w : Words) : (repairAll teamsOf pools stale affected w).1.filter (·.pull = pull) = [] := by
  refine List.filter_eq_nil_iff.2 fun r hr hpull => ?_
  have hslot : ⟨r.pull, r.old⟩ ∈ slotsOf stale affected := by
    rw [← map_slot_repairAll teamsOf pools stale affected w]
    exact List.mem_map_of_mem hr
  obtain ⟨a, ha, -⟩ := mem_slotsOf.1 hslot
  have hlisted : r.pull ∈ affected.map Prod.fst := List.mem_map_of_mem ha
  rw [of_decide_eq_true hpull] at hlisted
  exact hnew hlisted

/-- What a plan says of a pull request is the repair of its slots, with the words that are
left when its turn comes. -/
theorem filter_repairAll {stale : Ascending UserId} {affected : List (PullId × Affected)}
    (distinct : (affected.map Prod.fst).Nodup) {pull : PullId} {a : Affected}
    (ha : (pull, a) ∈ affected) (w : Words) :
    ∃ v, (repairAll teamsOf pools stale affected w).1.filter (·.pull = pull) =
      (repairSlots teamsOf pools pull a.author (a.reviewers.inter stale).toList
        a.reviewers v).1 := by
  induction affected generalizing w with
  | nil => cases ha
  | cons e others ih =>
      obtain ⟨hnew, hothers⟩ := List.nodup_cons.1 distinct
      rw [repairAll, List.filter_append]
      rcases List.mem_cons.1 ha with rfl | ha
      · refine ⟨w, ?_⟩
        have hown : ∀ r ∈ (repairSlots teamsOf pools pull a.author
            (a.reviewers.inter stale).toList a.reviewers w).1, decide (r.pull = pull) = true :=
          fun r hr => decide_eq_true (pull_of_mem_repairSlots hr)
        rw [List.filter_eq_self.2 hown, filter_repairAll_of_not_mem hnew, List.append_nil]
      · obtain ⟨v, hrest⟩ := ih hothers ha
          (repairSlots teamsOf pools e.1 e.2.author (e.2.reviewers.inter stale).toList
            e.2.reviewers w).2
        refine ⟨v, ?_⟩
        have hne : e.1 ≠ pull := fun heq => hnew (heq ▸ List.mem_map_of_mem ha)
        rw [hrest, List.filter_eq_nil_iff.2, List.nil_append]
        intro r hr hpull
        rw [pull_of_mem_repairSlots hr] at hpull
        exact hne (of_decide_eq_true hpull)

variable (teamsOf pools) in
theorem filter_planReassignments (stale : Ascending UserId) {affected : Keyed PullId Affected}
    {pull : PullId} {a : Affected} (ha : (pull, a) ∈ affected.toList) (w : Words) :
    ∃ v, (planReassignments teamsOf pools stale affected w).1.filter (·.pull = pull) =
      (repairSlots teamsOf pools pull a.author (a.reviewers.inter stale).toList a.reviewers v).1 :=
  filter_repairAll affected.keys.nodup ha w

end Plan

/-! ## Replaying a plan -/

namespace Board

/-- The board that shows affected pull requests with their reviewers, and no others. -/
def ofAffected (affected : Keyed PullId Affected) : Board := fun id =>
  ((affected.get? id).map (·.reviewers)).getD ∅

theorem ofAffected_of_mem {affected : Keyed PullId Affected} {pull : PullId} {a : Affected}
    (ha : (pull, a) ∈ affected.toList) : ofAffected affected pull = a.reviewers := by
  rw [ofAffected, Keyed.get?_eq_some_iff.2 ha]
  rfl

/-- Records change a pull request by those that name it. -/
theorem foldl_record_apply (b : Board) (records : List Reassignment) (id : PullId) :
    records.foldl record b id = Plan.settleAll (b id) (records.filter (·.pull = id)) := by
  induction records generalizing b with
  | nil => rfl
  | cons r rest ih =>
      rw [List.foldl_cons, ih]
      by_cases hid : r.pull = id
      · have hown : (r :: rest).filter (·.pull = id) = r :: rest.filter (·.pull = id) :=
          List.filter_cons_of_pos (decide_eq_true hid)
        rw [hown, record, hid, put_self]
        rfl
      · have hother : (r :: rest).filter (·.pull = id) = rest.filter (·.pull = id) :=
          List.filter_cons_of_neg (by simp [hid])
        rw [hother, record, put_other b (Ne.symm hid)]

end Board

namespace Plan

open Board (ofAffected record)

variable {teamsOf : Keyed UserId TeamName} {pools : Keyed TeamName (Ascending UserId)}

/-- Every record of a plan is right for the reviewers whom the records before it leave. -/
theorem decides_of_plan {stale : Ascending UserId} {affected : Keyed PullId Affected} {w : Words}
    {before later : List Reassignment} {r : Reassignment}
    (h : (planReassignments teamsOf pools stale affected w).1 = before ++ r :: later) :
    ∃ a, (r.pull, a) ∈ affected.toList ∧
      Decides teamsOf pools a.author (before.foldl record (ofAffected affected) r.pull) r := by
  have hmem : r ∈ (planReassignments teamsOf pools stale affected w).1 := by
    rw [h]
    exact List.mem_append_right before List.mem_cons_self
  have hslot : ⟨r.pull, r.old⟩ ∈ slotsOf stale affected.toList := by
    rw [← map_slot_repairAll teamsOf pools stale affected.toList w]
    exact List.mem_map_of_mem hmem
  obtain ⟨a, ha, -⟩ : ∃ a, (r.pull, a) ∈ affected.toList ∧ _ := mem_slotsOf.1 hslot
  refine ⟨a, ha, ?_⟩
  rw [Board.foldl_record_apply, Board.ofAffected_of_mem ha]
  -- among the records of this pull request, the same ones stand before
  obtain ⟨v, hrepair⟩ := filter_planReassignments teamsOf pools stale ha w
  have hown : (r :: later).filter (·.pull = r.pull) = r :: later.filter (·.pull = r.pull) :=
    List.filter_cons_of_pos (decide_eq_true rfl)
  rw [h, List.filter_append, hown] at hrepair
  exact decides_of_repairSlots (a.reviewers.inter stale).nodup held_of_stale hrepair.symm

/-- The records of one pull request bring in different users. -/
theorem distinct_of_plan {stale : Ascending UserId} {affected : Keyed PullId Affected} (w : Words)
    (id : PullId) :
    ((planReassignments teamsOf pools stale affected w).1.filter (·.pull = id)).Pairwise fun r t =>
      ∀ new, r.replacement = some new → t.replacement ≠ some new := by
  by_cases hlisted : id ∈ affected.toList.map Prod.fst
  · obtain ⟨⟨_, a⟩, ha, rfl⟩ := List.mem_map.1 hlisted
    obtain ⟨v, hrepair⟩ := filter_planReassignments teamsOf pools stale ha w
    rw [hrepair]
    exact replacements_distinct (a.reviewers.inter stale).nodup held_of_stale v
  · rw [planReassignments, filter_repairAll_of_not_mem hlisted]
    exact .nil

/-- What holds between the records of each pull request holds between any two records of
one pull request. -/
theorem pairwise_of_filter_pull {rel : Reassignment → Reassignment → Prop}
    {records : List Reassignment} (h : ∀ id, (records.filter (·.pull = id)).Pairwise rel) :
    records.Pairwise fun r t => r.pull = t.pull → rel r t := by
  induction records with
  | nil => exact .nil
  | cons r rest ih =>
      have hown : (r :: rest).filter (·.pull = r.pull) = r :: rest.filter (·.pull = r.pull) :=
        List.filter_cons_of_pos (decide_eq_true rfl)
      have hfirst := h r.pull
      rw [hown, List.pairwise_cons] at hfirst
      refine List.pairwise_cons.2 ⟨fun t ht hsame => ?_, ih fun id => ?_⟩
      · exact hfirst.1 t (List.mem_filter.2 ⟨ht, decide_eq_true hsame.symm⟩)
      · exact (h id).sublist ((List.sublist_cons_self r rest).filter _)

/-- **A plan, replayed.**  Take any affected pull requests, stale users, teams, pools and
words.  The plan lists exactly the slots that stale reviewers hold, each once, by pull
request and reviewer.  Replay it on the original reviewers.  At every step the slot is
held.  Whoever comes in does not review the pull request then, is not its author nor the
one who leaves, and is in the pool of the team of the one who leaves; and nobody comes in
exactly if all in that pool are the author or review it then.  So no pull request has more
reviewers after a step than before it, and nobody comes into a pull request twice. -/
theorem plan_replays (teamsOf : Keyed UserId TeamName) (pools : Keyed TeamName (Ascending UserId))
    (stale : Ascending UserId) (affected : Keyed PullId Affected) (w : Words) :
    let plan := (planReassignments teamsOf pools stale affected w).1
    let reviewers := fun before : List Reassignment => before.foldl record (ofAffected affected)
    (∀ pull user, (∃ r ∈ plan, r.pull = pull ∧ r.old = user) ↔
      ∃ a, (pull, a) ∈ affected.toList ∧ user ∈ a.reviewers ∧ user ∈ stale) ∧
    plan.Pairwise (fun r t => r.pull < t.pull ∨ r.pull = t.pull ∧ r.old < t.old) ∧
    (∀ before r later, plan = before ++ r :: later →
      (∃ a, (r.pull, a) ∈ affected.toList ∧
        Decides teamsOf pools a.author (reviewers before r.pull) r) ∧
      ∀ id, (reviewers (before ++ [r]) id).size ≤ (reviewers before id).size) ∧
    plan.Pairwise fun r t => r.pull = t.pull →
      ∀ new, r.replacement = some new → t.replacement ≠ some new := by
  intro plan reviewers
  have hslots : plan.map (fun r => (⟨r.pull, r.old⟩ : Review)) = slotsOf stale affected.toList :=
    map_slot_repairAll teamsOf pools stale affected.toList w
  refine ⟨?_, ?_, ?_, ?_⟩
  · intro pull user
    have hslot : (⟨pull, user⟩ : Review) ∈ slotsOf stale affected.toList ↔
      ∃ a, (pull, a) ∈ affected.toList ∧ user ∈ a.reviewers ∧ user ∈ stale := mem_slotsOf
    rw [← hslots, List.mem_map] at hslot
    rw [← hslot]
    simp only [Review.mk.injEq]
  · have hascends := slotsOf_ascends stale affected
    rw [← hslots] at hascends
    exact List.pairwise_map.1 hascends
  · intro before r later h
    obtain ⟨a, ha, hdecides⟩ := decides_of_plan h
    refine ⟨⟨a, ha, hdecides⟩, fun id => ?_⟩
    have hfresh : ∀ new, r.replacement = some new → new ∉ reviewers before r.pull :=
      fun new hnew => (hdecides.chosen new hnew).1
    have hsize := Board.size_record hdecides.held hfresh id
    have hstep : reviewers (before ++ [r]) = (reviewers before).record r := List.foldl_append
    rw [hstep, ← hsize]
    exact Nat.le_add_right _ _
  · exact pairwise_of_filter_pull (distinct_of_plan w)

/-- Two pull requests with stale reviewers. -/
def twoPulls : Keyed PullId Affected :=
  .ofList [("p", ⟨"a", .ofList ["b", "c"]⟩), ("q", ⟨"d", .ofList ["b"]⟩)]

/-- The reviewers are of one team, in whose pool one of them still is.  The second slot goes to
that user, whose own slot was given away before. -/
theorem twoPulls_replayed :
    let pools : Keyed TeamName (Ascending UserId) := .ofList [("t", .ofList ["a", "b", "d"])]
    let teamsOf : Keyed UserId TeamName := .ofList [("b", "t"), ("c", "t")]
    let plan := (planReassignments teamsOf pools (.ofList ["b", "c"]) twoPulls default).1
    plan = [⟨"p", "b", some "d"⟩, ⟨"p", "c", some "b"⟩, ⟨"q", "b", some "a"⟩] ∧
    (∃ a, ("p", a) ∈ twoPulls.toList ∧
      Decides teamsOf pools a.author (.ofList ["c", "d"]) ⟨"p", "c", some "b"⟩) ∧
    ∃ a, ("q", a) ∈ twoPulls.toList ∧ "b" ∈ a.reviewers := by
  intro pools teamsOf plan
  have hplan : plan = [⟨"p", "b", some "d"⟩] ++ ⟨"p", "c", some "b"⟩ :: [⟨"q", "b", some "a"⟩] := by
    decide
  obtain ⟨hslots, -, hsteps, -⟩ := plan_replays teamsOf pools (.ofList ["b", "c"]) twoPulls default
  obtain ⟨⟨a, ha, hdecides⟩, -⟩ := hsteps _ _ _ hplan
  have hlast : ∃ r ∈ plan, r.pull = "q" ∧ r.old = "b" := by
    rw [hplan]
    exact ⟨⟨"q", "b", some "a"⟩, by decide, rfl, rfl⟩
  obtain ⟨b, hb, hheld, -⟩ := (hslots "q" "b").1 hlast
  exact ⟨hplan, ⟨a, ha, hdecides⟩, b, hb, hheld⟩

end Plan

end ReviewDesk
