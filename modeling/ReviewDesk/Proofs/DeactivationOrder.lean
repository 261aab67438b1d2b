import ReviewDesk.Proofs.Log

/-!
# The order of deactivations

Several teams are deactivated, one after the other.  Their members may review the
same pull requests, so every deactivation writes where another one will read.
Still the order does not matter, and there are two reasons.

1.  A deactivation hands no slot to anybody (`deactivateHere_eq_ok`), so none
    finds a reviewer whom another one brought in.
2.  A user has one row and so one team.  What a deactivation switches off and
    takes out belongs to its own members, and is not looked at by the others
    (`activeIn_retire_of_ne`, `dropsSlotsOf_retire`).

So each team gets the report that it would get alone, and in the end the members of
all teams are retired at once (`deactivate_each`).
-/

namespace ReviewDesk

theorem Reassignment.before_asymm {r t : Reassignment}
    (h : r.pull < t.pull ∨ r.pull = t.pull ∧ r.old < t.old) :
    ¬ (t.pull < r.pull ∨ t.pull = r.pull ∧ t.old < r.old) := by
  intro h'
  rcases h with hpull | ⟨hsame, hold⟩
  · rcases h' with hpull' | ⟨hsame', -⟩
    · exact String.lt_asymm hpull hpull'
    · exact String.lt_irrefl _ (hsame' ▸ hpull)
  · rcases h' with hpull' | ⟨-, hold'⟩
    · exact String.lt_irrefl _ (hsame ▸ hpull')
    · exact String.lt_asymm hold hold'

namespace Deactivation.DropsSlotsOf

variable {s : Store} {team : TeamName} {d e : Deactivation}

theorem deactivated_eq (h : d.DropsSlotsOf s team) : d.deactivated = s.activeIn team := by
  refine Ascending.ext fun id => ?_
  rw [h.members, Store.mem_activeIn]

/-- There is only one report on a team of a store. -/
theorem unique (h : d.DropsSlotsOf s team) (h' : e.DropsSlotsOf s team) : d = e := by
  have hmembers : d.deactivated = e.deactivated := h.deactivated_eq.trans h'.deactivated_eq.symm
  have hslots : ∀ r, r ∈ d.reassignments ↔ r ∈ e.reassignments := by
    intro r
    rw [h.slots, h'.slots, hmembers]
  have hperm : d.reassignments.Perm e.reassignments :=
    (List.perm_ext_iff_of_nodup h.nodup h'.nodup).2 hslots
  have hsame : d.reassignments = e.reassignments :=
    hperm.eq_of_pairwise (fun _ _ _ _ hrt htr => absurd htr (Reassignment.before_asymm hrt))
      h.ascends h'.ascends
  cases d
  cases e
  obtain rfl : _ = _ := hmembers
  obtain rfl : _ = _ := hsame
  rfl

end Deactivation.DropsSlotsOf

namespace Store

variable {s : Store}

/-! ## Retiring users together -/

/-- Users who are retired in two turns are retired. -/
theorem retire_retire (users others : Ascending UserId) :
    (s.retire users).retire others = s.retire (.ofList (users.toList ++ others.toList)) := by
  have hmem : ∀ id, id ∈ Ascending.ofList (users.toList ++ others.toList) ↔
      id ∈ users ∨ id ∈ others := by
    intro id
    rw [Ascending.mem_ofList, List.mem_append, Ascending.mem_toList, Ascending.mem_toList]
  have husers : ((s.retire users).retire others).users
      = (s.retire (.ofList (users.toList ++ others.toList))).users := by
    simp only [retire, switchOff, List.map_map, hmem]
    refine List.map_congr_left fun u _ => ?_
    by_cases hfirst : u.id ∈ users <;> by_cases hlater : u.id ∈ others <;> simp [hfirst, hlater]
  have hreviews : ((s.retire users).retire others).reviews
      = (s.retire (.ofList (users.toList ++ others.toList))).reviews := by
    have hopen : (s.retire users).isOpenPull = s.isOpenPull := rfl
    rw [retire, hopen]
    simp only [retire, List.filter_filter, hmem]
    refine List.filter_congr fun r _ => ?_
    by_cases hfirst : r.user ∈ users <;> by_cases hlater : r.user ∈ others <;>
      simp [hfirst, hlater]
  calc (s.retire users).retire others
      = { s with users := ((s.retire users).retire others).users
                 reviews := ((s.retire users).retire others).reviews } := rfl
    _ = s.retire (.ofList (users.toList ++ others.toList)) := by rw [husers, hreviews]; rfl

/-- Who is active after others were retired. -/
theorem mem_activeIn_retire {users : Ascending UserId} {team : TeamName} {id : UserId} :
    id ∈ (s.retire users).activeIn team ↔ id ∈ s.activeIn team ∧ id ∉ users := by
  rw [mem_activeIn, mem_activeIn]
  constructor
  · intro h
    obtain ⟨v, hv, rfl, hteam, hactive⟩ := h
    obtain ⟨u, hu, rfl⟩ := List.mem_map.1 hv
    by_cases hoff : u.id ∈ users
    · rw [if_pos hoff] at hactive
      cases hactive
    · rw [if_neg hoff] at hteam hactive ⊢
      exact ⟨⟨u, hu, rfl, hteam, hactive⟩, hoff⟩
  · intro h
    obtain ⟨⟨u, hu, rfl, hteam, hactive⟩, hnot⟩ := h
    exact ⟨u, List.mem_map.2 ⟨u, hu, if_neg hnot⟩, rfl, hteam, hactive⟩

/-- With distinct ids nobody is active in two teams. -/
theorem not_mem_activeIn_of_ne (keys : (s.users.map (·.id)).Nodup) {team other : TeamName}
    (hne : other ≠ team) {id : UserId} (h : id ∈ s.activeIn other) : id ∉ s.activeIn team := by
  intro h'
  obtain ⟨u, hu, rfl, rfl, -⟩ := mem_activeIn.1 h
  obtain ⟨v, hv, hid, rfl, -⟩ := mem_activeIn.1 h'
  have hfound := find?_eq_some_of_mem keys hu
  have hfound' := find?_eq_some_of_mem keys hv
  rw [hid, hfound] at hfound'
  exact hne (congrArg User.team (Option.some.inj hfound'))

/-- The active members of a team stay active when another team is retired. -/
theorem activeIn_retire_of_ne (keys : (s.users.map (·.id)).Nodup) {team other : TeamName}
    (hne : other ≠ team) : (s.retire (s.activeIn team)).activeIn other = s.activeIn other := by
  refine Ascending.ext fun id => ?_
  rw [mem_activeIn_retire]
  exact and_iff_left_of_imp (not_mem_activeIn_of_ne keys hne)

/-- A team loses the same slots before and after another one is retired. -/
theorem dropsSlotsOf_retire (keys : (s.users.map (·.id)).Nodup) {team other : TeamName}
    (hne : other ≠ team) {d : Deactivation} (h : d.DropsSlotsOf s other) :
    d.DropsSlotsOf (s.retire (s.activeIn team)) other where
  members id := by
    rw [← mem_activeIn, activeIn_retire_of_ne keys hne, mem_activeIn]
    exact h.members id
  slots r := by
    rw [h.slots]
    refine and_congr_right fun _ => and_congr_right fun hold => and_congr_left fun _ => ?_
    rw [h.deactivated_eq] at hold
    have hkept : ¬ (r.old ∈ s.activeIn team ∧ s.isOpenPull r.pull = true) := fun hdropped =>
      not_mem_activeIn_of_ne keys hne hold hdropped.1
    refine ⟨fun hreview => ?_, fun hreview => (List.mem_filter.1 hreview).1⟩
    exact List.mem_filter.2 ⟨hreview, decide_eq_true hkept⟩
  ascends := h.ascends

/-! ## One team after the other -/

/-- The users who are active in one of several teams. -/
def activeInSome (s : Store) (teams : List TeamName) : Ascending UserId :=
  .ofList (teams.flatMap fun team => (s.activeIn team).toList)

theorem mem_activeInSome {teams : List TeamName} {id : UserId} :
    id ∈ s.activeInSome teams ↔ ∃ team ∈ teams, id ∈ s.activeIn team := by
  rw [activeInSome, Ascending.mem_ofList, List.mem_flatMap]
  rfl

/-- A team that exists is deactivated with the one report there is on it. -/
theorem deactivate_one (complete : s.isComplete = true) {team : TeamName} (known : team ∈ s.teams)
    {d : Deactivation} (hd : d.DropsSlotsOf s team) {c : Call} (hop : c.op = .deactivate team) :
    c.answer? s = some (.deactivation d) ∧ c.next s = s.retire (s.activeIn team) := by
  have hopen : s.isOpen = true := isOpen_of_has (has_of_isComplete complete .teams)
  obtain ⟨e, o, h⟩ :=
    Desk.exists_deactivateHere (w := c.words) complete (isTeam_iff.2 known)
  obtain ⟨-, he, rfl⟩ := Desk.deactivateHere_eq_ok h
  obtain rfl : e = d := he.unique hd
  have hrun : c.op.run c.now ⟨s, c.words⟩
      = .ok (.deactivation e) ⟨s.retire e.deactivated, c.words⟩ := by
    rw [hop]
    exact Desk.map_eq_ok.2 ⟨e, Desk.transaction_eq_ok.2 ⟨hopen, h⟩, rfl⟩
  refine ⟨by simp only [Call.answer?, hrun], ?_⟩
  simp only [Call.next, hrun, hd.deactivated_eq]

/-- Distinct teams that are deactivated one after the other are retired together, and
each gets its own report. -/
theorem deactivate_each (complete : s.isComplete = true) (keys : (s.users.map (·.id)).Nodup)
    {teams : List TeamName} (distinct : teams.Nodup) (known : ∀ team ∈ teams, team ∈ s.teams)
    {report : TeamName → Deactivation} (hreport : ∀ team ∈ teams, (report team).DropsSlotsOf s team)
    {calls : List Call} (hops : calls.map Call.op = teams.map .deactivate) :
    s.after calls = s.retire (s.activeInSome teams) ∧
      s.log calls = teams.map fun team => (.deactivate team, .deactivation (report team)) := by
  induction teams generalizing s calls with
  | nil =>
      obtain rfl : calls = [] := List.map_eq_nil_iff.1 hops
      exact ⟨s.retire_empty.symm, rfl⟩
  | cons team others ih =>
      obtain ⟨c, later, rfl, hop, hlater⟩ := List.map_eq_cons_iff.1 hops
      obtain ⟨hnotMem, hothers⟩ := List.nodup_cons.1 distinct
      obtain ⟨hanswer, hnext⟩ := deactivate_one complete (known team List.mem_cons_self)
        (hreport team List.mem_cons_self) hop
      have hne : ∀ other ∈ others, other ≠ team := fun other hother heq =>
        hnotMem (heq ▸ hother)
      have hkeys : ((s.retire (s.activeIn team)).users.map (·.id)).Nodup :=
        s.ids_retire _ ▸ keys
      obtain ⟨hafter, hlog⟩ := ih (s := s.retire (s.activeIn team)) complete hkeys hothers
        (fun other hother => known other (List.mem_cons_of_mem team hother))
        (fun other hother => dropsSlotsOf_retire keys (hne other hother)
          (hreport other (List.mem_cons_of_mem team hother))) hlater
      constructor
      · rw [after_cons, hnext, hafter, retire_retire]
        refine congrArg s.retire (Ascending.ext fun id => ?_)
        simp only [Ascending.mem_ofList, List.mem_append, Ascending.mem_toList, mem_activeInSome,
          List.exists_mem_cons_iff]
        refine or_congr_right (exists_congr fun other => and_congr_right fun hother => ?_)
        rw [activeIn_retire_of_ne keys (hne other hother)]
      · simp only [log, hanswer, hnext, hlog, hop, List.map_cons]

/-- **In any order.**  In a store with the four tables, where every user has one row, take
distinct teams that exist.  In whatever order they are deactivated, at whatever times and
with whatever words, each team gets the same report and the store is the same in the
end.  Deactivating one of them once more reports nothing and changes nothing. -/
theorem deactivations_in_any_order (complete : s.isComplete = true)
    (keys : (s.users.map (·.id)).Nodup) {teams : List TeamName} (distinct : teams.Nodup)
    (known : ∀ team ∈ teams, team ∈ s.teams) :
    ∃ (report : TeamName → Deactivation) (last : Store),
      (∀ order : List TeamName, order.Perm teams → ∀ calls : List Call,
        calls.map Call.op = order.map .deactivate →
          s.after calls = last ∧
          s.log calls = order.map fun team => (.deactivate team, .deactivation (report team))) ∧
      ∀ team ∈ teams, ∀ w, Desk.deactivate team ⟨last, w⟩ = .ok ⟨∅, []⟩ ⟨last, w⟩ := by
  have hexists : ∀ team, ∃ d : Deactivation, team ∈ teams → d.DropsSlotsOf s team := by
    intro team
    by_cases hteam : team ∈ teams
    · obtain ⟨d, _, h⟩ := Desk.exists_deactivateHere (w := default) complete
        (isTeam_iff.2 (known team hteam))
      exact ⟨d, fun _ => (Desk.deactivateHere_eq_ok h).2.1⟩
    · exact ⟨⟨∅, []⟩, fun h => absurd h hteam⟩
  choose report hreport using hexists
  refine ⟨report, s.retire (s.activeInSome teams), ?_, ?_⟩
  · intro order hperm calls hops
    have hsame : s.activeInSome order = s.activeInSome teams := by
      refine Ascending.ext fun id => ?_
      simp only [mem_activeInSome, hperm.mem_iff]
    rw [← hsame]
    exact deactivate_each complete keys (hperm.nodup_iff.2 distinct)
      (fun team hteam => known team (hperm.mem_iff.1 hteam))
      (fun team hteam => hreport team (hperm.mem_iff.1 hteam)) hops
  · intro team hteam w
    have hhas := has_of_isComplete complete
    have hnobody : (s.retire (s.activeInSome teams)).activeIn team = ∅ := by
      refine Ascending.ext fun id => iff_of_false (fun h => ?_) Ascending.not_mem_empty
      obtain ⟨hactive, hnot⟩ := mem_activeIn_retire.1 h
      exact hnot (mem_activeInSome.2 ⟨team, hteam, hactive⟩)
    refine Desk.transaction_eq_ok.2 ⟨isOpen_of_has (hhas .teams), ?_⟩
    exact Desk.deactivateHere_of_isEmpty (hhas .teams) (hhas .users)
      (isTeam_iff.2 (known team hteam)) hnobody

/-- A pull request with reviewers of both teams loses all but the one who was not active
before. -/
theorem ofTwoTeams_in_both_orders :
    let one (team : TeamName) (w : Words) : Call := ⟨.deactivate team, .epoch, w⟩
    ∃ (report : TeamName → Deactivation) (last : Store),
      (∀ v w, ofTwoTeams.after [one "t" v, one "x" w] = last ∧
        ofTwoTeams.after [one "x" v, one "t" w] = last ∧
        ofTwoTeams.log [one "x" v, one "t" w]
          = [(.deactivate "x", .deactivation (report "x")),
            (.deactivate "t", .deactivation (report "t"))]) ∧
      last.reviews = [⟨"m", "a"⟩, ⟨"m", "b"⟩, ⟨"o", "c"⟩, ⟨"q", "b"⟩] ∧
      ∀ w, Desk.deactivate "t" ⟨last, w⟩ = .ok ⟨∅, []⟩ ⟨last, w⟩ := by
  intro one
  have hcomplete : ofTwoTeams.isComplete = true := by decide
  have hkeys : (ofTwoTeams.users.map (·.id)).Nodup := by decide
  have hdistinct : ["t", "x"].Nodup := by decide
  have hknown : ∀ team ∈ ["t", "x"], team ∈ ofTwoTeams.teams := by decide
  obtain ⟨report, last, horder, hagain⟩ :=
    deactivations_in_any_order hcomplete hkeys hdistinct hknown
  have hswap : ["x", "t"].Perm ["t", "x"] := .swap "t" "x" []
  have hlast : ofTwoTeams.after [one "t" default, one "x" default] = last :=
    (horder _ (.refl _) _ rfl).1
  refine ⟨report, last, fun v w => ?_, ?_, hagain "t" List.mem_cons_self⟩
  · exact ⟨(horder _ (.refl _) _ rfl).1, horder _ hswap _ rfl⟩
  · rw [← hlast]
    decide

end Store

end ReviewDesk
