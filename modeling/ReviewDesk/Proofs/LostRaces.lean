import ReviewDesk.Proofs.Outcomes

/-!
# Lost races

Whoever opens a pull request has its id looked up first, and its row is put in much later.  In
between somebody else may take the id.  So a call is divided here: its check was made when the
store was another one, and the rest of its work is done now.  Teams and their names are the same
case.

What the check has seen does not matter in the end.  A row is put in only if its key is free at
that moment, and of all that a row has to satisfy this is asked first; so whoever comes too late
is told of the conflict, whatever else is wrong.  Keys that were taken stay taken, so nothing that
happens meanwhile can help.  And a call that answers has found its key free, so its check could
have been made at that moment: such a call is as good as an undivided one.

* `addPull_inserts`, `addTeam_inserts` — single rows;
* `createPull_of_seeing`, `createTeam_of_seeing` — a divided call that answers is an undivided one;
* `Store.retains_after` — keys stay taken;
* `lost_races_are_conflicts` — two calls for one key.
-/

namespace ReviewDesk

namespace Desk

/-! ## Divided calls -/

variable {α : Type} {seen : Store} {check : Desk Unit} {rest : Desk α} {o o' : Office}

/-- A check that was made when the store was another one. -/
def earlier (seen : Store) (check : Desk Unit) : Desk Unit := fun o =>
  match check ⟨seen, o.words⟩ with
  | .ok _ _ => .ok () o
  | .error f _ => .error f o

/-- A transaction whose check was made when the store was another one. -/
def divided (seen : Store) (check : Desk Unit) (rest : Desk α) : Desk α :=
  transaction do
    earlier seen check
    rest

/-- Opens a pull request after its id was looked up in another store. -/
def createPullSeeing (seen : Store) (now : Instant) (id : PullId) (name : String)
    (authorId : UserId) : Desk PullRequest :=
  divided seen (requireNewPull id) (openPull now id name authorId)

/-- Makes a team after its name was looked up in another store. -/
def createTeamSeeing (seen : Store) (name : TeamName) (members : List Member) : Desk Team :=
  divided seen (requireNewTeam name) (fillTeam name members)

theorem earlier_eq_ok :
    earlier seen check o = .ok () o' ↔ (∃ o₁, check ⟨seen, o.words⟩ = .ok () o₁) ∧ o = o' := by
  unfold earlier
  cases check ⟨seen, o.words⟩ <;> simp

/-- What a check sees of the store as it is, it sees now. -/
theorem earlier_self (h : check o = .ok () o ∨ ∃ f, check o = .error f o) :
    earlier o.store check o = check o := by
  unfold earlier
  rcases h with h | ⟨f, h⟩
  · rw [h]
  · rw [h]

/-- A call whose check sees the store as it is, is an undivided one. -/
theorem divided_self (h : check o = .ok () o ∨ ∃ f, check o = .error f o) :
    divided o.store check rest o = transaction (check >>= fun _ => rest) o := by
  refine transaction_congr ?_
  change EStateM.bind (earlier o.store check) (fun _ => rest) o = EStateM.bind check _ o
  rw [EStateM.bind, EStateM.bind, earlier_self h]

/-- A divided call that answers has done so with its rest. -/
theorem divided_eq_ok {a : α} (h : divided seen check rest o = .ok a o') :
    o.store.isOpen = true ∧ rest o = .ok a o' := by
  obtain ⟨hopen, h⟩ := transaction_eq_ok.1 h
  obtain ⟨_, _, hcheck, hrest⟩ := bind_eq_ok.1 h
  obtain ⟨-, rfl⟩ := earlier_eq_ok.1 hcheck
  exact ⟨hopen, hrest⟩

/-- A call that got past its check and fails leaves the store alone. -/
theorem divided_of_error {f : Failure} {o₁ : Office} (hopen : o.store.isOpen = true)
    (hcheck : check ⟨seen, o.words⟩ = .ok () o₁) (hrest : rest o = .error f o') :
    divided seen check rest o = .error f { o' with store := o.store } := by
  have hbody : (earlier seen check >>= fun _ => rest) o = .error f o' :=
    bind_eq_error.2 (.inr ⟨(), o, earlier_eq_ok.2 ⟨⟨o₁, hcheck⟩, rfl⟩, hrest⟩)
  rw [divided, transaction, if_pos hopen, hbody]

/-! ## How a row is put in -/

/-- A row is refused as a conflict if its key is taken, and as an internal error if it is free but
the row refers to nothing; otherwise it is added.  What is refused leaves the office alone. -/
structure Inserts (work : Desk Unit) (clash : Failure) (isTaken isSound : Prop) (added : Store)
    (o : Office) : Prop where
  conflict : work o = .error clash o ↔ isTaken
  internal : work o = .error .internal o ↔ ¬ isTaken ∧ ¬ isSound
  answer : work o = .ok () { o with store := added } ↔ ¬ isTaken ∧ isSound
  unchanged : ∀ f o', work o = .error f o' → o' = o

/-- The three ways exclude each other, so it is enough to have one for each case. -/
theorem Inserts.of_cases {work : Desk Unit} {clash : Failure} {isTaken isSound : Prop}
    {added : Store} (hclash : clash ≠ .internal) (hconflict : isTaken → work o = .error clash o)
    (hinternal : ¬ isTaken → ¬ isSound → work o = .error .internal o)
    (hanswer : ¬ isTaken → isSound → work o = .ok () { o with store := added }) :
    Inserts work clash isTaken isSound added o := by
  by_cases hTaken : isTaken
  · have hwork := hconflict hTaken
    constructor <;> simp [hwork, hTaken, hclash, eq_comm]
  · by_cases hSound : isSound
    · have hwork := hanswer hTaken hSound
      constructor <;> simp [hwork, hTaken, hSound]
    · have hwork := hinternal hTaken hSound
      constructor <;> simp [hwork, hTaken, hSound, hclash, eq_comm]

/-! ## Pull requests -/

variable {s : Store} {w : Words} {p : StoredPull} {now : Instant} {id : PullId} {name : String}
  {author : UserId} {r : PullRequest}

theorem addPull_of_no_table (hpulls : s.has .pulls = false) :
    addPull p ⟨s, w⟩ = .error .internal ⟨s, w⟩ := by
  refine changeUnless_eq_error.2 ⟨.unavailable, ?_, rfl, rfl⟩
  rw [Store.insert, hpulls]
  rfl

/-- A row whose key is taken is a conflict, whoever its author is. -/
theorem addPull_of_isPull (hpulls : s.has .pulls = true) (htaken : s.isPull p.id = true) :
    addPull p ⟨s, w⟩ = .error .pullExists ⟨s, w⟩ := by
  refine changeUnless_eq_error.2 ⟨.duplicateKey, ?_, rfl, rfl⟩
  rw [Store.insert, hpulls, htaken]
  rfl

theorem addPull_of_no_author (hchecks : s.checksKeys = true) (hpulls : s.has .pulls = true)
    (hfree : s.isPull p.id = false) (hunknown : s.isUser p.author = false) :
    addPull p ⟨s, w⟩ = .error .internal ⟨s, w⟩ := by
  refine changeUnless_eq_error.2 ⟨.brokenReference, ?_, rfl, rfl⟩
  rw [Store.insert, hpulls, hfree, Store.accepts, hchecks, hunknown]
  rfl

theorem addPull_of_author (hpulls : s.has .pulls = true) (hfree : s.isPull p.id = false)
    (hknown : s.isUser p.author = true) :
    addPull p ⟨s, w⟩ = .ok () ⟨{ s with pulls := s.pulls ++ [p] }, w⟩ :=
  changeUnless_eq_ok.2
    ⟨_, Store.insert_pull_eq_ok.2 ⟨hpulls, hfree, Store.accepts_of hknown, rfl⟩, rfl⟩

theorem addPull_inserts (hchecks : s.checksKeys = true) (hpulls : s.has .pulls = true) :
    Inserts (addPull p) .pullExists (p.id ∈ s.pulls.map (·.id)) (p.author ∈ s.users.map (·.id))
      { s with pulls := s.pulls ++ [p] } ⟨s, w⟩ := by
  rw [← Store.isPull_iff, ← Store.isUser_iff]
  refine .of_cases (by decide) (addPull_of_isPull hpulls) (fun hfree hunknown => ?_)
    (fun hfree hknown => ?_)
  · exact addPull_of_no_author hchecks hpulls (Bool.eq_false_iff.2 hfree)
      (Bool.eq_false_iff.2 hunknown)
  · exact addPull_of_author hpulls (Bool.eq_false_iff.2 hfree) hknown

theorem requireNewPull_of_isPull_eq_false (hpulls : s.has .pulls = true)
    (hfree : s.isPull id = false) : requireNewPull id ⟨s, w⟩ = .ok () ⟨s, w⟩ := by
  have hnone : s.pulls.find? (·.id = id) = none := by simpa [Store.isPull] using hfree
  exact requireNewPull_of_isNew hpulls hnone

/-- Looking up an id changes nothing. -/
theorem requireNewPull_ends (id : PullId) (o : Office) :
    requireNewPull id o = .ok () o ∨ ∃ f, requireNewPull id o = .error f o := by
  cases hfind : o.store.findPull id with
  | error fault =>
      exact .inr ⟨_, ask_bind_eq_error.2 (.inl ⟨fault, hfind, rfl, rfl⟩)⟩
  | ok found =>
      rw [requireNewPull, ask_bind hfind]
      cases found with
      | none => exact .inl rfl
      | some q => exact .inr ⟨.pullExists, rfl⟩

/-- A pull request can be opened only if its id is free. -/
theorem isNew_of_openPull (h : openPull now id name author o = .ok r o') :
    o.store.has .pulls = true ∧ o.store.isPull id = false := by
  simp only [openPull, addPull, ask_bind_eq_ok, orFail_bind_eq_ok, draw_bind_eq_ok,
    changeUnless_bind_eq_ok] at h
  obtain ⟨_, -, u, rfl, pool, -, t, hinsert, -⟩ := h
  obtain ⟨hpulls, hfree, -⟩ := Store.insert_pull_eq_ok.1 hinsert
  exact ⟨hpulls, hfree⟩

theorem createPullSeeing_self :
    createPullSeeing o.store now id name author o = createPull now id name author o :=
  divided_self (requireNewPull_ends id o)

/-- A pull request that is opened after a check of another store is opened as if its id had been
looked up now. -/
theorem createPull_of_seeing (h : createPullSeeing seen now id name author o = .ok r o') :
    createPull now id name author o = .ok r o' := by
  obtain ⟨hopen, hrest⟩ := divided_eq_ok h
  obtain ⟨hpulls, hfree⟩ := isNew_of_openPull hrest
  exact transaction_eq_ok.2
    ⟨hopen, bind_eq_ok.2 ⟨(), o, requireNewPull_of_isPull_eq_false hpulls hfree, hrest⟩⟩

/-- Where the id is taken, the rest of a call finds its author unknown or ends in the conflict. -/
theorem openPull_of_isPull (hpulls : s.has .pulls = true) (htaken : s.isPull id = true) :
    ∃ w', openPull now id name author ⟨s, w⟩ =
      .error (if author ∈ s.users.map (·.id) then .pullExists else .authorNotFound) ⟨s, w'⟩ := by
  have husers : s.has .users = true := Store.has_of_rank_le (by decide) hpulls
  cases hfind : s.users.find? (·.id = author) with
  | none =>
      have hunknown : author ∉ s.users.map (·.id) := by simpa using hfind
      have hlookup : s.findUser author = .ok none :=
        Store.reading_eq_ok.2 ⟨husers, by rw [hfind]⟩
      rw [if_neg hunknown]
      refine ⟨w, ask_bind_eq_error.2 (.inr ⟨none, hlookup, ?_⟩)⟩
      exact orFail_bind_eq_error.2 (.inl ⟨rfl, rfl, rfl⟩)
  | some u =>
      obtain ⟨hu, rfl⟩ := mem_of_find?_key hfind
      rw [if_pos (List.mem_map_of_mem hu)]
      let picked := w.pick (s.activeIn u.team) (.ofList [u.id]) maxReviewers
      refine ⟨picked.2, ask_bind_eq_error.2
        (.inr ⟨_, Store.findUser_eq_some_iff.2 ⟨husers, hfind⟩, ?_⟩)⟩
      refine orFail_bind_eq_error.2 (.inr ⟨u, rfl, ?_⟩)
      refine ask_bind_eq_error.2 (.inr ⟨_, Store.activeMembers_eq_ok.2 ⟨husers, rfl⟩, ?_⟩)
      refine draw_bind_eq_error.2 (bind_eq_error.2 (.inl ?_))
      exact addPull_of_isPull hpulls htaken

/-! ## Teams -/

variable {team : TeamName} {members : List Member} {t : Team}

theorem addTeam_of_no_table (hteams : s.has .teams = false) :
    addTeam team ⟨s, w⟩ = .error .internal ⟨s, w⟩ := by
  refine changeUnless_eq_error.2 ⟨.unavailable, ?_, rfl, rfl⟩
  rw [Store.insert, hteams]
  rfl

theorem addTeam_of_isTeam (hteams : s.has .teams = true) (htaken : s.isTeam team = true) :
    addTeam team ⟨s, w⟩ = .error .teamExists ⟨s, w⟩ := by
  refine changeUnless_eq_error.2 ⟨.duplicateKey, ?_, rfl, rfl⟩
  rw [Store.insert, hteams, htaken]
  rfl

theorem addTeam_of_isNew (hteams : s.has .teams = true) (hfree : s.isTeam team = false) :
    addTeam team ⟨s, w⟩ = .ok () ⟨{ s with teams := s.teams ++ [team] }, w⟩ :=
  changeUnless_eq_ok.2 ⟨_, Store.insert_team_eq_ok.2 ⟨hteams, hfree, rfl⟩, rfl⟩

theorem addTeam_inserts (hteams : s.has .teams = true) :
    Inserts (addTeam team) .teamExists (team ∈ s.teams) True { s with teams := s.teams ++ [team] }
      ⟨s, w⟩ := by
  rw [← Store.isTeam_iff]
  refine .of_cases (by decide) (addTeam_of_isTeam hteams) (fun _ h => absurd trivial h)
    (fun hfree _ => ?_)
  exact addTeam_of_isNew hteams (Bool.eq_false_iff.2 hfree)

/-- Looking up a name changes nothing. -/
theorem requireNewTeam_ends (team : TeamName) (o : Office) :
    requireNewTeam team o = .ok () o ∨ ∃ f, requireNewTeam team o = .error f o := by
  cases hfind : o.store.hasTeam team with
  | error fault =>
      exact .inr ⟨_, ask_bind_eq_error.2 (.inl ⟨fault, hfind, rfl, rfl⟩)⟩
  | ok isTeam =>
      rw [requireNewTeam, ask_bind hfind]
      cases isTeam with
      | false => exact .inl rfl
      | true => exact .inr ⟨.teamExists, rfl⟩

/-- A team can be made only if its name is free, and the answer shows it as it is stored. -/
theorem isNew_of_fillTeam (h : fillTeam team members o = .ok t o') :
    o.store.has .teams = true ∧ o.store.isTeam team = false ∧ loadTeam team o' = .ok t o' := by
  simp only [fillTeam, addTeam, changeUnless_bind_eq_ok] at h
  obtain ⟨_, hinsert, h⟩ := h
  obtain ⟨hteams, hfree, rfl⟩ := Store.insert_team_eq_ok.1 hinsert
  obtain ⟨_, o₂, -, hload⟩ := bind_eq_ok.1 h
  obtain ⟨users, husers, hanswer⟩ := ask_bind_eq_ok.1 hload
  obtain ⟨rfl, rfl⟩ := pure_eq_ok.1 hanswer
  exact ⟨hteams, hfree, hload⟩

theorem createTeamSeeing_self :
    createTeamSeeing o.store team members o = createTeam team members o :=
  divided_self (requireNewTeam_ends team o)

theorem createTeam_of_seeing (h : createTeamSeeing seen team members o = .ok t o') :
    createTeam team members o = .ok t o' := by
  obtain ⟨hopen, hrest⟩ := divided_eq_ok h
  obtain ⟨hteams, hfree, -⟩ := isNew_of_fillTeam hrest
  exact transaction_eq_ok.2
    ⟨hopen, bind_eq_ok.2 ⟨(), o, requireNewTeam_of_isNew hteams hfree, hrest⟩⟩

end Desk

/-! ## What stays along a history -/

/-- A store that comes later has the same tables and all the names and ids. -/
structure Store.Retains (s t : Store) : Prop where
  tables : ∀ table, t.has table = s.has table
  teams : s.teams ⊆ t.teams
  pulls : s.pulls.map (·.id) ⊆ t.pulls.map (·.id)

namespace Store.Retains

variable {s t u : Store}

theorem refl (s : Store) : s.Retains s where
  tables _ := rfl
  teams _ h := h
  pulls _ h := h

theorem trans (h : s.Retains t) (h' : t.Retains u) : s.Retains u where
  tables table := (h'.tables table).trans (h.tables table)
  teams := List.Subset.trans h.teams h'.teams
  pulls := List.Subset.trans h.pulls h'.pulls

/-- A name that is free later was free before. -/
theorem isTeam_eq_false (h : s.Retains t) {name : TeamName} (hfree : t.isTeam name = false) :
    s.isTeam name = false := by
  rw [← Bool.not_eq_true, isTeam_iff] at hfree ⊢
  exact fun htaken => hfree (h.teams htaken)

/-- An id that is free later was free before. -/
theorem isPull_eq_false (h : s.Retains t) {id : PullId} (hfree : t.isPull id = false) :
    s.isPull id = false := by
  rw [isPull_eq_false_iff] at hfree ⊢
  exact fun htaken => hfree (h.pulls htaken)

end Store.Retains

theorem Effect.retains {now : Instant} {s s' : Store} {op : Operation} {a : Answer}
    (h : Effect now s op a s') : s.Retains s' where
  tables := h.tables
  teams := h.teams_subset
  pulls := h.pullIds_subset

/-- No history gives up a table or a key. -/
theorem Store.retains_after (s : Store) (calls : List Call) : s.Retains (s.after calls) :=
  after_induction (.refl s) (fun heffect h => h.trans heffect.retains) calls

namespace Desk

variable {s : Store} {seen : Store} {now now' : Instant} {w w' : Words} {o : Office}

/-- Somebody looked an id up, then a pull request with this id was opened: the rest of the other
call ends in the conflict. -/
theorem createPullSeeing_of_lost {id : PullId} {name name' : String} {author author' : UserId}
    {r : PullRequest} (before between : List Call)
    (h : createPullSeeing seen now id name author ⟨s.after before, w⟩ = .ok r o) :
    ∃ w'', createPullSeeing s now' id name' author' ⟨o.store.after between, w'⟩ =
      .error (if author' ∈ (o.store.after between).users.map (·.id) then .pullExists
        else .authorNotFound) ⟨o.store.after between, w''⟩ := by
  obtain ⟨-, hrest⟩ := divided_eq_ok h
  obtain ⟨hpulls, hfree⟩ := isNew_of_openPull hrest
  obtain ⟨u, reviewers, -, -, -, -, -, -, -, hstore, -⟩ := createPull_eq_ok (createPull_of_seeing h)
  have hbefore := s.retains_after before
  have hbetween := o.store.retains_after between
  -- the other call has found the id free
  have hcheck : requireNewPull id ⟨s, w'⟩ = .ok () ⟨s, w'⟩ :=
    requireNewPull_of_isPull_eq_false ((hbefore.tables .pulls).symm.trans hpulls)
      (hbefore.isPull_eq_false hfree)
  -- and now it is taken
  have hmade : id ∈ o.store.pulls.map (·.id) := by
    rw [hstore, Store.withPull, List.map_append]
    exact List.mem_append_right _ List.mem_cons_self
  have htaken := Store.isPull_iff.2 (hbetween.pulls hmade)
  have hhas : (o.store.after between).has .pulls = true := by
    rw [hbetween.tables, hstore]
    exact hpulls
  obtain ⟨w'', hlost⟩ : ∃ w'', openPull now' id name' author' ⟨o.store.after between, w'⟩ = _ :=
    openPull_of_isPull hhas htaken
  exact ⟨w'', divided_of_error (Store.isOpen_of_has hhas) hcheck hlost⟩

/-- Somebody looked a name up, then a team of this name was made: the other call ends in the
conflict. -/
theorem createTeamSeeing_of_lost {team : TeamName} {members members' : List Member} {t : Team}
    (before between : List Call)
    (h : createTeamSeeing seen team members ⟨s.after before, w⟩ = .ok t o) :
    createTeamSeeing s team members' ⟨o.store.after between, w'⟩ =
      .error .teamExists ⟨o.store.after between, w'⟩ := by
  obtain ⟨-, hrest⟩ := divided_eq_ok h
  obtain ⟨hteams, hfree, -⟩ := isNew_of_fillTeam hrest
  obtain ⟨-, hstore⟩ := createTeam_eq_ok (createTeam_of_seeing h)
  have hbefore := s.retains_after before
  have hbetween := o.store.retains_after between
  have hcheck : requireNewTeam team ⟨s, w'⟩ = .ok () ⟨s, w'⟩ :=
    requireNewTeam_of_isNew ((hbefore.tables .teams).symm.trans hteams)
      (hbefore.isTeam_eq_false hfree)
  have hmade : team ∈ o.store.teams := by
    rw [hstore, Store.withTeam]
    exact List.mem_append_right _ List.mem_cons_self
  have htaken := Store.isTeam_iff.2 (hbetween.teams hmade)
  have hhas : (o.store.after between).has .teams = true := by
    rw [hbetween.tables, hstore]
    exact hteams
  have hlost : fillTeam team members' ⟨o.store.after between, w'⟩ = .error .teamExists _ :=
    bind_eq_error.2 (.inl (addTeam_of_isTeam hhas htaken))
  exact divided_of_error (Store.isOpen_of_has hhas) hcheck hlost

/-- A team that was made is what is found under its name. -/
theorem getTeam_of_createTeamSeeing {team : TeamName} {members : List Member} {t : Team}
    {o' : Office} (h : createTeamSeeing seen team members o = .ok t o') :
    getTeam team o' = .ok t o' := by
  obtain ⟨hteams, -, hload⟩ := isNew_of_fillTeam (divided_eq_ok h).2
  obtain ⟨-, hstore⟩ := createTeam_eq_ok (createTeam_of_seeing h)
  have hmade : o'.store.isTeam team = true := by
    rw [hstore, Store.isTeam_iff, Store.withTeam]
    exact List.mem_append_right _ List.mem_cons_self
  have hhas : o'.store.has .teams = true := by
    rw [hstore]
    exact hteams
  exact ask_bind_eq_ok.2 ⟨true, Store.reading_eq_ok.2 ⟨hhas, by rw [hmade]⟩, hload⟩

/-- **A lost race is a conflict.**  While references are checked, a row of a pull request is refused
as a conflict if and only if its id is taken, and as an internal error if and only if it is free
but the author is unknown; otherwise this row is put behind the others.  A team is refused if and
only if its name is taken.

So if two calls have one id, and one of them looked it up before the other put its row in, then
after whatever else has happened it is told of the conflict, or that its author is unknown.  It
leaves no trace: the pull request and the reviewers are those of the other call.  The same holds
for teams.  An undivided call is one that has looked at the store as it is, and a divided call
that answers is as good as an undivided one. -/
theorem lost_races_are_conflicts {s : Store} (hchecks : s.checksKeys = true) :
    (∀ (p : StoredPull) (w : Words), s.has .pulls = true →
      Inserts (addPull p) .pullExists (p.id ∈ s.pulls.map (·.id)) (p.author ∈ s.users.map (·.id))
        { s with pulls := s.pulls ++ [p] } ⟨s, w⟩) ∧
    (∀ (team : TeamName) (w : Words), s.has .teams = true →
      Inserts (addTeam team) .teamExists (team ∈ s.teams) True
        { s with teams := s.teams ++ [team] } ⟨s, w⟩) ∧
    (∀ (w : Words), (s.has .pulls = false → ∀ p, addPull p ⟨s, w⟩ = .error .internal ⟨s, w⟩) ∧
      (s.has .teams = false → ∀ team, addTeam team ⟨s, w⟩ = .error .internal ⟨s, w⟩)) ∧
    (∀ (seen : Store) (before between : List Call) (now now' : Instant) (id : PullId)
      (name name' : String) (author author' : UserId) (w w' : Words) (r : PullRequest) (o : Office),
      createPullSeeing seen now id name author ⟨s.after before, w⟩ = .ok r o →
      let later := o.store.after between
      createPull now id name author ⟨s.after before, w⟩ = .ok r o ∧ o.store.Shows id r ∧
      ∃ w'', createPullSeeing s now' id name' author' ⟨later, w'⟩ =
        .error (if author' ∈ later.users.map (·.id) then .pullExists else .authorNotFound)
          ⟨later, w''⟩) ∧
    (∀ (seen : Store) (before between : List Call) (team : TeamName)
      (members members' : List Member) (w w' : Words) (t : Team) (o : Office),
      createTeamSeeing seen team members ⟨s.after before, w⟩ = .ok t o →
      let later := o.store.after between
      createTeam team members ⟨s.after before, w⟩ = .ok t o ∧ getTeam team o = .ok t o ∧
      createTeamSeeing s team members' ⟨later, w'⟩ = .error .teamExists ⟨later, w'⟩) ∧
    (∀ now id name author w,
      createPullSeeing s now id name author ⟨s, w⟩ = createPull now id name author ⟨s, w⟩) ∧
    ∀ team members w, createTeamSeeing s team members ⟨s, w⟩ = createTeam team members ⟨s, w⟩ := by
  refine ⟨fun p w hpulls => addPull_inserts hchecks hpulls,
    fun team w hteams => addTeam_inserts hteams,
    fun w => ⟨fun hpulls p => addPull_of_no_table hpulls,
      fun hteams team => addTeam_of_no_table hteams⟩, ?_, ?_,
    fun _ _ _ _ _ => createPullSeeing_self, fun _ _ _ => createTeamSeeing_self⟩
  · intro seen before between now now' id name name' author author' w w' r o h later
    have hwhole := createPull_of_seeing h
    obtain ⟨u, reviewers, -, -, -, -, -, -, -, -, hshown⟩ := createPull_eq_ok hwhole
    exact ⟨hwhole, hshown, createPullSeeing_of_lost before between h⟩
  · intro seen before between team members members' w w' t o h later
    exact ⟨createTeam_of_seeing h, getTeam_of_createTeamSeeing h,
      createTeamSeeing_of_lost before between h⟩

/-- The id `n` is looked up, a merge comes in between, the pull request is opened, and a user is
switched off: the other call fails, and so does one for somebody unknown.  The same with a team. -/
theorem ofTwoTeams_raced :
    let s := Store.ofTwoTeams
    let before : List Call := [⟨.mergePull "o", ⟨1, 0⟩, default⟩]
    let between : List Call := [⟨.setActive "e" false, ⟨3, 0⟩, default⟩]
    addPull ⟨"o", "O", "z", "OPEN", .epoch, none⟩ ⟨s, default⟩ = .error .pullExists ⟨s, default⟩ ∧
    addPull ⟨"n", "N", "z", "OPEN", .epoch, none⟩ ⟨s, default⟩ = .error .internal ⟨s, default⟩ ∧
    addTeam "x" ⟨s, default⟩ = .error .teamExists ⟨s, default⟩ ∧
    (∃ r o, createPull ⟨2, 0⟩ "n" "N" "d" ⟨s.after before, default⟩ = .ok r o ∧
      r.reviewers = .ofList ["e"] ∧ o.store.Shows "n" r ∧
      (∃ w, createPullSeeing s ⟨4, 0⟩ "n" "M" "a" ⟨o.store.after between, default⟩ =
        .error .pullExists ⟨o.store.after between, w⟩) ∧
      ∃ w, createPullSeeing s ⟨4, 0⟩ "n" "M" "z" ⟨o.store.after between, default⟩ =
        .error .authorNotFound ⟨o.store.after between, w⟩) ∧
    ∃ t o, createTeam "y" [⟨"a", "A", true⟩] ⟨s.after before, default⟩ = .ok t o ∧
      createTeamSeeing s "y" [⟨"b", "B", true⟩] ⟨o.store.after between, default⟩ =
        .error .teamExists ⟨o.store.after between, default⟩ ∧
      getTeam "y" o = .ok t o := by
  intro s before between
  obtain ⟨hpull, hteam, -, hpulls, hteams, -⟩ := lost_races_are_conflicts (s := s) rfl
  refine ⟨(hpull _ default rfl).conflict.2 (by decide),
    (hpull _ default rfl).internal.2 (by decide), (hteam "x" default rfl).conflict.2 (by decide),
    ?_, ?_⟩
  · have hrace := fun author => hpulls s before between ⟨2, 0⟩ ⟨4, 0⟩ "n" "N" "M" "d" author default
      default _ _ rfl
    obtain ⟨hwhole, hshown, hconflict⟩ := hrace "a"
    obtain ⟨-, -, hunknown⟩ := hrace "z"
    rw [if_pos (by decide +kernel)] at hconflict
    rw [if_neg (by decide +kernel)] at hunknown
    exact ⟨_, _, hwhole, by decide +kernel, hshown, hconflict, hunknown⟩
  · obtain ⟨hwhole, hfound, hconflict⟩ := hteams s before between "y" [⟨"a", "A", true⟩]
      [⟨"b", "B", true⟩] default default _ _ rfl
    exact ⟨_, _, hwhole, hconflict, hfound⟩

end Desk

end ReviewDesk
