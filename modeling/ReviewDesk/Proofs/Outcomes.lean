import ReviewDesk.Proofs.Permanence

/-!
# How operations end

In a sound store every table is there, keys are distinct, references lead
somewhere and every pull request can be read.  Every effect keeps a store
sound, so every history from the empty store stays in sound stores.

In such a store no statement runs into a fault.  What an operation looks up
before it writes is all that its writes need: the row it adds has a new key and
refers to rows it has found, whoever is picked reviews nothing yet, and the pull
request it loads in the end is there.  So an operation answers unless the caller
asked for something that cannot be done, and this it finds out before anything is
drawn.

* `Effect.sound` — every effect keeps a store sound;
* `sound_after` — so does every history;
* `createTeam_of_isNew`, `createPull_of_author`, `reassign_of_candidate` and the
  like — what each operation answers, and how it leaves the office.
-/

namespace ReviewDesk

namespace Store

variable {s : Store}

/-! ## Sound stores -/

/-- Everything that operations rely on. -/
structure Sound (s : Store) : Prop where
  complete : s.isComplete = true
  consistent : s.Consistent
  readable : ∀ p ∈ s.pulls, ∃ status : Status, p.status = status.text

theorem sound_empty : Sound {} where
  complete := by decide
  consistent := consistent_empty _ _ _
  readable _ hp := (List.not_mem_nil hp).elim

theorem Sound.has (hs : s.Sound) (t : Table) : s.has t = true := has_of_isComplete hs.complete t

/-- A search for a pull request finds nothing or a row that can be read. -/
theorem Sound.find?_pull (hs : s.Sound) (id : PullId) :
    s.pulls.find? (·.id = id) = none ∨
      ∃ p : Pull, s.pulls.find? (·.id = id) = some p.stored := by
  cases hfind : s.pulls.find? (·.id = id) with
  | none => exact .inl rfl
  | some row =>
      obtain ⟨status, hstatus⟩ := hs.readable row (List.mem_of_find?_eq_some hfind)
      obtain ⟨p, -, rfl⟩ := StoredPull.exists_stored hstatus
      exact .inr ⟨p, rfl⟩

end Store

/-- Every effect keeps a store sound. -/
theorem Effect.sound {now : Instant} {s s' : Store} {op : Operation} {a : Answer}
    (h : Effect now s op a s') (hs : s.Sound) : s'.Sound where
  complete := by
    have htables := (h.precedes hs.consistent.pullKeys).tables
    have hcomplete := hs.complete
    simpa only [Store.isComplete, funext htables] using hcomplete
  consistent := h.consistent hs.consistent
  readable := by
    intro p hp
    rcases h.pull_cases hp with hold | ⟨hopened, -⟩ | ⟨q, -, rfl⟩
    · exact hs.readable p hold
    · exact ⟨.opened, hopened⟩
    · exact ⟨.merged, rfl⟩

/-- After every history from the empty store the store is sound. -/
theorem Store.sound_after (calls : List Call) : (after {} calls).Sound :=
  after_induction sound_empty Effect.sound calls

namespace Store

/-- A team as it is shown, with its members by id. -/
def team (s : Store) (name : TeamName) : Team :=
  ⟨name, (arrange (·.id < ·.id) (s.users.filter (·.team = name))).map User.member⟩

/-- The members that a team shows are its users. -/
theorem mem_members_team {s : Store} {name : TeamName} {m : Member} :
    m ∈ (s.team name).members ↔ ∃ u ∈ s.users, u.team = name ∧ u.member = m := by
  simp [team, (arrange_perm _ _).mem_iff, and_assoc]

end Store

namespace Desk

variable {s : Store} {w : Words}

/-! ## Teams and users -/

theorem loadTeam_eq (husers : s.has .users = true) (name : TeamName) :
    loadTeam name ⟨s, w⟩ = .ok (s.team name) ⟨s, w⟩ :=
  ask_bind_eq_ok.2 ⟨_, Store.reading_eq_ok.2 ⟨husers, rfl⟩, rfl⟩

theorem forM_upsertUser_of_isTeam {name : TeamName} (husers : s.has .users = true)
    (hteam : s.isTeam name = true) (members : List Member) :
    (members.forM fun m => change (·.upsertUser (m.user name))) ⟨s, w⟩ =
      .ok () ⟨{ s with users := (members.map fun m => m.user name).foldl User.enroll s.users },
        w⟩ := by
  induction members generalizing s with
  | nil => rfl
  | cons m others ih =>
      have hfirst := Store.upsertUser_of_isTeam (u := m.user name) husers hteam
      have hrest := ih (s := { s with users := User.enroll s.users (m.user name) }) husers hteam
      exact changeUnless_bind_eq_ok.2 ⟨_, hfirst, hrest⟩

theorem createTeam_of_isTeam {name : TeamName} (hteams : s.has .teams = true)
    (hteam : s.isTeam name = true) (members : List Member) :
    createTeam name members ⟨s, w⟩ = .error .teamExists ⟨s, w⟩ := by
  apply transaction_of_error (Store.isOpen_of_has hteams)
  refine bind_eq_error.2 (.inl (ask_bind_eq_error.2 (.inr ⟨true, ?_, rfl⟩)))
  exact Store.reading_eq_ok.2 ⟨hteams, by rw [hteam]⟩

theorem requireNewTeam_of_isNew {name : TeamName} (hteams : s.has .teams = true)
    (isNew : s.isTeam name = false) : requireNewTeam name ⟨s, w⟩ = .ok () ⟨s, w⟩ :=
  ask_bind_eq_ok.2 ⟨false, Store.reading_eq_ok.2 ⟨hteams, by rw [isNew]⟩, rfl⟩

/-- A new team gets its members, whoever they were before. -/
theorem createTeam_of_isNew {name : TeamName} (hteams : s.has .teams = true)
    (husers : s.has .users = true) (isNew : s.isTeam name = false) (members : List Member) :
    createTeam name members ⟨s, w⟩ =
      .ok ((s.withTeam name members).team name) ⟨s.withTeam name members, w⟩ := by
  have hlookup : requireNewTeam name ⟨s, w⟩ = .ok () ⟨s, w⟩ :=
    requireNewTeam_of_isNew hteams isNew
  have hteam : ({ s with teams := s.teams ++ [name] } : Store).isTeam name = true :=
    Store.isTeam_iff.2 (List.mem_append_right _ List.mem_cons_self)
  refine transaction_eq_ok.2 ⟨Store.isOpen_of_has hteams, ?_⟩
  refine bind_eq_ok.2 ⟨(), _, hlookup, ?_⟩
  refine changeUnless_bind_eq_ok.2 ⟨_, Store.insert_team_eq_ok.2 ⟨hteams, isNew, rfl⟩, ?_⟩
  refine bind_eq_ok.2
    ⟨(), _, forM_upsertUser_of_isTeam (s := { s with teams := s.teams ++ [name] }) husers hteam
      members, ?_⟩
  exact loadTeam_eq (s := s.withTeam name members) husers name

theorem getTeam_of_isTeam {name : TeamName} (hteams : s.has .teams = true)
    (husers : s.has .users = true) (hteam : s.isTeam name = true) :
    getTeam name ⟨s, w⟩ = .ok (s.team name) ⟨s, w⟩ := by
  refine ask_bind_eq_ok.2 ⟨true, Store.reading_eq_ok.2 ⟨hteams, by rw [hteam]⟩, ?_⟩
  exact loadTeam_eq husers name

theorem getTeam_of_not_isTeam {name : TeamName} (hteams : s.has .teams = true)
    (hteam : s.isTeam name = false) :
    getTeam name ⟨s, w⟩ = .error .teamNotFound ⟨s, w⟩ := by
  refine ask_bind_eq_error.2 (.inr ⟨false, Store.reading_eq_ok.2 ⟨hteams, by rw [hteam]⟩, ?_⟩)
  exact throw_bind_eq_error.2 ⟨rfl, rfl⟩

theorem setActive_of_unknown {id : UserId} (husers : s.has .users = true)
    (hunknown : s.users.find? (·.id = id) = none) (isActive : Bool) :
    setActive id isActive ⟨s, w⟩ = .error .userNotFound ⟨s, w⟩ := by
  refine ask_bind_eq_error.2 (.inr ⟨none, Store.reading_eq_ok.2 ⟨husers, by rw [hunknown]⟩, ?_⟩)
  exact orFail_bind_eq_error.2 (.inl ⟨rfl, rfl, rfl⟩)

theorem setActive_of_known {id : UserId} {u : User} (husers : s.has .users = true)
    (found : s.users.find? (·.id = id) = some u) (isActive : Bool) :
    ∃ o, setActive id isActive ⟨s, w⟩ = .ok { u with isActive } o := by
  have hlookup := Store.findUser_eq_some_iff.2 ⟨husers, found⟩
  by_cases hsame : u.isActive = isActive
  · refine ⟨⟨s, w⟩, ask_bind_eq_ok.2 ⟨_, hlookup, orFail_bind_eq_ok.2 ⟨u, rfl, ?_⟩⟩⟩
    exact ite_eq_ok.2 (.inr ⟨not_not_intro hsame, rfl⟩)
  · have hflag : s.setActive (· = id) isActive = .ok (s.withFlag id isActive) :=
      Store.updating_eq_ok.2 ⟨husers, by simp [Store.withFlag]⟩
    refine ⟨⟨s.withFlag id isActive, w⟩,
      ask_bind_eq_ok.2 ⟨_, hlookup, orFail_bind_eq_ok.2 ⟨u, rfl, ?_⟩⟩⟩
    refine ite_eq_ok.2 (.inl ⟨hsame, ?_⟩)
    exact changeUnless_bind_eq_ok.2 ⟨_, hflag, rfl⟩

theorem deactivate_of_not_isTeam {team : TeamName} (hteams : s.has .teams = true)
    (hteam : s.isTeam team = false) :
    deactivate team ⟨s, w⟩ = .error .teamNotFound ⟨s, w⟩ := by
  apply transaction_of_error (Store.isOpen_of_has hteams)
  refine ask_bind_eq_error.2 (.inr ⟨false, Store.reading_eq_ok.2 ⟨hteams, by rw [hteam]⟩, ?_⟩)
  exact throw_bind_eq_error.2 ⟨rfl, rfl⟩

end Desk

/-! ## Pull requests -/

namespace Store

variable {s : Store}

theorem findPull_eq_none {id : PullId} (hpulls : s.has .pulls = true)
    (hnone : s.pulls.find? (·.id = id) = none) : s.findPull id = .ok none := by
  rw [findPull, reading_eq_ok]
  exact ⟨hpulls, by rw [hnone]⟩

theorem isPull_of_find?_eq_none {id : PullId} (hnone : s.pulls.find? (·.id = id) = none) :
    s.isPull id = false := by
  simpa [isPull] using hnone

theorem isPull_of_found {id : PullId} {p : Pull}
    (found : s.pulls.find? (·.id = id) = some p.stored) : s.isPull id = true :=
  isPull_iff.2 (List.mem_map.2 ⟨p.stored, mem_of_find?_key found⟩)

/-- A new pull request is shown with the reviewers it was given. -/
theorem shows_withPull (hcomplete : s.isComplete = true) {p : Pull}
    (isNew : s.pulls.find? (·.id = p.id) = none) (reviewers : List UserId) :
    (s.withPull p.stored reviewers).Shows p.id
      ⟨p, (s.withPull p.stored reviewers).reviewersIn p.id⟩ where
  hasPulls := has_of_isComplete hcomplete .pulls
  hasReviews := has_of_isComplete hcomplete .reviews
  found := by
    have hself : decide (p.stored.id = p.id) = true := decide_eq_true rfl
    rw [withPull, List.find?_append, isNew, List.find?_singleton, hself]
    rfl
  reviewers := rfl

/-- A pull request that is merged now is shown so. -/
theorem shows_withMerged (hcomplete : s.isComplete = true) {id : PullId} {p : Pull}
    (found : s.pulls.find? (·.id = id) = some p.stored) (now : Instant) :
    (s.withMerged id now).Shows id
      ⟨{ p with status := .merged, mergedAt := some now }, s.reviewersIn id⟩ where
  hasPulls := has_of_isComplete hcomplete .pulls
  hasReviews := has_of_isComplete hcomplete .reviews
  found := by
    have hsame : ((fun q : StoredPull => decide (q.id = id)) ∘ fun q =>
        if q.id = id then q.merge now else q) = fun q => decide (q.id = id) := by
      funext q
      by_cases hid : q.id = id <;> simp [hid, StoredPull.merge]
    have hid : p.stored.id = id := (mem_of_find?_key found).2
    rw [withMerged, List.find?_map, hsame, found]
    simp only [Option.map_some, hid, if_true]
    rfl
  reviewers := rfl

end Store

namespace Desk

variable {s : Store} {w : Words} {now : Instant} {id : PullId} {name : String}

theorem createPull_of_isPull (hpulls : s.has .pulls = true) {p : Pull}
    (found : s.pulls.find? (·.id = id) = some p.stored) (author : UserId) :
    createPull now id name author ⟨s, w⟩ = .error .pullExists ⟨s, w⟩ := by
  have hlookup := Store.findPull_eq_some_iff.2 ⟨hpulls, found⟩
  apply transaction_of_error (Store.isOpen_of_has hpulls)
  exact bind_eq_error.2 (.inl (ask_bind_eq_error.2 (.inr ⟨_, hlookup, rfl⟩)))

theorem requireNewPull_of_isNew (hpulls : s.has .pulls = true)
    (isNew : s.pulls.find? (·.id = id) = none) : requireNewPull id ⟨s, w⟩ = .ok () ⟨s, w⟩ :=
  ask_bind_eq_ok.2 ⟨none, Store.findPull_eq_none hpulls isNew, rfl⟩

theorem createPull_of_no_author (hcomplete : s.isComplete = true)
    (isNew : s.pulls.find? (·.id = id) = none) {author : UserId}
    (hunknown : s.users.find? (·.id = author) = none) :
    createPull now id name author ⟨s, w⟩ = .error .authorNotFound ⟨s, w⟩ := by
  have hhas := Store.has_of_isComplete hcomplete
  have hlookup : s.findUser author = .ok none :=
    Store.reading_eq_ok.2 ⟨hhas .users, by rw [hunknown]⟩
  apply transaction_of_error (Store.isOpen_of_has (hhas .pulls))
  refine bind_eq_error.2 (.inr ⟨(), _, requireNewPull_of_isNew (hhas .pulls) isNew, ?_⟩)
  exact ask_bind_eq_error.2 (.inr ⟨none, hlookup, orFail_bind_eq_error.2 (.inl ⟨rfl, rfl, rfl⟩)⟩)

theorem addReviewers_of_new {users : List UserId} (hreviews : s.has .reviews = true)
    (hpull : s.isPull id = true) (hknown : ∀ user ∈ users, s.isUser user = true)
    (hdistinct : users.Nodup) (hnew : ∀ user ∈ users, ⟨id, user⟩ ∉ s.reviews) :
    addReviewers id users ⟨s, w⟩ =
      .ok () ⟨{ s with reviews := s.reviews ++ users.map fun user => ⟨id, user⟩ }, w⟩ := by
  unfold addReviewers
  cases users with
  | nil => simp [pure, EStateM.pure]
  | cons user others =>
      refine ite_eq_ok.2 (.inr ⟨by simp, changeUnless_eq_ok.2 ⟨_, ?_, rfl⟩⟩)
      exact Store.insertAll_reviews_of_new hreviews hpull hknown hdistinct hnew

/-- A pull request with a new id is opened for an author who exists, and its
reviewers are those who are picked. -/
theorem createPull_of_author (hcomplete : s.isComplete = true) (hs : s.Consistent)
    (isNew : s.pulls.find? (·.id = id) = none) {author : User}
    (found : s.users.find? (·.id = author.id) = some author) :
    let picked := w.pick (s.activeIn author.team) (.ofList [author.id]) maxReviewers
    let opened : Pull := ⟨id, name, author.id, .opened, now, none⟩
    createPull now id name author.id ⟨s, w⟩ =
      .ok ⟨opened, (s.withPull opened.stored picked.1).reviewersIn id⟩
        ⟨s.withPull opened.stored picked.1, picked.2⟩ := by
  intro picked opened
  have hhas := Store.has_of_isComplete hcomplete
  have hfree := Store.isPull_of_find?_eq_none isNew
  have hauthor : s.isUser author.id = true := Store.isUser_iff.2 (Store.isUser_of_find? found)
  have hpull : ({ s with pulls := s.pulls ++ [opened.stored] } : Store).isPull id = true :=
    Store.isPull_iff.2 (List.mem_map_of_mem (List.mem_append_right _ List.mem_cons_self))
  have hknown : ∀ user ∈ picked.1, s.isUser user = true := fun user huser =>
    Store.isUser_iff.2 (Store.isUser_of_mem_activeIn (Words.mem_of_mem_pick huser).1)
  -- nobody reviews what does not exist
  have hnew : ∀ user ∈ picked.1, ⟨id, user⟩ ∉ s.reviews := fun user _ hmem =>
    Store.isPull_eq_false_iff.1 hfree (hs.reviewPulls (List.mem_map_of_mem hmem))
  refine transaction_eq_ok.2 ⟨Store.isOpen_of_has (hhas .pulls), ?_⟩
  refine bind_eq_ok.2 ⟨(), _, requireNewPull_of_isNew (hhas .pulls) isNew, ?_⟩
  refine ask_bind_eq_ok.2 ⟨_, Store.findUser_eq_some_iff.2 ⟨hhas .users, found⟩, ?_⟩
  refine orFail_bind_eq_ok.2 ⟨author, rfl, ?_⟩
  refine ask_bind_eq_ok.2
    ⟨_, Store.activeMembers_eq_ok.2 ⟨hhas .users, rfl⟩, draw_bind_eq_ok.2 ?_⟩
  refine changeUnless_bind_eq_ok.2
    ⟨_, Store.insert_pull_eq_ok.2 ⟨hhas .pulls, hfree, Store.accepts_of hauthor, rfl⟩, ?_⟩
  refine bind_eq_ok.2
    ⟨(), _, addReviewers_of_new (hhas .reviews) hpull hknown Words.nodup_pick hnew, ?_⟩
  exact orFail_loadPull_eq_ok.2 ⟨rfl, Store.shows_withPull hcomplete isNew picked.1⟩

theorem mergePull_of_unknown (hpulls : s.has .pulls = true)
    (hunknown : s.pulls.find? (·.id = id) = none) :
    mergePull now id ⟨s, w⟩ = .error .pullNotFound ⟨s, w⟩ := by
  apply transaction_of_error (Store.isOpen_of_has hpulls)
  refine ask_bind_eq_error.2 (.inr ⟨none, Store.findPull_eq_none hpulls hunknown, ?_⟩)
  exact orFail_bind_eq_error.2 (.inl ⟨rfl, rfl, rfl⟩)

theorem mergePull_of_opened (hcomplete : s.isComplete = true) {p : Pull}
    (found : s.pulls.find? (·.id = id) = some p.stored) (hopened : p.status = .opened) :
    mergePull now id ⟨s, w⟩ =
      .ok ⟨{ p with status := .merged, mergedAt := some now }, s.reviewersIn id⟩
        ⟨s.withMerged id now, w⟩ := by
  have hhas := Store.has_of_isComplete hcomplete
  have hmerged : s.setMerged id now = .ok (s.withMerged id now) :=
    Store.updating_eq_ok.2 ⟨hhas .pulls, rfl⟩
  refine transaction_eq_ok.2 ⟨Store.isOpen_of_has (hhas .pulls), ?_⟩
  refine ask_bind_eq_ok.2 ⟨_, Store.findPull_eq_some_iff.2 ⟨hhas .pulls, found⟩, ?_⟩
  refine orFail_bind_eq_ok.2 ⟨p, rfl, ite_eq_ok.2 (.inl ⟨hopened, ?_⟩)⟩
  refine changeUnless_bind_eq_ok.2 ⟨_, hmerged, ?_⟩
  exact orFail_loadPull_eq_ok.2 ⟨rfl, Store.shows_withMerged hcomplete found now⟩

end Desk

/-! ## Replacing a reviewer -/

namespace Store

variable {s : Store} {w : Words} {id : PullId} {author : UserId} {old : User}

/-- Whom chance lets follow a reviewer, drawn from the team of that reviewer. -/
def successor (s : Store) (id : PullId) (author : UserId) (old : User) (w : Words) :
    Option UserId × Words :=
  w.pickOne (s.activeIn old.team) ((s.reviewersIn id).insert author)

/-- Whoever follows is active, is not the author and is new to the pull request. -/
theorem mem_of_successor {new : UserId} (h : (s.successor id author old w).1 = some new) :
    new ∈ s.activeIn old.team ∧ new ≠ author ∧ ⟨id, new⟩ ∉ s.reviews := by
  obtain ⟨hactive, hallowed⟩ := Words.mem_of_pickOne h
  rw [Ascending.mem_insert, not_or, mem_reviewersIn] at hallowed
  exact ⟨hactive, hallowed⟩

/-- If nobody can follow, no word is drawn. -/
theorem words_of_no_successor (h : (s.successor id author old w).1 = none) :
    (s.successor id author old w).2 = w :=
  (Words.pickOne_eq_none h).2

end Store

namespace Desk

variable {s : Store} {w : Words} {id : PullId}

/-- Somebody who exists and does not review the pull request yet can take any
place in it. -/
theorem swapReviewer_of_new {old new : UserId} (hreviews : s.has .reviews = true)
    (hpull : s.isPull id = true) (hknown : s.isUser new = true) (fresh : ⟨id, new⟩ ∉ s.reviews) :
    swapReviewer id old (some new) ⟨s, w⟩ = .ok () ⟨s.withSwap id old new, w⟩ := by
  have hsound : (s.isPull id && s.isUser new) = true := Bool.and_eq_true_iff.2 ⟨hpull, hknown⟩
  have hstill : (⟨id, new⟩ : Review) ∉ s.reviews.filter (· ≠ ⟨id, old⟩) :=
    fun hmem => fresh (List.mem_filter.1 hmem).1
  refine changeUnless_bind_eq_ok.2 ⟨_, Store.delete_review_eq_ok.2 ⟨hreviews, rfl⟩, ?_⟩
  refine changeUnless_eq_ok.2 ⟨_, Store.insert_review_eq_ok.2 ⟨hreviews, hstill, ?_, rfl⟩, rfl⟩
  exact Store.accepts_of hsound

theorem reassign_of_unknown (hpulls : s.has .pulls = true)
    (hunknown : s.pulls.find? (·.id = id) = none) (old : UserId) :
    reassign id old ⟨s, w⟩ = .error .pullNotFound ⟨s, w⟩ := by
  apply transaction_of_error (Store.isOpen_of_has hpulls)
  refine ask_bind_eq_error.2 (.inr ⟨none, Store.findPull_eq_none hpulls hunknown, ?_⟩)
  exact orFail_bind_eq_error.2 (.inl ⟨rfl, rfl, rfl⟩)

variable {p : Pull}

theorem not_merged_of_opened (hopened : p.status = .opened) : ¬ p.status = .merged := by
  rw [hopened]
  decide

theorem reassign_of_not_assigned (hcomplete : s.isComplete = true)
    (found : s.pulls.find? (·.id = id) = some p.stored) (hopened : p.status = .opened)
    {old : UserId} (hnot : ⟨id, old⟩ ∉ s.reviews) :
    reassign id old ⟨s, w⟩ = .error .notAssigned ⟨s, w⟩ := by
  have hhas := Store.has_of_isComplete hcomplete
  have hset : s.reviewersOf id = .ok (s.reviewersIn id) :=
    Store.reading_eq_ok.2 ⟨hhas .reviews, rfl⟩
  apply transaction_of_error (Store.isOpen_of_has (hhas .pulls))
  refine ask_bind_eq_error.2
    (.inr ⟨_, Store.findPull_eq_some_iff.2 ⟨hhas .pulls, found⟩, ?_⟩)
  refine orFail_bind_eq_error.2 (.inr ⟨p, rfl, ?_⟩)
  refine ite_eq_error.2 (.inr ⟨not_merged_of_opened hopened, ?_⟩)
  refine ask_bind_eq_error.2 (.inr ⟨_, hset, ite_eq_error.2 (.inl ⟨?_, ?_⟩)⟩)
  · exact fun hmem => hnot (Store.mem_reviewersIn.1 hmem)
  · exact throw_bind_eq_error.2 ⟨rfl, rfl⟩

variable {old : User} (hcomplete : s.isComplete = true)
  (found : s.pulls.find? (·.id = id) = some p.stored) (hopened : p.status = .opened)
  (assigned : ⟨id, old.id⟩ ∈ s.reviews) (known : s.users.find? (·.id = old.id) = some old)

include hcomplete found hopened assigned known

/-- As the lookups find everything, only the draw decides. -/
theorem reassign_of_assigned :
    reassign id old.id ⟨s, w⟩ = transaction (do
      let drawn ← draw (s.successor id p.author old)
      let new ← orFail .noCandidate drawn
      swapReviewer id old.id (some new)
      let request ← orFail .pullNotFound (← loadPull id)
      return ⟨request, new⟩) ⟨s, w⟩ := by
  have hhas := Store.has_of_isComplete hcomplete
  have hset : s.reviewersOf id = .ok (s.reviewersIn id) :=
    Store.reading_eq_ok.2 ⟨hhas .reviews, rfl⟩
  have hpool : s.activeMembers old.team = .ok (s.activeIn old.team) :=
    Store.activeMembers_eq_ok.2 ⟨hhas .users, rfl⟩
  have hmerged : ¬ p.status = .merged := not_merged_of_opened hopened
  have hreviews : old.id ∈ s.reviewersIn id := Store.mem_reviewersIn.2 assigned
  apply transaction_congr
  refine (ask_bind (Store.findPull_eq_some_iff.2 ⟨hhas .pulls, found⟩)).trans ?_
  refine orFail_some_bind.trans ((congrFun (if_neg hmerged) _).trans ?_)
  refine (ask_bind hset).trans ((congrFun (if_neg (not_not_intro hreviews)) _).trans ?_)
  refine (ask_bind (Store.findUser_eq_some_iff.2 ⟨hhas .users, known⟩)).trans ?_
  exact orFail_some_bind.trans (ask_bind hpool)

/-- If nobody is left to follow, the reviewer stays and no word is drawn. -/
theorem reassign_of_no_candidate
    (hnobody : (s.successor id p.author old w).1 = none) :
    reassign id old.id ⟨s, w⟩ = .error .noCandidate ⟨s, w⟩ := by
  rw [reassign_of_assigned hcomplete found hopened assigned known]
  apply transaction_of_error (Store.isOpen_of_has (Store.has_of_isComplete hcomplete .pulls))
  refine draw_bind_eq_error.2 (orFail_bind_eq_error.2 (.inl ⟨hnobody, rfl, ?_⟩))
  rw [Store.words_of_no_successor hnobody]

/-- Whoever is drawn takes the place of the reviewer. -/
theorem reassign_of_candidate {new : UserId}
    (hnew : (s.successor id p.author old w).1 = some new) :
    reassign id old.id ⟨s, w⟩ =
      .ok ⟨⟨p, (s.withSwap id old.id new).reviewersIn id⟩, new⟩
        ⟨s.withSwap id old.id new, (s.successor id p.author old w).2⟩ := by
  have hhas := Store.has_of_isComplete hcomplete
  obtain ⟨hactive, -, fresh⟩ := Store.mem_of_successor hnew
  have hpull : s.isPull id = true := Store.isPull_of_found found
  have hknown : s.isUser new = true := Store.isUser_iff.2 (Store.isUser_of_mem_activeIn hactive)
  have hshown : (s.withSwap id old.id new).Shows id
      ⟨p, (s.withSwap id old.id new).reviewersIn id⟩ := ⟨hhas .pulls, hhas .reviews, found, rfl⟩
  rw [reassign_of_assigned hcomplete found hopened assigned known]
  refine transaction_eq_ok.2 ⟨Store.isOpen_of_has (hhas .pulls), draw_bind_eq_ok.2 ?_⟩
  refine orFail_bind_eq_ok.2 ⟨new, hnew, ?_⟩
  refine bind_eq_ok.2 ⟨(), _, swapReviewer_of_new (hhas .reviews) hpull hknown fresh, ?_⟩
  refine bind_eq_ok.2 ⟨_, _, loadPull_eq_some_iff.2 ⟨rfl, hshown⟩, ?_⟩
  exact orFail_bind_eq_ok.2 ⟨_, rfl, rfl⟩

end Desk

end ReviewDesk
