import ReviewDesk.Proofs.Changes
import ReviewDesk.Proofs.Requests

/-!
# Integrity

The store itself sees to it that keys stay distinct and references lead somewhere, whoever
writes to it: operations, the parts they are made of, rows put in or taken out by hand, or
requests.  What the effects of operations say about references is not needed for this.

Work at the desk may stop halfway, and blocks may take back what went before.  Neither
matters, since the store is in order after every single change.

* `ReferencesHold.changed` — while references are checked, every change keeps them good;
* `run_keeps` — what statements keep, all steps of a session keep;
* `visited_stores_are_guarded` — every store that a session comes through is in order, and
  what can and cannot be deleted from it.
-/

namespace ReviewDesk

namespace Store

variable {s s' : Store}

/-! ## References -/

/-- What rows refer to exists. -/
structure ReferencesHold (s : Store) : Prop where
  userTeams : s.users.map (·.team) ⊆ s.teams
  pullAuthors : s.pulls.map (·.author) ⊆ s.users.map (·.id)
  reviewPulls : s.reviews.map (·.pull) ⊆ s.pulls.map (·.id)
  reviewUsers : s.reviews.map (·.user) ⊆ s.users.map (·.id)

theorem consistent_iff : s.Consistent ↔ s.DistinctKeys ∧ s.ReferencesHold := by
  constructor
  · intro h
    exact ⟨⟨h.teamKeys, h.userKeys, h.pullKeys, h.reviewKeys⟩,
      ⟨h.userTeams, h.pullAuthors, h.reviewPulls, h.reviewUsers⟩⟩
  · intro h
    obtain ⟨keys, references⟩ := h
    exact ⟨keys.teams, keys.users, keys.pulls, keys.reviews, references.userTeams,
      references.pullAuthors, references.reviewPulls, references.reviewUsers⟩

/-- A store that checks references accepts nothing but what is sound. -/
theorem of_accepts {isSound : Bool} (hchecks : s.checksKeys = true)
    (h : s.accepts isSound = true) : isSound = true := by
  simpa [accepts, hchecks] using h

/-- Where references hold, a row may go if and only if nothing refers to it. -/
theorem accepts_unless_used {α κ : Type} [DecidableEq κ] {rows : List α} {target : α → κ} {k : κ}
    {isThere : Bool} (hchecks : s.checksKeys = true)
    (hthere : ∀ a ∈ rows, target a = k → isThere = true) :
    s.accepts (! isThere || rows.all (target · ≠ k)) = true ↔ ∀ a ∈ rows, target a ≠ k := by
  cases isThere with
  | true => simp [accepts, hchecks]
  | false =>
      simp only [accepts, Bool.not_false, Bool.true_or, Bool.or_true, true_iff]
      intro a ha hk
      exact Bool.noConfusion (hthere a ha hk)

theorem not_accepts_used {α κ : Type} [DecidableEq κ] {rows : List α} {target : α → κ} {a : α}
    {isThere : Bool} (hchecks : s.checksKeys = true) (ha : a ∈ rows)
    (hthere : ∀ b ∈ rows, target b = target a → isThere = true) :
    s.accepts (! isThere || rows.all (target · ≠ target a)) = false := by
  rw [← Bool.not_eq_true, accepts_unless_used hchecks hthere]
  intro hunused
  exact hunused a ha rfl

/-- Where references hold, the reviews that go along with a row are all that refer to it. -/
theorem reviews_along {side : Review → String} {k : String} {isThere : Bool}
    (hchecks : s.checksKeys = true) (hthere : ∀ r ∈ s.reviews, side r = k → isThere = true) :
    (if s.checksKeys && isThere then s.reviews.filter (side · ≠ k) else s.reviews)
      = s.reviews.filter (side · ≠ k) := by
  cases isThere with
  | true => simp [hchecks]
  | false =>
      simp only [Bool.and_false, Bool.false_eq_true, if_false]
      symm
      refine List.filter_eq_self.2 fun r hr => decide_eq_true fun hk => ?_
      exact Bool.noConfusion (hthere r hr hk)

/-- References stay good when rows go to which nothing refers. -/
theorem subset_keys_filter {α β : Type} {target : α → String} {key : β → String} {rows : List α}
    {others : List β} {k : String} (h : rows.map target ⊆ others.map key)
    (hne : ∀ a ∈ rows, target a ≠ k) :
    rows.map target ⊆ (others.filter (key · ≠ k)).map key := by
  intro x hx
  obtain ⟨a, ha, rfl⟩ := List.mem_map.1 hx
  obtain ⟨b, hb, hkey⟩ := List.mem_map.1 (h hx)
  have hkept : key b ≠ k := hkey ▸ hne a ha
  exact List.mem_map.2 ⟨b, List.mem_filter.2 ⟨hb, decide_eq_true hkept⟩, hkey⟩

theorem subset_of_filter {α β : Type} {target : α → β} {rows : List α} {targets : List β}
    (keep : α → Bool) (h : rows.map target ⊆ targets) :
    (rows.filter keep).map target ⊆ targets :=
  List.Subset.trans (List.map_subset _ (List.filter_subset_self rows)) h

namespace ReferencesHold

variable (hs : s.ReferencesHold) (hchecks : s.checksKeys = true)

include hs

theorem isTeam_of_mem {u : User} {name : TeamName} (hu : u ∈ s.users) (h : u.team = name) :
    s.isTeam name = true :=
  isTeam_iff.2 (h ▸ hs.userTeams (List.mem_map_of_mem hu))

theorem isUser_of_author {p : StoredPull} {id : UserId} (hp : p ∈ s.pulls) (h : p.author = id) :
    s.isUser id = true :=
  isUser_iff.2 (h ▸ hs.pullAuthors (List.mem_map_of_mem hp))

theorem isUser_of_review {r : Review} {id : UserId} (hr : r ∈ s.reviews) (h : r.user = id) :
    s.isUser id = true :=
  isUser_iff.2 (h ▸ hs.reviewUsers (List.mem_map_of_mem hr))

theorem isPull_of_review {r : Review} {id : PullId} (hr : r ∈ s.reviews) (h : r.pull = id) :
    s.isPull id = true :=
  isPull_iff.2 (h ▸ hs.reviewPulls (List.mem_map_of_mem hr))

include hchecks

/-- While references are checked, every change keeps them good. -/
theorem changed (h : s.Changed s') : s'.ReferencesHold := by
  cases h with
  | addTeam => exact { hs with userTeams := List.subset_append_of_subset_left _ hs.userTeams }
  | @putUser u team =>
      have hids := User.ids_subset_enroll s.users u
      refine { hs with
        userTeams := ?_
        pullAuthors := List.Subset.trans hs.pullAuthors hids
        reviewUsers := List.Subset.trans hs.reviewUsers hids }
      intro name hname
      obtain ⟨v, hv, rfl⟩ := List.mem_map.1 hname
      rcases User.mem_of_mem_enroll hv with rfl | hv
      · exact isTeam_iff.1 (of_accepts hchecks team)
      · exact hs.userTeams (List.mem_map_of_mem hv)
  | addPull _ author =>
      have hauthor := isUser_iff.1 (of_accepts hchecks author)
      refine { hs with pullAuthors := ?_, reviewPulls := ?_ }
      · rw [List.map_append]
        exact List.append_subset.2 ⟨hs.pullAuthors, by simpa using hauthor⟩
      · rw [List.map_append]
        exact List.subset_append_of_subset_left _ hs.reviewPulls
  | addReview _ sides =>
      obtain ⟨hpull, huser⟩ := Bool.and_eq_true_iff.1 (of_accepts hchecks sides)
      refine { hs with reviewPulls := ?_, reviewUsers := ?_ }
      · rw [List.map_append]
        exact List.append_subset.2 ⟨hs.reviewPulls, by simpa using isPull_iff.1 hpull⟩
      · rw [List.map_append]
        exact List.append_subset.2 ⟨hs.reviewUsers, by simpa using isUser_iff.1 huser⟩
  | dropTeam unused =>
      have hunused := (accepts_unless_used hchecks fun _ => hs.isTeam_of_mem).1 unused
      refine { hs with userTeams := ?_ }
      have hteams : s.users.map (·.team) ⊆ s.teams.map fun name => name := by
        simpa using hs.userTeams
      simpa using subset_keys_filter hteams hunused
  | dropUser unused =>
      have hunused := (accepts_unless_used hchecks fun _ => hs.isUser_of_author).1 unused
      rw [reviews_along hchecks fun _ => hs.isUser_of_review]
      exact {
        userTeams := subset_of_filter _ hs.userTeams
        pullAuthors := subset_keys_filter hs.pullAuthors hunused
        reviewPulls := subset_of_filter _ hs.reviewPulls
        reviewUsers := subset_keys_filter (subset_of_filter _ hs.reviewUsers)
          fun r hr => of_decide_eq_true (List.mem_filter.1 hr).2 }
  | dropPull id =>
      rw [reviews_along hchecks fun _ => hs.isPull_of_review]
      exact { hs with
        pullAuthors := subset_of_filter _ hs.pullAuthors
        reviewPulls := subset_keys_filter (subset_of_filter _ hs.reviewPulls)
          fun r hr => of_decide_eq_true (List.mem_filter.1 hr).2
        reviewUsers := subset_of_filter _ hs.reviewUsers }
  | dropReview r =>
      exact { hs with
        reviewPulls := subset_of_filter _ hs.reviewPulls
        reviewUsers := subset_of_filter _ hs.reviewUsers }
  | @rewriteUsers g same =>
      have hids : (s.users.map g).map (·.id) = s.users.map (·.id) :=
        map_map_eq_of_forall (fun u => (same u).1) s.users
      have hteams : (s.users.map g).map (·.team) = s.users.map (·.team) :=
        map_map_eq_of_forall (fun u => (same u).2) s.users
      exact { hs with
        userTeams := hteams ▸ hs.userTeams
        pullAuthors := hids ▸ hs.pullAuthors
        reviewUsers := hids ▸ hs.reviewUsers }
  | @rewritePulls g same =>
      have hids : (s.pulls.map g).map (·.id) = s.pulls.map (·.id) :=
        map_map_eq_of_forall (fun p => (same p).1) s.pulls
      have hauthors : (s.pulls.map g).map (·.author) = s.pulls.map (·.author) :=
        map_map_eq_of_forall (fun p => (same p).2) s.pulls
      exact { hs with
        pullAuthors := hauthors ▸ hs.pullAuthors
        reviewPulls := hids ▸ hs.reviewPulls }

end ReferencesHold

/-! ## Stores in order -/

/-- A store in order: all tables are there, references are checked, keys are distinct and
references lead somewhere. -/
structure Guarded (s : Store) : Prop where
  migrated : s.migrated = Table.all.length
  checksKeys : s.checksKeys = true
  consistent : s.Consistent

/-- A store without rows is in order if it has its tables and checks references. -/
theorem guarded_empty : Guarded {} := ⟨rfl, rfl, consistent_empty _ _ _⟩

/-- The store without a pull request and its reviews. -/
def withoutPull (s : Store) (id : PullId) : Store :=
  { s with pulls := s.pulls.filter (·.id ≠ id), reviews := s.reviews.filter (·.pull ≠ id) }

/-- The store without a user and the reviews of that user. -/
def withoutUser (s : Store) (id : UserId) : Store :=
  { s with users := s.users.filter (·.id ≠ id), reviews := s.reviews.filter (·.user ≠ id) }

namespace Guarded

variable (hs : s.Guarded)

include hs

/-- Every statement that is carried out leaves a store in order. -/
theorem after {statement : Store → Except Fault Store} (h : IsStatement statement)
    (hok : statement s = .ok s') : s'.Guarded := by
  have hchanged := h.changed hok
  obtain ⟨hmigrated, hchecks⟩ := hchanged.settings
  obtain ⟨keys, references⟩ := consistent_iff.1 hs.consistent
  refine ⟨hmigrated.trans hs.migrated, hchecks.trans hs.checksKeys, ?_⟩
  exact consistent_iff.2 ⟨hchanged.distinctKeys keys, references.changed hs.checksKeys hchanged⟩

theorem closed : Guarded { s with isOpen := false } :=
  ⟨hs.migrated, hs.checksKeys, { hs.consistent with }⟩

theorem has (t : Table) : s.has t = s.isOpen := by
  cases t <;> simp [Store.has, hs.migrated, Table.rank, Table.all]

theorem referencesHold : s.ReferencesHold := (consistent_iff.1 hs.consistent).2

/-- A team with users stays. -/
theorem delete_team {u : User} (hu : u ∈ s.users) :
    s.delete (.team u.team) = .error (if s.isOpen then .brokenReference else .unavailable) := by
  have hthere : ∀ v ∈ s.users, v.team = u.team → s.isTeam u.team = true := fun _ =>
    hs.referencesHold.isTeam_of_mem
  simp only [delete, hs.has, not_accepts_used hs.checksKeys hu hthere]
  cases s.isOpen <;> rfl

/-- A user who authored a pull request stays. -/
theorem delete_author {p : StoredPull} (hp : p ∈ s.pulls) :
    s.delete (.user p.author) = .error (if s.isOpen then .brokenReference else .unavailable) := by
  have hthere : ∀ q ∈ s.pulls, q.author = p.author → s.isUser p.author = true := fun _ =>
    hs.referencesHold.isUser_of_author
  simp only [delete, hs.has, not_accepts_used hs.checksKeys hp hthere]
  cases s.isOpen <;> rfl

variable (hopen : s.isOpen = true)

include hopen

theorem delete_pull (id : PullId) : s.delete (.pull id) = .ok (s.withoutPull id) := by
  have hthere : ∀ r ∈ s.reviews, r.pull = id → s.isPull id = true := fun _ =>
    hs.referencesHold.isPull_of_review
  have hreviews := reviews_along hs.checksKeys hthere
  refine delete_pull_eq_ok.2 ⟨(hs.has .pulls).trans hopen, ?_⟩
  rw [hreviews, withoutPull]

theorem delete_user {id : UserId} (h : ∀ p ∈ s.pulls, p.author ≠ id) :
    s.delete (.user id) = .ok (s.withoutUser id) := by
  have hauthor : ∀ p ∈ s.pulls, p.author = id → s.isUser id = true := fun _ =>
    hs.referencesHold.isUser_of_author
  have hreview : ∀ r ∈ s.reviews, r.user = id → s.isUser id = true := fun _ =>
    hs.referencesHold.isUser_of_review
  have hunused := (accepts_unless_used hs.checksKeys hauthor).2 h
  have hreviews := reviews_along hs.checksKeys hreview
  refine delete_user_eq_ok.2 ⟨(hs.has .users).trans hopen, hunused, ?_⟩
  rw [hreviews, withoutUser]

end Guarded

end Store

/-! ## Sessions -/

namespace Session

open Store Desk

variable {P : Store → Prop} {mode : Mode}

/-- A step is a block, or it is taken on the office of its scene. -/
theorem run_cases (mode : Mode) (isInBlock : Bool) (taken : Step) (s : Scene) :
    (∃ steps isKept, taken = .block steps isKept) ∨
      (run mode isInBlock taken s).2
        = s.after taken (take mode.newId isInBlock s.now taken s.office).2 := by
  cases taken with
  | block steps isKept => exact .inl ⟨steps, isKept, rfl⟩
  | _ => exact .inr rfl

/-- A property that a store keeps at every statement and when it is closed. -/
structure IsKept (P : Store → Prop) : Prop where
  statement : ∀ {statement : Store → Except Fault Store}, IsStatement statement →
    ∀ {s s' : Store}, statement s = .ok s' → P s → P s'
  close : ∀ {s : Store}, P s → P { s with isOpen := false }

namespace IsKept

variable (hP : IsKept P)

include hP

theorem atDesk {α : Type} {work : Desk α} (h : Assembled work) (toJson : α → Json)
    {o : Office} (ho : P o.store) : P (Session.atDesk work toJson o).2.store := by
  obtain ⟨hok, herror⟩ := h.keeps hP.statement ho
  unfold Session.atDesk
  cases hrun : work o with
  | ok a o' => exact hok a o' hrun
  | error f o' => exact herror f o' hrun

theorem onRows (count : Nat) {statement : Store → Except Fault Store}
    (h : IsStatement statement) {o : Office} (ho : P o.store) :
    P (Session.onRows count (statement o.store) o).2.store := by
  unfold Session.onRows
  cases hok : statement o.store with
  | ok s => exact hP.statement h hok ho
  | error fault => exact ho

/-- A step that is no block keeps what statements keep. -/
theorem take (newId : String) (isInBlock : Bool) (now : Instant) (taken : Step) {o : Office}
    (ho : P o.store) : P (Session.take newId isInBlock now taken o).2.store := by
  cases taken with
  | operation op => exact hP.atDesk (op.assembled now) _ ho
  | deactivateHere team =>
      cases isInBlock with
      | true => exact hP.atDesk (.deactivateHere team) _ ho
      | false => exact ho
  | findUser id => exact hP.atDesk (.ask (.findUser id)) _ ho
  | findPull id => exact hP.atDesk (.ask (.findPull id)) _ ho
  | activeMembers team => exact hP.atDesk (.ask (.activeMembers team)) _ ho
  | reviewersOf id => exact hP.atDesk (.ask (.reviewersOf id)) _ ho
  | loadPull id => exact hP.atDesk (.loadPull id) _ ho
  | addTeam name => exact hP.atDesk (.addTeam name) _ ho
  | addPull p => exact hP.atDesk (.addPull p) _ ho
  | addReviewers id reviewers => exact hP.atDesk (.addReviewers id reviewers) _ ho
  | swapReviewer id old new => exact hP.atDesk (.swapReviewer id old new) _ ho
  | insertRow row => exact hP.onRows 1 (.insert row) ho
  | deleteRow key => exact hP.onRows _ (.delete key) ho
  | setStatus id status =>
      simp only [Session.take]
      cases hok : o.store.setStatus id status with
      | ok s => exact hP.statement (.setStatus id status) hok ho
      | error fault => exact ho
  | block steps isKept => exact ho
  | dump => exact ho
  | relations =>
      simp only [Session.take]
      cases o.store.relations <;> exact ho
  | close => exact hP.close ho
  | send bytes isHeld =>
      refine Http.Service.serve_induction (fun {op now o o' a} hrun ho => ?_) now _ bytes ho
      exact ((op.assembled now).keeps hP.statement ho).1 a o' hrun
  | unknown => exact ho

end IsKept

mutual

/-- What statements keep is kept by every step, and by a block whether it is kept or
taken back. -/
theorem run_keeps (hP : IsKept P) (isInBlock : Bool) (taken : Step) {s : Scene}
    (hs : P s.office.store) : P (run mode isInBlock taken s).2.office.store := by
  rcases run_cases mode isInBlock taken s with ⟨steps, isKept, rfl⟩ | hrun
  · unfold run
    split
    · cases isKept with
      | true => exact runAll_keeps hP true steps hs
      -- whatever the steps did, the store from before the block is back
      | false => exact hs
    · exact hs
  · rw [hrun]
    exact hP.take mode.newId isInBlock s.now taken hs

theorem runAll_keeps (hP : IsKept P) (isInBlock : Bool) (steps : List Step) {s : Scene}
    (hs : P s.office.store) : P (runAll mode isInBlock steps s).2.office.store := by
  cases steps with
  | nil => exact hs
  | cons first later => exact runAll_keeps hP isInBlock later (run_keeps hP isInBlock first hs)

end

/-- A store in order stays so whatever is done to it. -/
theorem isKept_guarded : IsKept Guarded :=
  ⟨fun h _ _ hok hs => hs.after h hok, fun hs => hs.closed⟩

/-- The scenes that a session may come through, within a block or outside.  It starts with
a store without rows that has all tables and checks references.  A block is a step like any
other; `enter` adds the scenes between its own steps. -/
inductive Visits (mode : Mode) : Bool → Scene → Prop
  | start (words : Words) (now : Instant) : Visits mode false ⟨⟨{}, words⟩, now⟩
  | step {isInBlock : Bool} {s : Scene} (h : Visits mode isInBlock s) (taken : Step) :
      Visits mode isInBlock (run mode isInBlock taken s).2
  | enter {isInBlock : Bool} {s : Scene} (h : Visits mode isInBlock s)
      (isOpen : s.office.store.isOpen = true) : Visits mode true s

theorem Visits.guarded {isInBlock : Bool} {s : Scene} (h : Visits mode isInBlock s) :
    s.office.store.Guarded := by
  induction h with
  | start words now => exact guarded_empty
  | step _ taken ih => exact run_keeps isKept_guarded _ taken ih
  | enter _ _ ih => exact ih

/-- **Integrity.**  Wherever a session stands, within blocks that may still be taken back or
after steps that failed, keys are distinct and references lead somewhere.  A team with
users and a user who authored a pull request cannot be deleted; with a pull request or
another user exactly the reviews of that pull request or user go. -/
theorem visited_stores_are_guarded {isInBlock : Bool} {s : Scene} (h : Visits mode isInBlock s) :
    let store := s.office.store
    let refusal : Fault := if store.isOpen then .brokenReference else .unavailable
    store.Consistent ∧
    (∀ u ∈ store.users, store.delete (.team u.team) = .error refusal) ∧
    (∀ p ∈ store.pulls, store.delete (.user p.author) = .error refusal) ∧
    (store.isOpen = true →
      (∀ id, store.delete (.pull id) = .ok (store.withoutPull id)) ∧
      ∀ id, (∀ p ∈ store.pulls, p.author ≠ id) →
        store.delete (.user id) = .ok (store.withoutUser id)) := by
  have hs := h.guarded
  exact ⟨hs.consistent, fun u hu => hs.delete_team hu, fun p hp => hs.delete_author hp,
    fun hopen => ⟨hs.delete_pull hopen, fun id => hs.delete_user hopen⟩⟩

/-- A block that is kept.  It holds a row that is refused, a block that is taken back, and a
pull request that is opened. -/
def aBlock : Step :=
  .block [.addTeam "t", .insertRow (.user ⟨"a", "A", "t", true⟩),
    .insertRow (.user ⟨"b", "B", "x", true⟩), .insertRow (.user ⟨"b", "B", "t", true⟩),
    .block [.addTeam "x", .deleteRow (.user "b"), .swapReviewer "p" "a" (some "b")] false,
    .operation (.createPull "p" "P" "a")] true

/-- The scene behind the block. -/
def aScene : Scene := (run ⟨false, ""⟩ false aBlock ⟨⟨{}, default⟩, .epoch⟩).2

theorem store_aScene :
    aScene.office.store =
      { teams := ["t"]
        users := [⟨"a", "A", "t", true⟩, ⟨"b", "B", "t", true⟩]
        pulls := [⟨"p", "P", "a", "OPEN", ⟨7, 0⟩, none⟩]
        reviews := [⟨"p", "b"⟩] } := by
  decide +kernel

/-- Within a second block behind the first one the author stays and the reviewer may go. -/
theorem aScene_guarded :
    Visits ⟨false, ""⟩ true aScene ∧ aScene.office.store.Consistent ∧
      aScene.office.store.delete (.team "t") = .error .brokenReference ∧
      aScene.office.store.delete (.user "a") = .error .brokenReference ∧
      aScene.office.store.delete (.user "b") = .ok
        { teams := ["t"]
          users := [⟨"a", "A", "t", true⟩]
          pulls := [⟨"p", "P", "a", "OPEN", ⟨7, 0⟩, none⟩] } := by
  have hvisits : Visits ⟨false, ""⟩ true aScene :=
    .enter (.step (.start default .epoch) aBlock) (congrArg Store.isOpen store_aScene)
  obtain ⟨hconsistent, hteam, hauthor, hopen⟩ := visited_stores_are_guarded hvisits
  rw [store_aScene] at hconsistent hteam hauthor hopen ⊢
  refine ⟨hvisits, hconsistent, ?_, ?_, ?_⟩
  · exact hteam ⟨"a", "A", "t", true⟩ (by decide)
  · exact hauthor ⟨"p", "P", "a", "OPEN", ⟨7, 0⟩, none⟩ (by decide)
  · exact (hopen rfl).2 "b" (by decide)

end Session

end ReviewDesk
