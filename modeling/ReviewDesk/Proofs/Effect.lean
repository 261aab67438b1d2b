import ReviewDesk.Operation
import ReviewDesk.Proofs.TeamDeactivation

/-!
# What an operation does to the store

An operation that answers changes the rows in one of a few ways.  This file
lists them once, each with everything the operation has checked by then, and
shows that no operation does anything else.  What holds along a run is then
proved by going through the list, and no proof opens an operation again.

* `effect_of_ok` — an operation that answers has one of the listed effects.
-/

namespace ReviewDesk

/-- The row of a pull request that is merged now. -/
def StoredPull.merge (p : StoredPull) (now : Instant) : StoredPull :=
  { p with status := Status.merged.text, mergedAt := some now }

namespace Store

/-- The store shows this pull request under an id: it is the first with this id,
with all its reviewers, and both can be read. -/
structure Shows (s : Store) (id : PullId) (r : PullRequest) : Prop where
  hasPulls : s.has .pulls = true
  hasReviews : s.has .reviews = true
  found : s.pulls.find? (·.id = id) = some r.pull.stored
  reviewers : r.reviewers = s.reviewersIn id

theorem Shows.id_eq {s : Store} {id : PullId} {r : PullRequest} (h : s.Shows id r) :
    r.pull.id = id :=
  (mem_of_find?_key h.found).2

/-- The store with a new team and its members. -/
def withTeam (s : Store) (name : TeamName) (members : List Member) : Store :=
  { s with
    teams := s.teams ++ [name]
    users := (members.map fun m => m.user name).foldl User.enroll s.users }

/-- The store with a new pull request and its reviewers. -/
def withPull (s : Store) (p : StoredPull) (reviewers : List UserId) : Store :=
  { s with
    pulls := s.pulls ++ [p]
    reviews := s.reviews ++ reviewers.map fun user => ⟨p.id, user⟩ }

/-- The store with a user's flag set. -/
def withFlag (s : Store) (id : UserId) (isActive : Bool) : Store :=
  { s with users := s.users.map fun u => if u.id = id then { u with isActive } else u }

/-- The store with a pull request merged. -/
def withMerged (s : Store) (id : PullId) (now : Instant) : Store :=
  { s with pulls := s.pulls.map fun p => if p.id = id then p.merge now else p }

/-- The store with one reviewer in another's place. -/
def withSwap (s : Store) (id : PullId) (old new : UserId) : Store :=
  { s with reviews := s.reviews.filter (· ≠ ⟨id, old⟩) ++ [⟨id, new⟩] }

end Store

/-- How an operation that answers at a given time changes a store. -/
inductive Effect (now : Instant) (s : Store) : Operation → Answer → Store → Prop
  | getTeam {name : TeamName} {t : Team} : Effect now s (.getTeam name) (.team t) s
  | reviewsOf {user : UserId} {l : List Pull} : Effect now s (.reviewsOf user) (.reviews l) s
  | stats {n : Stats} : Effect now s .stats (.stats n) s
  | createTeam {name : TeamName} {members : List Member} {t : Team}
      (isNew : s.isTeam name = false) :
      Effect now s (.createTeam name members) (.team t) (s.withTeam name members)
  /-- The flag was set before. -/
  | keepActive {id : UserId} {u : User} (found : s.users.find? (·.id = id) = some u) :
      Effect now s (.setActive id u.isActive) (.user u) s
  | setActive {id : UserId} {isActive : Bool} {u : User}
      (found : s.users.find? (·.id = id) = some u) :
      Effect now s (.setActive id isActive) (.user { u with isActive }) (s.withFlag id isActive)
  | createPull {id : PullId} {name : String} {author : User} {reviewers : List UserId}
      {r : PullRequest} (isNew : s.isPull id = false)
      (found : s.users.find? (·.id = author.id) = some author)
      (few : reviewers.length ≤ maxReviewers) (distinct : reviewers.Nodup)
      (pool : ∀ user ∈ reviewers, user ∈ s.activeIn author.team ∧ user ≠ author.id)
      (fresh : ∀ user ∈ reviewers, ⟨id, user⟩ ∉ s.reviews)
      (shown : (s.withPull (Pull.mk id name author.id .opened now none).stored reviewers).Shows
        id r) :
      Effect now s (.createPull id name author.id) (.pull r)
        (s.withPull (Pull.mk id name author.id .opened now none).stored reviewers)
  /-- The pull request was merged before. -/
  | keepMerged {id : PullId} {r : PullRequest} (shown : s.Shows id r)
      (merged : r.pull.status = .merged) : Effect now s (.mergePull id) (.pull r) s
  | mergePull {id : PullId} {p : Pull} {r : PullRequest}
      (found : s.pulls.find? (·.id = id) = some p.stored) (opened : p.status = .opened)
      (shown : (s.withMerged id now).Shows id r) :
      Effect now s (.mergePull id) (.pull r) (s.withMerged id now)
  | reassign {id : PullId} {old : User} {new : UserId} {p : Pull} {r : PullRequest}
      (found : s.pulls.find? (·.id = id) = some p.stored) (opened : p.status = .opened)
      (assigned : ⟨id, old.id⟩ ∈ s.reviews)
      (known : s.users.find? (·.id = old.id) = some old)
      (pool : new ∈ s.activeIn old.team) (notAuthor : new ≠ p.author)
      (fresh : ⟨id, new⟩ ∉ s.reviews) (shown : (s.withSwap id old.id new).Shows id r) :
      Effect now s (.reassign id old.id) (.reassigned ⟨r, new⟩) (s.withSwap id old.id new)
  | deactivate {team : TeamName} {d : Deactivation} (isTeam : s.isTeam team = true)
      (drops : d.DropsSlotsOf s team) :
      Effect now s (.deactivate team) (.deactivation d) (s.retire d.deactivated)

namespace Desk

variable {o o' : Office}

/-! ## Teams and users -/

theorem getTeam_eq_ok {name : TeamName} {t : Team} (h : getTeam name o = .ok t o') : o' = o := by
  simp only [getTeam, loadTeam, ask_bind_eq_ok, ite_eq_ok, throw_bind_eq_ok, pure_eq_ok,
    and_false, or_false] at h
  obtain ⟨_, -, -, _, -, -, rfl⟩ := h
  rfl

theorem forM_upsertUser {name : TeamName} {members : List Member}
    (h : (members.forM fun m => change (·.upsertUser (m.user name))) o = .ok () o') :
    o' = { o with store := { o.store with
      users := (members.map fun m => m.user name).foldl User.enroll o.store.users } } := by
  induction members generalizing o with
  | nil =>
      obtain ⟨-, rfl⟩ := pure_eq_ok.1 h
      rfl
  | cons m others ih =>
      obtain ⟨s, hs, hothers⟩ := changeUnless_bind_eq_ok.1 h
      rw [ih hothers, ← Store.upsertUser_eq_ok hs]
      rfl

theorem createTeam_eq_ok {name : TeamName} {members : List Member} {t : Team}
    (h : createTeam name members o = .ok t o') :
    o.store.isTeam name = false ∧ o'.store = o.store.withTeam name members := by
  simp only [createTeam, fillTeam, addTeam, loadTeam, transaction_eq_ok] at h
  obtain ⟨_, o₁, hnew, h⟩ := bind_eq_ok.1 h.2
  simp only [requireNewTeam, ask_bind_eq_ok, ite_eq_ok, throw_eq_ok, pure_eq_ok, and_false,
    false_or, true_and] at hnew
  obtain ⟨_, -, -, rfl⟩ := hnew
  obtain ⟨s, hs, h⟩ := changeUnless_bind_eq_ok.1 h
  obtain ⟨-, hfree, rfl⟩ := Store.insert_team_eq_ok.1 hs
  obtain ⟨_, o₂, hmembers, h⟩ := bind_eq_ok.1 h
  obtain rfl := forM_upsertUser hmembers
  simp only [ask_bind_eq_ok, pure_eq_ok] at h
  obtain ⟨_, -, -, rfl⟩ := h
  exact ⟨hfree, rfl⟩

theorem setActive_eq_ok {id : UserId} {isActive : Bool} {u : User}
    (h : setActive id isActive o = .ok u o') :
    ∃ v, o.store.users.find? (·.id = id) = some v ∧ u = { v with isActive } ∧
      (v.isActive = isActive ∧ o'.store = o.store ∨ o'.store = o.store.withFlag id isActive) := by
  simp only [setActive, ask_bind_eq_ok, orFail_bind_eq_ok, ite_eq_ok, change,
    changeUnless_bind_eq_ok, pure_eq_ok] at h
  obtain ⟨_, hfind, v, rfl, h⟩ := h
  obtain ⟨-, hfound⟩ := Store.findUser_eq_some_iff.1 hfind
  refine ⟨v, hfound, ?_⟩
  rcases h with ⟨-, s, hs, rfl, rfl⟩ | ⟨hsame, rfl, rfl⟩
  · obtain ⟨-, rfl⟩ := Store.updating_eq_ok.1 hs
    refine ⟨rfl, .inr ?_⟩
    simp [Store.withFlag]
  · exact ⟨rfl, .inl ⟨by simpa using hsame, rfl⟩⟩

/-! ## Pull requests -/

/-- A pull request is loaded as the store shows it. -/
theorem loadPull_eq_some_iff {id : PullId} {r : PullRequest} :
    loadPull id o = .ok (some r) o' ↔ o = o' ∧ o.store.Shows id r := by
  unfold loadPull
  rw [ask_bind_eq_ok]
  constructor
  · intro h
    obtain ⟨found, hfind, h⟩ := h
    cases found with
    | none => simp [pure_eq_ok] at h
    | some p =>
        simp only [ask_bind_eq_ok, pure_eq_ok, Option.some.injEq] at h
        obtain ⟨reviewers, hreviewers, rfl, rfl⟩ := h
        obtain ⟨hpulls, hfound⟩ := Store.findPull_eq_some_iff.1 hfind
        obtain ⟨hreviews, hset⟩ := Store.reading_eq_ok.1 hreviewers
        exact ⟨rfl, hpulls, hreviews, hfound, (Except.ok.inj hset).symm⟩
  · intro h
    obtain ⟨rfl, h⟩ := h
    refine ⟨some r.pull, Store.findPull_eq_some_iff.2 ⟨h.hasPulls, h.found⟩, ?_⟩
    refine ask_bind_eq_ok.2 ⟨_, Store.reading_eq_ok.2 ⟨h.hasReviews, rfl⟩, ?_⟩
    rw [← h.reviewers]
    rfl

theorem orFail_loadPull_eq_ok {id : PullId} {f : Failure} {r : PullRequest} :
    (loadPull id >>= orFail f) o = .ok r o' ↔ o = o' ∧ o.store.Shows id r := by
  constructor
  · intro h
    obtain ⟨found, o₁, hload, h⟩ := bind_eq_ok.1 h
    obtain ⟨rfl, rfl⟩ := orFail_eq_ok.1 h
    exact loadPull_eq_some_iff.1 hload
  · intro h
    exact bind_eq_ok.2 ⟨some r, o', loadPull_eq_some_iff.2 h, orFail_eq_ok.2 ⟨rfl, rfl⟩⟩

theorem addReviewers_eq_ok {id : PullId} {reviewers : List UserId}
    (h : addReviewers id reviewers o = .ok () o') :
    reviewers.Nodup ∧ (∀ user ∈ reviewers, ⟨id, user⟩ ∉ o.store.reviews) ∧
      o' = { o with store := { o.store with
        reviews := o.store.reviews ++ reviewers.map fun user => ⟨id, user⟩ } } := by
  unfold addReviewers at h
  rcases ite_eq_ok.1 h with ⟨hempty, h⟩ | ⟨-, h⟩
  · obtain rfl : reviewers = [] := List.isEmpty_iff.1 hempty
    obtain ⟨-, rfl⟩ := pure_eq_ok.1 h
    simp
  · obtain ⟨s, hs, rfl⟩ := changeUnless_eq_ok.1 h
    obtain ⟨hdistinct, hfresh, rfl⟩ := Store.insertAll_reviews hs
    exact ⟨hdistinct, hfresh, rfl⟩

theorem swapReviewer_eq_ok {id : PullId} {old new : UserId}
    (h : swapReviewer id old (some new) o = .ok () o') :
    o' = { o with store := o.store.withSwap id old new } := by
  obtain ⟨s, hs, h⟩ := changeUnless_bind_eq_ok.1 h
  obtain ⟨-, rfl⟩ := Store.delete_review_eq_ok.1 hs
  obtain ⟨t, ht, rfl⟩ := changeUnless_eq_ok.1 h
  obtain ⟨-, -, -, rfl⟩ := Store.insert_review_eq_ok.1 ht
  rfl

theorem createPull_eq_ok {now : Instant} {id : PullId} {name : String} {author : UserId}
    {r : PullRequest} (h : createPull now id name author o = .ok r o') :
    ∃ u reviewers, o.store.isPull id = false ∧
      o.store.users.find? (·.id = author) = some u ∧ u.id = author ∧
      reviewers.length ≤ maxReviewers ∧ reviewers.Nodup ∧
      (∀ user ∈ reviewers, user ∈ o.store.activeIn u.team ∧ user ≠ author) ∧
      (∀ user ∈ reviewers, ⟨id, user⟩ ∉ o.store.reviews) ∧
      o'.store = o.store.withPull (Pull.mk id name author .opened now none).stored reviewers ∧
      o'.store.Shows id r := by
  simp only [createPull, openPull, addPull, transaction_eq_ok] at h
  obtain ⟨_, o₁, hnew, h⟩ := bind_eq_ok.1 h.2
  simp only [requireNewPull, ask_bind_eq_ok, ite_eq_ok, throw_eq_ok, pure_eq_ok, and_false,
    false_or, true_and] at hnew
  obtain ⟨_, -, -, rfl⟩ := hnew
  simp only [ask_bind_eq_ok, orFail_bind_eq_ok, draw_bind_eq_ok, changeUnless_bind_eq_ok] at h
  obtain ⟨_, hfind, u, rfl, pool, hpool, s, hinsert, h⟩ := h
  obtain ⟨-, hfound⟩ := Store.findUser_eq_some_iff.1 hfind
  obtain ⟨-, rfl⟩ := Store.activeMembers_eq_ok.1 hpool
  obtain ⟨-, rfl⟩ := mem_of_find?_key hfound
  obtain ⟨-, hfree, -, rfl⟩ := Store.insert_pull_eq_ok.1 hinsert
  obtain ⟨_, o₂, hadd, h⟩ := bind_eq_ok.1 h
  obtain ⟨hdistinct, hfresh, rfl⟩ := addReviewers_eq_ok hadd
  obtain ⟨rfl, hshown⟩ := orFail_loadPull_eq_ok.1 h
  refine ⟨u, _, hfree, hfound, rfl, Words.length_pick_le, hdistinct, ?_, hfresh, rfl, hshown⟩
  intro user huser
  obtain ⟨hpool, hnot⟩ := Words.mem_of_mem_pick huser
  refine ⟨hpool, fun heq => hnot ?_⟩
  rw [heq, Ascending.mem_ofList]
  exact List.mem_singleton.2 rfl

theorem mergePull_eq_ok {now : Instant} {id : PullId} {r : PullRequest}
    (h : mergePull now id o = .ok r o') :
    ∃ p : Pull, o.store.pulls.find? (·.id = id) = some p.stored ∧ o'.store.Shows id r ∧
      (p.status = .opened ∧ o'.store = o.store.withMerged id now ∨
        r.pull.status = .merged ∧ o'.store = o.store) := by
  simp only [mergePull, transaction_eq_ok, ask_bind_eq_ok, orFail_bind_eq_ok, ite_eq_ok, change,
    changeUnless_bind_eq_ok] at h
  obtain ⟨-, _, hfind, p, rfl, h⟩ := h
  obtain ⟨-, hfound⟩ := Store.findPull_eq_some_iff.1 hfind
  refine ⟨p, hfound, ?_⟩
  rcases h with ⟨hopened, s, hs, h⟩ | ⟨hnot, h⟩
  · obtain ⟨-, rfl⟩ := Store.updating_eq_ok.1 hs
    obtain ⟨rfl, hshown⟩ := orFail_loadPull_eq_ok.1 h
    exact ⟨hshown, .inl ⟨hopened, rfl⟩⟩
  · obtain ⟨rfl, hshown⟩ := orFail_loadPull_eq_ok.1 h
    obtain rfl : r.pull = p :=
      Pull.stored_injective (Option.some.inj (hshown.found.symm.trans hfound))
    have hmerged : r.pull.status = .merged := by
      cases hp : r.pull.status with
      | opened => exact absurd hp hnot
      | merged => rfl
    exact ⟨hshown, .inr ⟨hmerged, rfl⟩⟩

theorem reassign_eq_ok {id : PullId} {old : UserId} {a : Reassigned}
    (h : reassign id old o = .ok a o') :
    ∃ (p : Pull) (u : User), o.store.pulls.find? (·.id = id) = some p.stored ∧
      p.status = .opened ∧ ⟨id, old⟩ ∈ o.store.reviews ∧
      o.store.users.find? (·.id = old) = some u ∧ u.id = old ∧
      a.replacedBy ∈ o.store.activeIn u.team ∧ a.replacedBy ≠ p.author ∧
      ⟨id, a.replacedBy⟩ ∉ o.store.reviews ∧
      o'.store = o.store.withSwap id old a.replacedBy ∧ o'.store.Shows id a.request := by
  simp only [reassign, transaction_eq_ok, ask_bind_eq_ok, orFail_bind_eq_ok, ite_eq_ok,
    throw_bind_eq_ok, draw_bind_eq_ok, and_false, false_or, Decidable.not_not] at h
  obtain ⟨-, _, hfind, p, rfl, hnot, reviewers, hreviewers, hassigned, h⟩ := h
  obtain ⟨_, hfindUser, u, rfl, pool, hpool, new, hnew, h⟩ := h
  obtain ⟨-, hfound⟩ := Store.findPull_eq_some_iff.1 hfind
  obtain ⟨-, hset⟩ := Store.reading_eq_ok.1 hreviewers
  obtain rfl : o.store.reviewersIn id = reviewers := Except.ok.inj hset
  obtain ⟨-, hknown⟩ := Store.findUser_eq_some_iff.1 hfindUser
  obtain ⟨-, rfl⟩ := Store.activeMembers_eq_ok.1 hpool
  obtain ⟨hactive, hallowed⟩ := Words.mem_of_pickOne hnew
  obtain ⟨_, o₁, hswap, h⟩ := bind_eq_ok.1 h
  obtain rfl := swapReviewer_eq_ok hswap
  have hopened : p.status = .opened := by
    cases hp : p.status with
    | opened => rfl
    | merged => exact absurd hp hnot
  obtain ⟨_, o₂, hload, h⟩ := bind_eq_ok.1 h
  simp only [orFail_bind_eq_ok, pure_eq_ok] at h
  obtain ⟨request, rfl, rfl, rfl⟩ := h
  obtain ⟨rfl, hshown⟩ := loadPull_eq_some_iff.1 hload
  rw [Ascending.mem_insert, not_or] at hallowed
  exact ⟨p, u, hfound, hopened, Store.mem_reviewersIn.1 hassigned, hknown,
    (mem_of_find?_key hknown).2, hactive, hallowed.1,
    fun hmem => hallowed.2 (Store.mem_reviewersIn.2 hmem), rfl, hshown⟩

/-! ## All operations -/

end Desk

open Desk in
/-- **Nothing else happens.**  An operation that answers has one of the listed
effects. -/
theorem Operation.effect_of_ok {op : Operation} {now : Instant} {o o' : Office} {a : Answer}
    (h : op.run now o = .ok a o') : Effect now o.store op a o'.store := by
  cases op with
  | getTeam name =>
      obtain ⟨t, ht, rfl⟩ := map_eq_ok.1 h
      rw [getTeam_eq_ok ht]
      exact .getTeam
  | reviewsOf user =>
      obtain ⟨l, hl, rfl⟩ := map_eq_ok.1 h
      obtain ⟨-, rfl⟩ := ask_eq_ok.1 hl
      exact .reviewsOf
  | stats =>
      obtain ⟨n, hn, rfl⟩ := map_eq_ok.1 h
      obtain ⟨-, rfl⟩ := ask_eq_ok.1 hn
      exact .stats
  | createTeam name members =>
      obtain ⟨t, ht, rfl⟩ := map_eq_ok.1 h
      obtain ⟨hnew, hstore⟩ := createTeam_eq_ok ht
      rw [hstore]
      exact .createTeam hnew
  | setActive id isActive =>
      obtain ⟨u, hu, rfl⟩ := map_eq_ok.1 h
      obtain ⟨v, hfound, rfl, ⟨rfl, hstore⟩ | hstore⟩ := setActive_eq_ok hu
      · rw [hstore]
        exact .keepActive hfound
      · rw [hstore]
        exact .setActive hfound
  | createPull id name author =>
      obtain ⟨r, hr, rfl⟩ := map_eq_ok.1 h
      obtain ⟨u, reviewers, hnew, hfound, rfl, hfew, hdistinct, hpool, hfresh, hstore, hshown⟩ :=
        createPull_eq_ok hr
      rw [hstore] at hshown ⊢
      exact .createPull hnew hfound hfew hdistinct hpool hfresh hshown
  | mergePull id =>
      obtain ⟨r, hr, rfl⟩ := map_eq_ok.1 h
      obtain ⟨p, hfound, hshown, ⟨hopened, hstore⟩ | ⟨hmerged, hstore⟩⟩ := mergePull_eq_ok hr
      · rw [hstore] at hshown ⊢
        exact .mergePull hfound hopened hshown
      · rw [hstore] at hshown ⊢
        exact .keepMerged hshown hmerged
  | reassign id old =>
      obtain ⟨⟨r, new⟩, hr, rfl⟩ := map_eq_ok.1 h
      obtain ⟨p, u, hfound, hopened, hassigned, hknown, rfl, hpool, hauthor, hfresh, hstore,
        hshown⟩ := reassign_eq_ok hr
      rw [hstore] at hshown ⊢
      exact .reassign hfound hopened hassigned hknown hpool hauthor hfresh hshown
  | deactivate team =>
      obtain ⟨d, hd, rfl⟩ := map_eq_ok.1 h
      obtain ⟨hteam, hdrops, hoffice⟩ := deactivateHere_eq_ok (transaction_eq_ok.1 hd).2
      rw [hoffice]
      exact .deactivate hteam hdrops

end ReviewDesk
