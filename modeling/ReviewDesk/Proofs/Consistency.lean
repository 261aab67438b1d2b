import Mathlib.Data.List.Nodup
import ReviewDesk.Proofs.History

/-!
# Consistent stores

In a consistent store every table has distinct keys, and what a row refers to
exists: the team of a user, the author of a pull request, both sides of a
review.  Operations put rows in one table at a time, and nothing in the effects
says that the references were checked; they hold because of what an operation
looked up before.

Users are never taken out, so their ids only ever become more (`ids_subset`
lemmas), and a reference to a user stays good.

* `Effect.consistent` — every effect keeps a store consistent;
* `consistent_after` — so does every history.
-/

namespace ReviewDesk

namespace User

theorem nodup_ids_enroll {users : List User} (u : User) (h : (users.map (·.id)).Nodup) :
    ((enroll users u).map (·.id)).Nodup := by
  rw [ids_enroll]
  by_cases hold : u.id ∈ users.map (·.id)
  · rw [if_pos hold]
    exact h
  · rw [if_neg hold, ← List.concat_eq_append]
    exact h.concat hold

theorem ids_subset_enroll (users : List User) (u : User) :
    users.map (·.id) ⊆ (enroll users u).map (·.id) := by
  rw [ids_enroll]
  by_cases hold : u.id ∈ users.map (·.id)
  · rw [if_pos hold]
    exact fun _ hid => hid
  · rw [if_neg hold]
    exact List.subset_append_left _ _

theorem nodup_ids_enrollAll {users : List User} (news : List User)
    (h : (users.map (·.id)).Nodup) : ((news.foldl enroll users).map (·.id)).Nodup := by
  induction news generalizing users with
  | nil => exact h
  | cons u others ih => exact ih (nodup_ids_enroll u h)

theorem ids_subset_enrollAll (news users : List User) :
    users.map (·.id) ⊆ (news.foldl enroll users).map (·.id) := by
  induction news generalizing users with
  | nil => exact fun _ hid => hid
  | cons u others ih => exact fun id hid => ih _ (ids_subset_enroll users u hid)

/-- A user after several upserts is one of those they were for or was there
before. -/
theorem mem_of_mem_enrollAll {news users : List User} {v : User}
    (h : v ∈ news.foldl enroll users) : v ∈ news ∨ v ∈ users := by
  induction news generalizing users with
  | nil => exact .inr h
  | cons u others ih =>
      rcases ih h with hothers | hbefore
      · exact .inl (List.mem_cons_of_mem u hothers)
      · rcases mem_of_mem_enroll hbefore with rfl | hold
        · exact .inl List.mem_cons_self
        · exact .inr hold

end User

/-- Rewriting rows so that a column stays does not change the column. -/
theorem map_map_eq_of_forall {α β : Type} {change : α → α} {column : α → β}
    (h : ∀ a, column (change a) = column a) (l : List α) :
    (l.map change).map column = l.map column := by
  rw [List.map_map]
  exact List.map_congr_left fun a _ => h a

namespace Store

variable (s : Store)

/-! ## What rewriting rows keeps -/

theorem ids_withFlag (id : UserId) (isActive : Bool) :
    (s.withFlag id isActive).users.map (·.id) = s.users.map (·.id) :=
  map_map_eq_of_forall (fun u => by by_cases h : u.id = id <;> simp [h]) _

theorem teams_withFlag (id : UserId) (isActive : Bool) :
    (s.withFlag id isActive).users.map (·.team) = s.users.map (·.team) :=
  map_map_eq_of_forall (fun u => by by_cases h : u.id = id <;> simp [h]) _

theorem ids_retire (users : Ascending UserId) :
    (s.retire users).users.map (·.id) = s.users.map (·.id) :=
  map_map_eq_of_forall (fun u => by by_cases h : u.id ∈ users <;> simp [h]) _

theorem teams_retire (users : Ascending UserId) :
    (s.retire users).users.map (·.team) = s.users.map (·.team) :=
  map_map_eq_of_forall (fun u => by by_cases h : u.id ∈ users <;> simp [h]) _

theorem ids_withMerged (id : PullId) (now : Instant) :
    (s.withMerged id now).pulls.map (·.id) = s.pulls.map (·.id) :=
  map_map_eq_of_forall (fun p => by by_cases h : p.id = id <;> simp [h, StoredPull.merge]) _

theorem authors_withMerged (id : PullId) (now : Instant) :
    (s.withMerged id now).pulls.map (·.author) = s.pulls.map (·.author) :=
  map_map_eq_of_forall (fun p => by by_cases h : p.id = id <;> simp [h, StoredPull.merge]) _

/-! ## Consistency -/

/-- Keys are distinct and references lead somewhere. -/
structure Consistent : Prop where
  teamKeys : s.teams.Nodup
  userKeys : (s.users.map (·.id)).Nodup
  pullKeys : (s.pulls.map (·.id)).Nodup
  reviewKeys : s.reviews.Nodup
  userTeams : s.users.map (·.team) ⊆ s.teams
  pullAuthors : s.pulls.map (·.author) ⊆ s.users.map (·.id)
  reviewPulls : s.reviews.map (·.pull) ⊆ s.pulls.map (·.id)
  reviewUsers : s.reviews.map (·.user) ⊆ s.users.map (·.id)

/-- A store without rows is consistent, whatever it can do. -/
theorem consistent_empty (migrated : Nat) (checksKeys isOpen : Bool) :
    Consistent { migrated, checksKeys, isOpen } := by
  constructor <;> simp

variable {s : Store}

theorem isUser_of_find? {id : UserId} {u : User} (h : s.users.find? (·.id = id) = some u) :
    u.id ∈ s.users.map (·.id) :=
  List.mem_map_of_mem (List.mem_of_find?_eq_some h)

theorem isUser_of_mem_activeIn {team : TeamName} {id : UserId} (h : id ∈ s.activeIn team) :
    id ∈ s.users.map (·.id) := by
  obtain ⟨u, hu, rfl, -⟩ := mem_activeIn.1 h
  exact List.mem_map_of_mem hu

namespace Consistent

variable (hs : s.Consistent)

include hs

/-- A reviewer is always known. -/
theorem find?_of_review {r : Review} (hr : r ∈ s.reviews) :
    ∃ u, s.users.find? (·.id = r.user) = some u ∧ u.id = r.user := by
  have hid : r.user ∈ s.users.map (·.id) := hs.reviewUsers (List.mem_map_of_mem hr)
  obtain ⟨u, hu, hsame⟩ := List.mem_map.1 hid
  have hfind : s.users.find? (·.id = u.id) = some u := find?_eq_some_of_mem hs.userKeys hu
  rw [hsame] at hfind
  exact ⟨u, hfind, hsame⟩

theorem withTeam {name : TeamName} {members : List Member} (isNew : s.isTeam name = false) :
    (s.withTeam name members).Consistent := by
  have hnew : name ∉ s.teams := by simpa [isTeam] using isNew
  have hids : s.users.map (·.id) ⊆ (s.withTeam name members).users.map (·.id) :=
    User.ids_subset_enrollAll _ _
  refine { hs with
    teamKeys := ?_
    userKeys := User.nodup_ids_enrollAll _ hs.userKeys
    userTeams := ?_
    pullAuthors := List.Subset.trans hs.pullAuthors hids
    reviewUsers := List.Subset.trans hs.reviewUsers hids }
  · rw [Store.withTeam, ← List.concat_eq_append]
    exact hs.teamKeys.concat hnew
  · intro team hteam
    obtain ⟨u, hu, rfl⟩ := List.mem_map.1 hteam
    rcases User.mem_of_mem_enrollAll hu with hlisted | hold
    · obtain ⟨m, -, rfl⟩ := List.mem_map.1 hlisted
      exact List.mem_append_right _ List.mem_cons_self
    · exact List.mem_append_left _ (hs.userTeams (List.mem_map_of_mem hold))

theorem withFlag (id : UserId) (isActive : Bool) : (s.withFlag id isActive).Consistent := by
  have hids := s.ids_withFlag id isActive
  exact { hs with
    userKeys := hids ▸ hs.userKeys
    userTeams := s.teams_withFlag id isActive ▸ hs.userTeams
    pullAuthors := hids ▸ hs.pullAuthors
    reviewUsers := hids ▸ hs.reviewUsers }

theorem withPull {p : StoredPull} {reviewers : List UserId} (isNew : s.isPull p.id = false)
    (author : p.author ∈ s.users.map (·.id)) (distinct : reviewers.Nodup)
    (known : reviewers ⊆ s.users.map (·.id))
    (fresh : ∀ user ∈ reviewers, ⟨p.id, user⟩ ∉ s.reviews) :
    (s.withPull p reviewers).Consistent := by
  have hids : (s.withPull p reviewers).pulls.map (·.id) = s.pulls.map (·.id) ++ [p.id] :=
    List.map_append
  have hnew : p.id ∉ s.pulls.map (·.id) := isPull_eq_false_iff.1 isNew
  refine { hs with
    pullKeys := ?_, reviewKeys := ?_, pullAuthors := ?_, reviewPulls := ?_, reviewUsers := ?_ }
  · rw [hids, ← List.concat_eq_append]
    exact hs.pullKeys.concat hnew
  · refine List.nodup_append.2 ⟨hs.reviewKeys, ?_, ?_⟩
    · exact List.pairwise_map.2 (distinct.imp fun hne heq => hne (Review.mk.inj heq).2)
    · intro r hr t ht heq
      obtain ⟨user, huser, rfl⟩ := List.mem_map.1 ht
      exact fresh user huser (heq ▸ hr)
  · have hauthors : (s.withPull p reviewers).pulls.map (·.author)
        = s.pulls.map (·.author) ++ [p.author] := List.map_append
    rw [hauthors]
    exact List.append_subset.2 ⟨hs.pullAuthors, List.cons_subset.2 ⟨author, List.nil_subset _⟩⟩
  · rw [hids, Store.withPull, List.map_append, List.map_map]
    refine List.append_subset.2
      ⟨List.Subset.trans hs.reviewPulls (List.subset_append_left _ _), ?_⟩
    intro id hid
    obtain ⟨user, -, rfl⟩ := List.mem_map.1 hid
    exact List.mem_append_right _ List.mem_cons_self
  · rw [Store.withPull, List.map_append, List.map_map]
    refine List.append_subset.2 ⟨hs.reviewUsers, ?_⟩
    intro id hid
    obtain ⟨user, huser, rfl⟩ := List.mem_map.1 hid
    exact known huser

theorem withMerged (id : PullId) (now : Instant) : (s.withMerged id now).Consistent := by
  have hids := s.ids_withMerged id now
  exact { hs with
    pullKeys := hids ▸ hs.pullKeys
    pullAuthors := s.authors_withMerged id now ▸ hs.pullAuthors
    reviewPulls := hids ▸ hs.reviewPulls }

theorem withSwap {id : PullId} {old new : UserId} (isPull : id ∈ s.pulls.map (·.id))
    (isUser : new ∈ s.users.map (·.id)) (fresh : ⟨id, new⟩ ∉ s.reviews) :
    (s.withSwap id old new).Consistent := by
  have hkept : s.reviews.filter (· ≠ ⟨id, old⟩) ⊆ s.reviews := List.filter_subset_self _
  refine { hs with reviewKeys := ?_, reviewPulls := ?_, reviewUsers := ?_ }
  · rw [Store.withSwap, ← List.concat_eq_append]
    exact (hs.reviewKeys.filter _).concat fun hmem => fresh (hkept hmem)
  · rw [Store.withSwap, List.map_append]
    exact List.append_subset.2
      ⟨List.Subset.trans (List.map_subset _ hkept) hs.reviewPulls, by simpa using isPull⟩
  · rw [Store.withSwap, List.map_append]
    exact List.append_subset.2
      ⟨List.Subset.trans (List.map_subset _ hkept) hs.reviewUsers, by simpa using isUser⟩

theorem retire (users : Ascending UserId) : (s.retire users).Consistent := by
  have hids := s.ids_retire users
  have hkept : (s.retire users).reviews ⊆ s.reviews := List.filter_subset_self _
  exact { hs with
    userKeys := hids ▸ hs.userKeys
    reviewKeys := hs.reviewKeys.filter _
    userTeams := s.teams_retire users ▸ hs.userTeams
    pullAuthors := hids ▸ hs.pullAuthors
    reviewPulls := List.Subset.trans (List.map_subset _ hkept) hs.reviewPulls
    reviewUsers := hids ▸ List.Subset.trans (List.map_subset _ hkept) hs.reviewUsers }

end Consistent

end Store

variable {now : Instant} {s s' : Store} {op : Operation} {a : Answer}

/-- Every effect keeps a store consistent. -/
theorem Effect.consistent (h : Effect now s op a s') (hs : s.Consistent) : s'.Consistent := by
  cases h with
  | getTeam => exact hs
  | reviewsOf => exact hs
  | stats => exact hs
  | createTeam isNew => exact hs.withTeam isNew
  | keepActive => exact hs
  | setActive => exact hs.withFlag _ _
  | createPull isNew found few distinct pool fresh shown =>
      exact hs.withPull isNew (Store.isUser_of_find? found) distinct
        (fun user huser => Store.isUser_of_mem_activeIn (pool user huser).1) fresh
  | keepMerged => exact hs
  | mergePull => exact hs.withMerged _ _
  | reassign found opened assigned known pool notAuthor fresh shown =>
      exact hs.withSwap (hs.reviewPulls (List.mem_map_of_mem assigned))
        (Store.isUser_of_mem_activeIn pool) fresh
  | deactivate => exact hs.retire _

/-- A consistent store stays consistent along every history. -/
theorem Store.consistent_after (hs : s.Consistent) (calls : List Call) :
    (s.after calls).Consistent :=
  after_induction hs Effect.consistent calls

end ReviewDesk
