import ReviewDesk.Arrange
import ReviewDesk.Keyed
import ReviewDesk.Store.Joins

/-!
# Reading the store

The questions that can be asked of a store.  Each needs certain tables, and
fails if one of them cannot be used; those that read whole pull requests also
fail on a row whose status stands for nothing.

Whatever the order in which the rows lie, lists come back in the order asked
for and sets in ascending order.

The active users of a team are found in two ways: by a query for the users of
this team, or by one for all active users, who are then put into the pools of
their teams one after the other.

* `mem_activeIn`, `mem_reviewersIn` — which rows make the two sets from which
  candidates are chosen and excluded;
* `activeMembers_eq`, `getD_activePools` — both ways of finding the active users
  of a team come to the same set;
* `mem_reviewedRows` — which pull requests are joined with reviews of a user.
-/

namespace ReviewDesk

namespace Store

/-- The ids of the active users of a team. -/
def activeIn (s : Store) (team : TeamName) : Ascending UserId :=
  .ofList ((s.users.filter fun u => u.team = team ∧ u.isActive).map (·.id))

/-- The ids of the reviewers of a pull request. -/
def reviewersIn (s : Store) (pull : PullId) : Ascending UserId :=
  .ofList ((s.reviews.filter (·.pull = pull)).map (·.user))

theorem mem_activeIn {s : Store} {team : TeamName} {id : UserId} :
    id ∈ s.activeIn team ↔ ∃ u ∈ s.users, u.id = id ∧ u.team = team ∧ u.isActive = true := by
  simp only [activeIn, Ascending.mem_ofList, List.mem_map, List.mem_filter, decide_eq_true_eq]
  constructor
  · rintro ⟨u, ⟨hu, hteam, hactive⟩, rfl⟩
    exact ⟨u, hu, rfl, hteam, hactive⟩
  · rintro ⟨u, hu, rfl, hteam, hactive⟩
    exact ⟨u, ⟨hu, hteam, hactive⟩, rfl⟩

theorem mem_reviewersIn {s : Store} {pull : PullId} {user : UserId} :
    user ∈ s.reviewersIn pull ↔ ⟨pull, user⟩ ∈ s.reviews := by
  simp only [reviewersIn, Ascending.mem_ofList, List.mem_map, List.mem_filter, decide_eq_true_eq]
  constructor
  · rintro ⟨r, ⟨hr, rfl⟩, rfl⟩
    exact hr
  · intro h
    exact ⟨_, ⟨h, rfl⟩, rfl⟩

/-- An answer that needs a table. -/
def reading {α : Type} (s : Store) (t : Table) (answer : Except Fault α) : Except Fault α :=
  if s.has t then answer else .error .unavailable

/-- The pull requests that rows stand for; all of them have to be readable. -/
def readPulls : List StoredPull → Except Fault (List Pull)
  | [] => .ok []
  | p :: rest =>
    match p.read? with
    | none => .error .unreadable
    | some pull => do return pull :: (← readPulls rest)

/-- Whether a team exists. -/
def hasTeam (s : Store) (name : TeamName) : Except Fault Bool :=
  s.reading .teams (.ok (s.isTeam name))

/-- The user with an id. -/
def findUser (s : Store) (id : UserId) : Except Fault (Option User) :=
  s.reading .users (.ok (s.users.find? (·.id = id)))

/-- The users of a team, by id. -/
def usersOf (s : Store) (team : TeamName) : Except Fault (List User) :=
  s.reading .users (.ok (arrange (·.id < ·.id) (s.users.filter (·.team = team))))

/-- The rows of the active users of a team, by id. -/
def activeRows (s : Store) (team : TeamName) : List User :=
  arrange (·.id < ·.id) (s.users.filter fun u => u.team = team ∧ u.isActive)

theorem mem_activeRows {s : Store} {team : TeamName} {u : User} :
    u ∈ s.activeRows team ↔ u ∈ s.users ∧ u.team = team ∧ u.isActive = true := by
  rw [activeRows, (arrange_perm _ _).mem_iff, List.mem_filter, decide_eq_true_eq]

/-- The active users of a team. -/
def activeUsersOf (s : Store) (team : TeamName) : Except Fault (List User) :=
  s.reading .users (.ok (s.activeRows team))

/-- The ids of the active users of a team. -/
def activeMembers (s : Store) (team : TeamName) : Except Fault (Ascending UserId) := do
  let users ← s.activeUsersOf team
  return .ofList (users.map (·.id))

theorem ofList_activeRows (s : Store) (team : TeamName) :
    .ofList ((s.activeRows team).map (·.id)) = s.activeIn team := by
  refine Ascending.ext fun id => ?_
  rw [activeIn, Ascending.mem_ofList, Ascending.mem_ofList]
  exact ((arrange_perm _ _).map User.id).mem_iff

theorem activeRows_eq_nil_iff {s : Store} {team : TeamName} :
    s.activeRows team = [] ↔ s.activeIn team = ∅ := by
  constructor
  · intro h
    rw [← ofList_activeRows, h]
    rfl
  · intro h
    refine List.eq_nil_iff_forall_not_mem.2 fun u hu => ?_
    obtain ⟨hmem, hteam, hactive⟩ := mem_activeRows.1 hu
    have hid : u.id ∈ s.activeIn team := mem_activeIn.2 ⟨u, hmem, rfl, hteam, hactive⟩
    exact Ascending.not_mem_empty (h ▸ hid)

theorem activeMembers_eq (s : Store) (team : TeamName) :
    s.activeMembers team = s.reading .users (.ok (s.activeIn team)) := by
  rw [activeMembers, activeUsersOf, reading, reading, ← ofList_activeRows]
  split <;> rfl

/-- Users put into the pools of their teams, one after the other. -/
def poolsOf (users : List User) : Keyed TeamName (Ascending UserId) :=
  users.foldl (fun pools u => pools.upsert u.team ∅ (·.insert u.id)) ∅

/-- The pools of all active users. -/
def activePools (s : Store) : Keyed TeamName (Ascending UserId) :=
  poolsOf (s.users.filter (·.isActive))

/-- The active users of every team that has some. -/
def pools (s : Store) : Except Fault (Keyed TeamName (Ascending UserId)) :=
  s.reading .users (.ok s.activePools)

/-- Every user put in is found in the pool of the own team, beside those who were there. -/
theorem mem_getD_foldl_upsert {users : List User} {pools : Keyed TeamName (Ascending UserId)}
    {team : TeamName} {id : UserId} :
    id ∈ (users.foldl (fun pools u => pools.upsert u.team ∅ (·.insert u.id)) pools).getD team ∅ ↔
      id ∈ pools.getD team ∅ ∨ ∃ u ∈ users, u.id = id ∧ u.team = team := by
  induction users generalizing pools with
  | nil => simp
  | cons u rest ih =>
    have hput : id ∈ (pools.upsert u.team ∅ (·.insert u.id)).getD team ∅ ↔
        (u.id = id ∧ u.team = team) ∨ id ∈ pools.getD team ∅ := by
      rw [Keyed.getD, Keyed.get?_upsert]
      split
      · rename_i hteam
        subst hteam
        simp [eq_comm]
      · rename_i hteam
        simp [hteam, Keyed.getD]
    rw [List.foldl_cons, ih, hput, or_comm (a := u.id = id ∧ u.team = team), or_assoc]
    simp only [List.mem_cons, exists_eq_or_imp]

/-- There is a pool for every team that has an active user. -/
theorem mem_keys_activePools {s : Store} {team : TeamName} :
    team ∈ s.activePools.keys ↔ ∃ u ∈ s.users, u.team = team ∧ u.isActive = true := by
  have hkeys : ∀ (users : List User) (pools : Keyed TeamName (Ascending UserId)),
      team ∈ (users.foldl (fun pools u => pools.upsert u.team ∅ (·.insert u.id)) pools).keys ↔
        team ∈ pools.keys ∨ ∃ u ∈ users, u.team = team := by
    intro users
    induction users with
    | nil => simp
    | cons u rest ih =>
      intro pools
      rw [List.foldl_cons, ih, Keyed.mem_keys_upsert, or_comm (a := team = u.team), or_assoc,
        eq_comm (a := team)]
      simp only [List.mem_cons, exists_eq_or_imp]
  rw [activePools, poolsOf, hkeys, Keyed.keys_empty]
  simp only [Ascending.not_mem_empty, false_or, List.mem_filter]
  constructor
  · rintro ⟨u, ⟨hu, hactive⟩, hteam⟩
    exact ⟨u, hu, hteam, hactive⟩
  · rintro ⟨u, hu, hteam, hactive⟩
    exact ⟨u, ⟨hu, hactive⟩, hteam⟩

/-- The pool of a team, nobody if it is missing, holds the active users of the team. -/
theorem getD_activePools (s : Store) (team : TeamName) :
    s.activePools.getD team ∅ = s.activeIn team := by
  refine Ascending.ext fun id => ?_
  rw [activePools, poolsOf, mem_getD_foldl_upsert, mem_activeIn]
  simp only [Keyed.getD_empty, Ascending.not_mem_empty, false_or, List.mem_filter]
  constructor
  · rintro ⟨u, ⟨hu, hactive⟩, hid, hteam⟩
    exact ⟨u, hu, hid, hteam, hactive⟩
  · rintro ⟨u, hu, hid, hteam, hactive⟩
    exact ⟨u, ⟨hu, hactive⟩, hid, hteam⟩

/-- The pull request with an id. -/
def findPull (s : Store) (id : PullId) : Except Fault (Option Pull) :=
  s.reading .pulls <|
    match s.pulls.find? (·.id = id) with
    | none => .ok none
    | some p =>
      match p.read? with
      | none => .error .unreadable
      | some pull => .ok (some pull)

/-- The reviewers of a pull request. -/
def reviewersOf (s : Store) (pull : PullId) : Except Fault (Ascending UserId) :=
  s.reading .reviews (.ok (s.reviewersIn pull))

/-- Whether a pull request is listed before another: the newer one first, and
of two equally old ones the one with the smaller id. -/
def isListedBefore (p q : StoredPull) : Bool :=
  q.createdAt.storedLt p.createdAt ∨ p.createdAt = q.createdAt ∧ p.id < q.id

/-- The pull requests joined with their reviews by a user, one row for each of
these reviews. -/
def reviewedRows (s : Store) (user : UserId) : List StoredPull :=
  ((innerJoin s.pulls s.reviews fun p r => r.pull = p.id).filter (·.2.user = user)).map (·.1)

theorem mem_reviewedRows {s : Store} {user : UserId} {p : StoredPull} :
    p ∈ s.reviewedRows user ↔ p ∈ s.pulls ∧ ⟨p.id, user⟩ ∈ s.reviews := by
  simp only [reviewedRows, List.mem_map, List.mem_filter, Prod.exists, mem_innerJoin,
    decide_eq_true_eq]
  constructor
  · rintro ⟨_, r, ⟨⟨hp, hr, hpull⟩, huser⟩, rfl⟩
    cases r
    exact ⟨hp, hpull ▸ huser ▸ hr⟩
  · rintro ⟨hp, hr⟩
    exact ⟨p, _, ⟨⟨hp, hr, rfl⟩, rfl⟩, rfl⟩

/-- The pull requests that a user reviews, newest first. -/
def reviewedBy (s : Store) (user : UserId) : Except Fault (List Pull) :=
  s.reading .pulls <| s.reading .reviews <|
    readPulls (arrange isListedBefore (s.reviewedRows user))

end Store

end ReviewDesk
