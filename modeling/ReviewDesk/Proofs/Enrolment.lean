import ReviewDesk.Proofs.Listings
import ReviewDesk.Proofs.Outcomes

/-!
# Who belongs to a new team

A team is made by going through a list of members from its first entry to its last.  Each
entry puts a user in, or overwrites the user who has this id, in whatever team that was.  So a
later entry for the same user takes the place of an earlier one, and of the users before
nobody is touched who is not listed.

All this is one fact about searching users by id: the last entry for the id is found, and if
there is none, the user from before.  As ids are distinct, the search tells which users there
are.  That nobody but the listed ones is in the new team is another matter.  A user from
before could only be there if the team had a user before it existed, and references do not
allow this.

* `find?_enroll`, `find?_enrollAll` — searching after one upsert, and after many;
* `team_of_new`, `team_of_other` — the members of the new team and of all others;
* `made_of_listed` — what making a team comes to.
-/

namespace ReviewDesk

/-- The last entry of a list of members for a user. -/
def Member.last? (members : List Member) (user : UserId) : Option Member :=
  members.reverse.find? (·.userId = user)

namespace Member

variable {members : List Member} {user : UserId}

theorem last?_isSome : (last? members user).isSome = true ↔ user ∈ members.map (·.userId) := by
  simp [last?]

theorem exists_last? (h : user ∈ members.map (·.userId)) :
    ∃ m, last? members user = some m ∧ m.userId = user := by
  obtain ⟨m, hm⟩ := Option.isSome_iff_exists.1 (last?_isSome.2 h)
  exact ⟨m, hm, (mem_of_find?_key hm).2⟩

theorem last?_eq_none (h : user ∉ members.map (·.userId)) : last? members user = none := by
  rw [← Option.not_isSome_iff_eq_none, last?_isSome]
  exact h

/-- The last entry becomes the last user row. -/
theorem find?_user (members : List Member) (name : TeamName) (user : UserId) :
    (members.map fun m => m.user name).reverse.find? (·.id = user) =
      (last? members user).map fun m => m.user name := by
  rw [last?, ← List.map_reverse, List.find?_map]
  rfl

end Member

/-! ## Upserts -/

namespace User

/-- After an upsert a search finds the user it was for, or whoever it found before. -/
theorem find?_enroll (users : List User) (u : User) (id : UserId) :
    (enroll users u).find? (·.id = id) =
      if u.id = id then some u else users.find? (·.id = id) := by
  by_cases hold : users.any (·.id = u.id) = true
  · -- whoever is overwritten keeps the id, so the search goes the same way
    have hsame : (fun v : User => decide (v.id = id)) ∘ (fun v => if v.id = u.id then u else v) =
        fun v => decide (v.id = id) := by
      funext v
      by_cases hv : v.id = u.id <;> simp [hv]
    rw [enroll, if_pos hold, List.find?_map, hsame]
    cases hfound : users.find? (·.id = id) with
    | none =>
        have hne : u.id ≠ id := by
          intro hid
          subst hid
          obtain ⟨v, hv, hid⟩ := List.any_eq_true.1 hold
          exact List.find?_eq_none.1 hfound v hv hid
        simp [hne]
    | some v =>
        obtain rfl : v.id = id := (mem_of_find?_key hfound).2
        by_cases hid : u.id = v.id
        · simp [hid]
        · simp [hid, Ne.symm hid]
  · have hnone : users.find? (·.id = u.id) = none := by simpa using hold
    rw [enroll, if_neg hold, List.find?_append, List.find?_singleton]
    by_cases hid : u.id = id
    · rw [← hid, hnone]
      simp
    · simp [hid]

/-- After many upserts a search finds the last user for the id, or whoever it found before. -/
theorem find?_enrollAll (news users : List User) (id : UserId) :
    (news.foldl enroll users).find? (·.id = id) =
      (news.reverse.find? (·.id = id)).or (users.find? (·.id = id)) := by
  induction news generalizing users with
  | nil => rfl
  | cons u others ih =>
      have hsplit : (u :: others).reverse.find? (·.id = id) =
          (others.reverse.find? (·.id = id)).or (if u.id = id then some u else none) := by
        rw [List.reverse_cons, List.find?_append, List.find?_singleton]
        simp
      rw [List.foldl_cons, ih, find?_enroll, hsplit, Option.or_assoc]
      by_cases hid : u.id = id <;> simp [hid]

end User

/-! ## The new team and the others -/

namespace Store

variable {s : Store} {name : TeamName} {members : List Member}

theorem find?_withTeam (user : UserId) :
    (s.withTeam name members).users.find? (·.id = user) =
      ((Member.last? members user).map fun m => m.user name).or
        (s.users.find? (·.id = user)) := by
  rw [withTeam, User.find?_enrollAll, Member.find?_user]

variable (hids : (s.users.map (·.id)).Nodup)

include hids

theorem nodup_ids_withTeam : ((s.withTeam name members).users.map (·.id)).Nodup :=
  User.nodup_ids_enrollAll _ hids

/-- Whoever is listed has the one row that the last entry gives. -/
theorem mem_withTeam_of_listed {m : Member} (hlast : Member.last? members m.userId = some m)
    {u : User} : u ∈ (s.withTeam name members).users ∧ u.id = m.userId ↔ u = m.user name := by
  have hfind : (s.withTeam name members).users.find? (·.id = m.userId) = some (m.user name) := by
    rw [find?_withTeam, hlast]
    rfl
  constructor
  · rintro ⟨hu, hid⟩
    have hself := (mem_iff_find?_key (nodup_ids_withTeam hids)).1 hu
    rw [hid, hfind] at hself
    exact (Option.some.inj hself).symm
  · intro hu
    rw [hu]
    exact mem_of_find?_key hfind

/-- Whoever is not listed is as before. -/
theorem mem_withTeam_of_not_listed {u : User} (hnot : u.id ∉ members.map (·.userId)) :
    u ∈ (s.withTeam name members).users ↔ u ∈ s.users := by
  rw [mem_iff_find?_key (nodup_ids_withTeam hids), mem_iff_find?_key hids, find?_withTeam,
    Member.last?_eq_none hnot]
  rfl

/-- The listed users are in the new team. -/
theorem team_of_listed {u : User} (hu : u ∈ (s.withTeam name members).users)
    (hlisted : u.id ∈ members.map (·.userId)) :
    u.team = name ∧ Member.last? members u.id = some u.member := by
  obtain ⟨m, hlast, hid⟩ := Member.exists_last? hlisted
  rw [← hid] at hlast
  obtain rfl := (mem_withTeam_of_listed hids hlast).1 ⟨hu, hid.symm⟩
  exact ⟨rfl, hlast⟩

/-- Every other team keeps its members who are not listed. -/
theorem team_of_other {other : TeamName} (hne : other ≠ name) :
    ((s.withTeam name members).team other).members =
      (s.team other).members.filter (·.userId ∉ members.map (·.userId)) := by
  have hsome : ((s.users.filter (·.team = other)).map (·.id)).Nodup :=
    nodup_keys_filter _ hids
  have hafter : ((s.withTeam name members).users.map (·.id)).Nodup := nodup_ids_withTeam hids
  have hperm : ((s.withTeam name members).users.filter (·.team = other)).Perm
      ((s.users.filter (·.team = other)).filter (·.id ∉ members.map (·.userId))) := by
    refine (List.perm_ext_iff_of_nodup (hafter.of_map.filter _)
      ((hids.of_map.filter _).filter _)).2 fun u => ?_
    simp only [List.mem_filter, decide_eq_true_eq]
    by_cases hlisted : u.id ∈ members.map (·.userId)
    · refine iff_of_false ?_ fun h => h.2 hlisted
      rintro ⟨hu, hteam⟩
      exact hne (hteam.symm.trans (team_of_listed hids hu hlisted).1)
    · rw [mem_withTeam_of_not_listed hids hlisted]
      exact ⟨fun h => ⟨h, hlisted⟩, fun h => h.1⟩
  have hlist := arrange_users (nodup_keys_filter _ hafter) hperm
  unfold team
  rw [hlist, arrange_users_filter hsome, List.filter_map]
  rfl

omit hids

/-- In a new team there is nobody who is not listed, since no user had a team that did not
exist. -/
theorem listed_of_team (hs : s.Consistent) (isNew : name ∉ s.teams) {u : User}
    (hu : u ∈ (s.withTeam name members).users) (hteam : u.team = name) :
    u.id ∈ members.map (·.userId) := by
  apply Decidable.byContradiction
  intro hnot
  have hbefore : u ∈ s.users := (mem_withTeam_of_not_listed hs.userKeys hnot).1 hu
  exact isNew (hteam ▸ hs.userTeams (List.mem_map_of_mem hbefore))

end Store

/-- The members of a team are those of a list: each listed id once and in order, with what its
last entry says. -/
structure Team.IsMadeOf (t : Team) (members : List Member) : Prop where
  ids : t.members.map (·.userId) = (Ascending.ofList (members.map (·.userId))).toList
  entries : ∀ m ∈ t.members, Member.last? members m.userId = some m

theorem Store.team_of_new {s : Store} (hs : s.Consistent) {name : TeamName}
    (isNew : name ∉ s.teams) (members : List Member) :
    ((s.withTeam name members).team name).IsMadeOf members where
  ids := by
    have hafter : ((s.withTeam name members).users.map (·.id)).Nodup :=
      nodup_ids_withTeam hs.userKeys
    have hascends := arrange_users_strict (nodup_keys_filter (·.team = name) hafter)
    refine Ascending.eq_of_mem_iff ?_ (Ascending.ascends _) fun id => ?_
    · rw [team, List.map_map]
      exact List.pairwise_map.2 hascends
    · rw [Ascending.mem_toList, Ascending.mem_ofList]
      constructor
      · intro hid
        obtain ⟨m, hm, rfl⟩ := List.mem_map.1 hid
        obtain ⟨u, hu, hteam, rfl⟩ := mem_members_team.1 hm
        exact listed_of_team hs isNew hu hteam
      · intro hlisted
        obtain ⟨m, hlast, rfl⟩ := Member.exists_last? hlisted
        have hu : m.user name ∈ (s.withTeam name members).users :=
          ((mem_withTeam_of_listed hs.userKeys hlast).2 rfl).1
        exact List.mem_map.2 ⟨m, mem_members_team.2 ⟨_, hu, rfl, rfl⟩, rfl⟩
  entries := by
    intro m hm
    obtain ⟨u, hu, hteam, rfl⟩ := mem_members_team.1 hm
    exact (team_of_listed hs.userKeys hu (listed_of_team hs isNew hu hteam)).2

/-- In the second store the listed members have been put into a new team, and all else is as in
the first. -/
structure Store.Enrols (s : Store) (name : TeamName) (members : List Member) (after : Store) :
    Prop where
  /-- Whoever is listed has one row, as the last entry says. -/
  listed : ∀ m, Member.last? members m.userId = some m →
    ∀ u, u ∈ after.users ∧ u.id = m.userId ↔ u = m.user name
  notListed : ∀ u, u.id ∉ members.map (·.userId) → (u ∈ after.users ↔ u ∈ s.users)
  keys : (after.users.map (·.id)).Nodup
  rest : { after with users := s.users } = { s with teams := s.teams ++ [name] }

theorem Store.enrols_withTeam {s : Store} (hids : (s.users.map (·.id)).Nodup) (name : TeamName)
    (members : List Member) : s.Enrols name members (s.withTeam name members) where
  listed _ hlast _ := mem_withTeam_of_listed hids hlast
  notListed _ hnot := mem_withTeam_of_not_listed hids hnot
  keys := nodup_ids_withTeam hids
  rest := rfl

namespace Desk

variable {s : Store}

/-- **A team is made of the listed members.**  Take a consistent store, any name and any list.
Making the team fails exactly if the name is taken, and then nothing changes.  Otherwise the
answer has each listed id once, by id, with what its last entry says; whoever looks the team up
then is shown the same.  The listed users belong to the new team, every other team is shown as
before without them, and no other row of any table has changed. -/
theorem made_of_listed (husers : s.has .users = true) (hs : s.Consistent) (name : TeamName)
    (members : List Member) (w : Words) :
    (∀ f o, createTeam name members ⟨s, w⟩ = .error f o ↔
      f = .teamExists ∧ name ∈ s.teams ∧ o = ⟨s, w⟩) ∧
    (name ∉ s.teams → ∃ t after, createTeam name members ⟨s, w⟩ = .ok t ⟨after, w⟩ ∧
      t.name = name ∧ t.IsMadeOf members ∧ s.Enrols name members after ∧
      (∀ v, getTeam name ⟨after, v⟩ = .ok t ⟨after, v⟩) ∧
      ∀ other ∈ s.teams, ∃ before, ∀ v, getTeam other ⟨s, v⟩ = .ok before ⟨s, v⟩ ∧
        getTeam other ⟨after, v⟩ = .ok { before with
          members := before.members.filter (·.userId ∉ members.map (·.userId)) } ⟨after, v⟩) := by
  have hteams : s.has .teams = true := Store.has_of_rank_le (by decide) husers
  have hanswer : name ∉ s.teams → createTeam name members ⟨s, w⟩ =
      .ok ((s.withTeam name members).team name) ⟨s.withTeam name members, w⟩ := by
    intro isNew
    have hfree : s.isTeam name = false := by simpa [Store.isTeam] using isNew
    exact createTeam_of_isNew hteams husers hfree members
  constructor
  · intro f o
    by_cases htaken : name ∈ s.teams
    · rw [createTeam_of_isTeam hteams (Store.isTeam_iff.2 htaken) members]
      simp [htaken, eq_comm]
    · rw [hanswer htaken]
      simp [htaken]
  · intro isNew
    have hshown : ∀ other ∈ (s.withTeam name members).teams, ∀ v,
        getTeam other ⟨s.withTeam name members, v⟩ =
          .ok ((s.withTeam name members).team other) ⟨s.withTeam name members, v⟩ :=
      fun other hother v => getTeam_of_isTeam hteams husers (Store.isTeam_iff.2 hother)
    refine ⟨_, _, hanswer isNew, rfl, Store.team_of_new hs isNew members,
      Store.enrols_withTeam hs.userKeys name members, ?_, ?_⟩
    · exact hshown name (List.mem_append_right _ List.mem_cons_self)
    · intro other hother
      refine ⟨s.team other, fun v => ⟨?_, ?_⟩⟩
      · exact getTeam_of_isTeam hteams husers (Store.isTeam_iff.2 hother)
      · have hne : other ≠ name := fun heq => isNew (heq ▸ hother)
        rw [hshown other (List.mem_append_left _ hother) v,
          ← Store.team_of_other hs.userKeys hne]
        rfl

/-- Two of the three who are listed come from other teams, and one of them is listed twice. -/
theorem made_ofTwoTeams :
    let listed : List Member :=
      [⟨"e", "E", true⟩, ⟨"n", "N", true⟩, ⟨"e", "F", false⟩, ⟨"a", "A", true⟩]
    let made : Team := ⟨"y", [⟨"a", "A", true⟩, ⟨"e", "F", false⟩, ⟨"n", "N", true⟩]⟩
    Store.ofTwoTeams.has .users = true ∧ Store.ofTwoTeams.Consistent ∧
    createTeam "x" listed ⟨.ofTwoTeams, default⟩ = .error .teamExists ⟨.ofTwoTeams, default⟩ ∧
    ∃ after, createTeam "y" listed ⟨.ofTwoTeams, default⟩ = .ok made ⟨after, default⟩ ∧
      made.IsMadeOf listed ∧ getTeam "y" ⟨after, default⟩ = .ok made ⟨after, default⟩ ∧
      getTeam "x" ⟨after, default⟩ = .ok ⟨"x", [⟨"d", "D", true⟩]⟩ ⟨after, default⟩ := by
  intro listed made
  have husers : Store.ofTwoTeams.has .users = true := by decide
  have hconsistent : Store.ofTwoTeams.Consistent := by constructor <;> decide
  refine ⟨husers, hconsistent, ?_, ?_⟩
  · apply ((made_of_listed husers hconsistent "x" listed default).1 _ _).2
    exact ⟨rfl, by decide, rfl⟩
  · obtain ⟨t, after, hanswer, -, hmade, -, hshown, hothers⟩ :=
      (made_of_listed husers hconsistent "y" listed default).2 (by decide)
    obtain ⟨store, hrun⟩ : ∃ store, createTeam "y" listed ⟨.ofTwoTeams, default⟩ =
      .ok made ⟨store, default⟩ := ⟨_, rfl⟩
    cases hrun.symm.trans hanswer
    obtain ⟨before, hbefore⟩ := hothers "x" (by decide)
    obtain ⟨hthen, hnow⟩ := hbefore default
    have hrun : getTeam "x" ⟨.ofTwoTeams, default⟩ =
      .ok ⟨"x", [⟨"d", "D", true⟩, ⟨"e", "E", true⟩]⟩ ⟨.ofTwoTeams, default⟩ := rfl
    cases hrun.symm.trans hthen
    exact ⟨after, hanswer, hmade, hshown default, hnow⟩

end Desk

end ReviewDesk
