import ReviewDesk.Store.Read
import ReviewDesk.Store.Write

/-!
# What statements do to the rows

A question or a change that the store carries out says something about its rows:
which row was found, which key was free, which rows were added or taken out.
This file states that for every statement that operations are made of, and what
upserts do to the ids of the users.

* `mem_iff_find?_key`, `nodup_keys_filter` — rows with distinct keys;
* `findPull_eq_some_iff` — a pull request that is read is the first row with
  its id, and that row has a status;
* `readPulls_eq_ok_iff` — rows are read as what is stored in them;
* `insert_pull_eq_ok`, `insert_review_eq_ok`, `delete_review_eq_ok` — when a row
  is put in or taken out, and the store afterwards;
* `insertAll_reviews` — several reviews at once;
* `ids_enroll` — an upsert keeps all users and adds at most the one it is for.
-/

namespace ReviewDesk

/-- In a list with distinct keys a search for the key of an entry finds that
entry. -/
theorem find?_eq_some_of_mem {α κ : Type} [DecidableEq κ] {key : α → κ} {l : List α}
    (hkeys : (l.map key).Nodup) {a : α} (ha : a ∈ l) :
    l.find? (fun b => key b = key a) = some a := by
  induction l with
  | nil => cases ha
  | cons b rest ih =>
      obtain ⟨hb, hrest⟩ := List.nodup_cons.1 hkeys
      rcases List.mem_cons.1 ha with rfl | ha
      · simp
      · have hne : key b ≠ key a := fun h => hb (h ▸ List.mem_map_of_mem ha)
        simpa [List.find?_cons, hne] using ih hrest ha

/-- What is found by its key is in the list and has this key. -/
theorem mem_of_find?_key {α κ : Type} [DecidableEq κ] {key : α → κ} {l : List α} {k : κ} {a : α}
    (h : l.find? (fun b => key b = k) = some a) : a ∈ l ∧ key a = k := by
  have hkey := List.find?_some h
  exact ⟨List.mem_of_find?_eq_some h, of_decide_eq_true hkey⟩

/-- In a list with distinct keys an entry is what a search for its key finds. -/
theorem mem_iff_find?_key {α κ : Type} [DecidableEq κ] {key : α → κ} {l : List α}
    (hkeys : (l.map key).Nodup) {a : α} :
    a ∈ l ↔ l.find? (fun b => key b = key a) = some a := by
  constructor
  · exact find?_eq_some_of_mem hkeys
  · exact fun h => (mem_of_find?_key h).1

/-- The keys of some of the rows are distinct if those of all rows are. -/
theorem nodup_keys_filter {α κ : Type} {key : α → κ} {l : List α} (keep : α → Bool)
    (h : (l.map key).Nodup) : ((l.filter keep).map key).Nodup :=
  h.sublist (List.filter_sublist.map key)

/-- A row that reads as a pull request is the row it is stored in. -/
theorem StoredPull.read?_eq_some_iff {p : StoredPull} {q : Pull} :
    p.read? = some q ↔ p = q.stored := by
  constructor
  · intro h
    obtain ⟨status, hstatus, hq⟩ := Option.bind_eq_some_iff.1 h
    obtain rfl := Option.some.inj hq
    have htext : p.status = status.text := Status.ofStored?_eq_some_iff.1 hstatus
    simp [Pull.stored, ← htext]
  · intro h
    subst h
    exact Pull.read?_stored q

/-- A row whose status can be read is that of a pull request with this status. -/
theorem StoredPull.exists_stored {p : StoredPull} {status : Status} (h : p.status = status.text) :
    ∃ q : Pull, q.status = status ∧ q.stored = p :=
  ⟨⟨p.id, p.name, p.author, status, p.createdAt, p.mergedAt⟩, rfl, by rw [Pull.stored, ← h]⟩

theorem Pull.stored_injective {p q : Pull} (h : p.stored = q.stored) : p = q :=
  Option.some.inj ((Pull.read?_stored p).symm.trans (StoredPull.read?_eq_some_iff.2 h))

/-- Users after an upsert: the row with the id is replaced, or added behind the
others. -/
def User.enroll (users : List User) (u : User) : List User :=
  if users.any (·.id = u.id) then users.map fun v => if v.id = u.id then u else v
  else users ++ [u]

namespace Store

variable {s s' : Store}

theorem isOpen_of_has {t : Table} (h : s.has t = true) : s.isOpen = true :=
  (Bool.and_eq_true_iff.1 h).1

/-- Tables are made in an order, so with one of them there are those before it. -/
theorem has_of_rank_le {t u : Table} (hle : t.rank ≤ u.rank) (h : s.has u = true) :
    s.has t = true := by
  obtain ⟨hopen, hmade⟩ := Bool.and_eq_true_iff.1 h
  have hlt : u.rank < s.migrated := of_decide_eq_true hmade
  exact Bool.and_eq_true_iff.2 ⟨hopen, decide_eq_true (Nat.lt_of_le_of_lt hle hlt)⟩

theorem isTeam_iff {name : TeamName} : s.isTeam name = true ↔ name ∈ s.teams := by
  simp [isTeam]

theorem isUser_iff {id : UserId} : s.isUser id = true ↔ id ∈ s.users.map (·.id) := by
  simp [isUser]

theorem isPull_iff {id : PullId} : s.isPull id = true ↔ id ∈ s.pulls.map (·.id) := by
  simp [isPull]

/-- What is sound is accepted, whether references are checked or not. -/
theorem accepts_of {isSound : Bool} (h : isSound = true) : s.accepts isSound = true := by
  simp [accepts, h]

theorem isPull_eq_false_iff {id : PullId} : s.isPull id = false ↔ id ∉ s.pulls.map (·.id) := by
  simp [isPull]

/-! ## Questions -/

theorem reading_eq_ok {α : Type} {t : Table} {answer : Except Fault α} {a : α} :
    s.reading t answer = .ok a ↔ s.has t = true ∧ answer = .ok a := by
  unfold reading
  split <;> simp_all

theorem activeMembers_eq_ok {team : TeamName} {members : Ascending UserId} :
    s.activeMembers team = .ok members ↔ s.has .users = true ∧ s.activeIn team = members := by
  rw [activeMembers_eq, reading_eq_ok, Except.ok.injEq]

/-- What is read of rows are the pull requests that are stored in them. -/
theorem readPulls_eq_ok_iff {rows : List StoredPull} {pulls : List Pull} :
    readPulls rows = .ok pulls ↔ rows = pulls.map Pull.stored := by
  induction rows generalizing pulls with
  | nil => simp [readPulls, eq_comm]
  | cons p rest ih =>
      constructor
      · intro h
        cases hread : p.read? with
        | none => simp [readPulls, hread] at h
        | some q =>
            cases hrest : readPulls rest with
            | error f => simp [readPulls, hread, hrest, bind, Except.bind] at h
            | ok others =>
                obtain rfl : q :: others = pulls := by
                  simpa [readPulls, hread, hrest, bind, Except.bind, pure, Except.pure] using h
                rw [StoredPull.read?_eq_some_iff.1 hread, ih.1 hrest]
                rfl
      · intro h
        obtain ⟨q, others, rfl, rfl, hrest⟩ := List.map_eq_cons_iff.1 h.symm
        simp [readPulls, Pull.read?_stored, ih.2 hrest.symm, bind, Except.bind, pure, Except.pure]

theorem findUser_eq_some_iff {id : UserId} {u : User} :
    s.findUser id = .ok (some u) ↔
      s.has .users = true ∧ s.users.find? (·.id = id) = some u := by
  simp [findUser, reading_eq_ok]

/-- A pull request is found if the first row with its id is its row. -/
theorem findPull_eq_some_iff {id : PullId} {p : Pull} :
    s.findPull id = .ok (some p) ↔
      s.has .pulls = true ∧ s.pulls.find? (·.id = id) = some p.stored := by
  rw [findPull, reading_eq_ok]
  refine and_congr_right fun _ => ?_
  cases hfind : s.pulls.find? (·.id = id) with
  | none => simp
  | some row =>
      dsimp only
      cases hread : row.read? with
      | none =>
          have hne : row ≠ p.stored := fun h => by
            rw [StoredPull.read?_eq_some_iff.2 h] at hread
            cases hread
          simp [hne]
      | some q =>
          simp only [Except.ok.injEq, Option.some.injEq]
          constructor
          · intro h
            subst h
            exact StoredPull.read?_eq_some_iff.1 hread
          · intro h
            rw [StoredPull.read?_eq_some_iff.2 h] at hread
            exact (Option.some.inj hread).symm

/-! ## Changes -/

theorem insert_team_eq_ok {name : TeamName} :
    s.insert (.team name) = .ok s' ↔
      s.has .teams = true ∧ s.isTeam name = false ∧
        { s with teams := s.teams ++ [name] } = s' := by
  simp only [insert]
  split
  · simp_all
  · split <;> simp_all

theorem insert_user_eq_ok {u : User} :
    s.insert (.user u) = .ok s' ↔
      s.has .users = true ∧ s.isUser u.id = false ∧ s.accepts (s.isTeam u.team) = true ∧
        { s with users := s.users ++ [u] } = s' := by
  simp only [insert]
  split
  · simp_all
  · split
    · simp_all
    · split <;> simp_all

theorem insert_pull_eq_ok {p : StoredPull} :
    s.insert (.pull p) = .ok s' ↔
      s.has .pulls = true ∧ s.isPull p.id = false ∧ s.accepts (s.isUser p.author) = true ∧
        { s with pulls := s.pulls ++ [p] } = s' := by
  simp only [insert]
  split
  · simp_all
  · split
    · simp_all
    · split <;> simp_all

theorem insert_review_eq_ok {r : Review} :
    s.insert (.review r) = .ok s' ↔
      s.has .reviews = true ∧ r ∉ s.reviews ∧
        s.accepts (s.isPull r.pull && s.isUser r.user) = true ∧
        { s with reviews := s.reviews ++ [r] } = s' := by
  simp only [insert]
  split
  · simp_all
  · split
    · simp_all
    · split <;> simp_all

theorem delete_team_eq_ok {name : TeamName} :
    s.delete (.team name) = .ok s' ↔
      s.has .teams = true ∧ s.accepts (! s.isTeam name || s.users.all (·.team ≠ name)) = true ∧
        { s with teams := s.teams.filter (· ≠ name) } = s' := by
  simp only [delete]
  split
  · simp_all
  · split <;> simp_all

theorem delete_user_eq_ok {id : UserId} :
    s.delete (.user id) = .ok s' ↔
      s.has .users = true ∧ s.accepts (! s.isUser id || s.pulls.all (·.author ≠ id)) = true ∧
        { s with
          users := s.users.filter (·.id ≠ id)
          reviews := if s.checksKeys && s.isUser id then s.reviews.filter (·.user ≠ id)
            else s.reviews } = s' := by
  simp only [delete]
  split
  · simp_all
  · split <;> simp_all

theorem delete_pull_eq_ok {id : PullId} :
    s.delete (.pull id) = .ok s' ↔
      s.has .pulls = true ∧
        { s with
          pulls := s.pulls.filter (·.id ≠ id)
          reviews := if s.checksKeys && s.isPull id then s.reviews.filter (·.pull ≠ id)
            else s.reviews } = s' := by
  simp only [delete]
  split <;> simp_all

theorem delete_review_eq_ok {r : Review} :
    s.delete (.review r) = .ok s' ↔
      s.has .reviews = true ∧ { s with reviews := s.reviews.filter (· ≠ r) } = s' := by
  simp only [delete]
  split <;> simp_all

theorem updating_eq_ok {t : Table} {changed : Store} :
    s.updating t changed = .ok s' ↔ s.has t = true ∧ changed = s' := by
  unfold updating
  split <;> simp_all

/-- Reviewers that were added to a pull request were none of its reviewers and
distinct, and their rows stand behind the others. -/
theorem insertAll_reviews {id : PullId} {users : List UserId}
    (h : s.insertAll (users.map fun user => .review ⟨id, user⟩) = .ok s') :
    users.Nodup ∧ (∀ user ∈ users, ⟨id, user⟩ ∉ s.reviews) ∧
      { s with reviews := s.reviews ++ users.map fun user => ⟨id, user⟩ } = s' := by
  induction users generalizing s with
  | nil =>
      have hs : s = s' := Except.ok.inj h
      simp [hs]
  | cons user others ih =>
      obtain ⟨t, ht, hothers⟩ : ∃ t, s.insert (.review ⟨id, user⟩) = .ok t ∧
          t.insertAll (others.map fun user => .review ⟨id, user⟩) = .ok s' := by
        simp only [insertAll, List.map_cons, List.foldlM_cons] at h ⊢
        cases ht : s.insert (.review ⟨id, user⟩) with
        | error fault => simp [ht, bind, Except.bind] at h
        | ok t => exact ⟨t, rfl, by simpa [ht, bind, Except.bind] using h⟩
      obtain ⟨-, hfresh, -, rfl⟩ := insert_review_eq_ok.1 ht
      obtain ⟨hnodup, hnew, rfl⟩ := ih hothers
      have hnotMem : user ∉ others := fun hmem => hnew user hmem (by simp)
      refine ⟨List.nodup_cons.2 ⟨hnotMem, hnodup⟩, fun v hv => ?_, by simp⟩
      rcases List.mem_cons.1 hv with rfl | hv
      · exact hfresh
      · exact fun hmem => hnew v hv (List.mem_append_left _ hmem)

/-- New and distinct reviewers who exist can be added to a pull request that
exists. -/
theorem insertAll_reviews_of_new {id : PullId} {users : List UserId}
    (hreviews : s.has .reviews = true) (hpull : s.isPull id = true)
    (hknown : ∀ user ∈ users, s.isUser user = true) (hdistinct : users.Nodup)
    (hnew : ∀ user ∈ users, ⟨id, user⟩ ∉ s.reviews) :
    s.insertAll (users.map fun user => .review ⟨id, user⟩) =
      .ok { s with reviews := s.reviews ++ users.map fun user => ⟨id, user⟩ } := by
  induction users generalizing s with
  | nil => simp [insertAll, pure, Except.pure]
  | cons user others ih =>
      obtain ⟨hnotMem, hothers⟩ := List.nodup_cons.1 hdistinct
      have hsound : (s.isPull id && s.isUser user) = true :=
        Bool.and_eq_true_iff.2 ⟨hpull, hknown user List.mem_cons_self⟩
      have hfirst := insert_review_eq_ok.2
        ⟨hreviews, hnew user List.mem_cons_self, accepts_of hsound, rfl⟩
      have hrest := ih (s := { s with reviews := s.reviews ++ [⟨id, user⟩] }) hreviews hpull
        (fun v hv => hknown v (List.mem_cons_of_mem user hv)) hothers ?_
      · simp only [insertAll, List.map_cons, List.foldlM_cons, hfirst, bind, Except.bind] at hrest ⊢
        simpa using hrest
      · intro v hv hmem
        rcases List.mem_append.1 hmem with hold | hadded
        · exact hnew v (List.mem_cons_of_mem user hv) hold
        · have hsame : v = user := (Review.mk.inj (List.mem_singleton.1 hadded)).2
          exact hnotMem (hsame ▸ hv)

/-- A user of a team that exists can be put in, whether new or not. -/
theorem upsertUser_of_isTeam {u : User} (husers : s.has .users = true)
    (hteam : s.isTeam u.team = true) :
    s.upsertUser u = .ok { s with users := User.enroll s.users u } := by
  have haccepts : s.accepts (s.isTeam u.team) = true := accepts_of hteam
  by_cases hold : s.isUser u.id = true
  · have hany : s.users.any (·.id = u.id) = true := hold
    simp [upsertUser, User.enroll, husers, hold, haccepts, hany]
  · have hnew : s.isUser u.id = false := by simpa using hold
    have hany : s.users.any (·.id = u.id) = false := hnew
    simp [upsertUser, User.enroll, insert, husers, hnew, haccepts, hany]

/-- An upsert that the store carries out changes the users only. -/
theorem upsertUser_eq_ok {u : User} (h : s.upsertUser u = .ok s') :
    { s with users := User.enroll s.users u } = s' := by
  unfold upsertUser at h
  split at h
  · rename_i hold
    split at h
    · cases h
    · have hany : s.users.any (·.id = u.id) = true := hold.2
      rw [← Except.ok.inj h, User.enroll, if_pos hany]
  · obtain ⟨-, hnew, -, rfl⟩ := insert_user_eq_ok.1 h
    have hany : s.users.any (·.id = u.id) = false := hnew
    rw [User.enroll, hany]
    rfl

end Store

namespace User

/-- An upsert keeps the ids and adds at most the one it is for. -/
theorem ids_enroll (users : List User) (u : User) :
    (enroll users u).map (·.id) =
      if u.id ∈ users.map (·.id) then users.map (·.id) else users.map (·.id) ++ [u.id] := by
  have hany : users.any (·.id = u.id) = true ↔ u.id ∈ users.map (·.id) := by simp
  unfold enroll
  by_cases h : u.id ∈ users.map (·.id)
  · rw [if_pos (hany.2 h), if_pos h, List.map_map]
    refine List.map_congr_left fun v _ => ?_
    by_cases hv : v.id = u.id <;> simp [hv]
  · rw [if_neg (mt hany.1 h), if_neg h]
    simp

/-- A user after an upsert is the one it was for or was there before. -/
theorem mem_of_mem_enroll {users : List User} {u v : User} (h : v ∈ enroll users u) :
    v = u ∨ v ∈ users := by
  unfold enroll at h
  split at h
  · obtain ⟨w, hw, rfl⟩ := List.mem_map.1 h
    by_cases hid : w.id = u.id
    · exact .inl (if_pos hid)
    · exact .inr (by rwa [if_neg hid])
  · rcases List.mem_append.1 h with h | h
    · exact .inr h
    · exact .inl (List.mem_singleton.1 h)

end User

end ReviewDesk
