import ReviewDesk.Proofs.Changes
import ReviewDesk.Proofs.Listings

/-!
# The order of rows does not matter

A store gives its rows back in the order in which they lie, and nobody promises what that
order is.  Two stores with the same rows in different orders still answer every question
alike: single rows are found by key, sets come out ascending, lists are arranged, and counts
do not care.  Statements keep the rows the same.  So nothing that works at a desk can tell
such stores apart, neither by an answer nor by a pick or a drawn word.

All this needs that keys are distinct, which no statement can undo.

* `SameRows.answers` — questions are answered alike;
* `SameRows.changes` — statements keep the rows the same;
* `row_order_is_immaterial` — whole runs of operations answer alike and draw the same words.
-/

namespace ReviewDesk

namespace Store

/-- Two stores hold the same rows, in whatever order, and are set up alike. -/
structure SameRows (s t : Store) : Prop where
  teams : s.teams.Perm t.teams
  users : s.users.Perm t.users
  pulls : s.pulls.Perm t.pulls
  reviews : s.reviews.Perm t.reviews
  migrated : s.migrated = t.migrated
  checksKeys : s.checksKeys = t.checksKeys
  isOpen : s.isOpen = t.isOpen

namespace SameRows

variable {s t : Store} (h : s.SameRows t)

include h

/-! ## Questions -/

theorem has (table : Table) : s.has table = t.has table := by
  rw [Store.has, Store.has, h.isOpen, h.migrated]

theorem isTeam (name : TeamName) : s.isTeam name = t.isTeam name := h.teams.contains_eq

theorem isUser (id : UserId) : s.isUser id = t.isUser id := h.users.any_eq

theorem isPull (id : PullId) : s.isPull id = t.isPull id := h.pulls.any_eq

theorem isReview (r : Review) : s.reviews.contains r = t.reviews.contains r :=
  h.reviews.contains_eq

theorem accepts (isSound : Bool) : s.accepts isSound = t.accepts isSound := by
  rw [Store.accepts, Store.accepts, h.checksKeys]

theorem reading {α : Type} (table : Table) (answer : Except Fault α) :
    s.reading table answer = t.reading table answer := by
  rw [Store.reading, Store.reading, h.has]

theorem activeIn (team : TeamName) : s.activeIn team = t.activeIn team := by
  refine Ascending.ext fun id => ?_
  rw [mem_activeIn, mem_activeIn]
  simp only [h.users.mem_iff]

theorem reviewersIn (pull : PullId) : s.reviewersIn pull = t.reviewersIn pull := by
  refine Ascending.ext fun user => ?_
  rw [mem_reviewersIn, mem_reviewersIn, h.reviews.mem_iff]

theorem isAffected (users : Ascending UserId) (p : StoredPull) :
    s.isAffected users p = t.isAffected users p := by
  rw [Store.isAffected, Store.isAffected, h.reviews.any_eq]

/-- The pool of a team is found, or missing, alike. -/
theorem activePools : s.activePools = t.activePools := by
  refine Keyed.ext_getD (fun team => ?_) ∅ fun team => ?_
  · rw [mem_keys_activePools, mem_keys_activePools]
    simp only [h.users.mem_iff]
  · rw [getD_activePools, getD_activePools, h.activeIn]

variable (keys : s.DistinctKeys)

include keys

theorem activeRows (team : TeamName) : s.activeRows team = t.activeRows team :=
  arrange_users (nodup_keys_filter _ keys.users) (h.users.filter _)

theorem reviewedBy (user : UserId) : s.reviewedBy user = t.reviewedBy user := by
  have hrows : (s.pulls.filter fun p => ⟨p.id, user⟩ ∈ s.reviews).Perm
      (t.pulls.filter fun p => ⟨p.id, user⟩ ∈ t.reviews) := by
    simp only [h.reviews.mem_iff]
    exact h.pulls.filter _
  have hkeys : t.reviews.Nodup := h.reviews.nodup_iff.1 keys.reviews
  simp only [Store.reviewedBy, h.reading, reviewedRows_eq keys.reviews, reviewedRows_eq hkeys]
  rw [arrange_pulls (nodup_keys_filter _ keys.pulls) hrows]

theorem affectedBy (users : Ascending UserId) : s.affectedBy users = t.affectedBy users := by
  let entry (p : StoredPull) : PullId × Affected := (p.id, ⟨p.author, t.reviewersIn p.id⟩)
  have hrows : ((s.pulls.filter (t.isAffected users)).map entry).Perm
      ((t.pulls.filter (t.isAffected users)).map entry) := (h.pulls.filter _).map entry
  have hkeys : (((s.pulls.filter (t.isAffected users)).map entry).map Prod.fst).Nodup := by
    rw [List.map_map]
    exact nodup_keys_filter _ keys.pulls
  simp only [affectedBy_eq, Store.affected, h.reading, funext (h.isAffected users), h.reviewersIn]
  rw [Keyed.ofList_eq_of_perm hkeys hrows]

omit keys in
/-- Tables with distinct ids are tallied alike. -/
theorem talliesOf {α : Type} {rows others : List α} (label : α → String × String)
    (belongs : α → Review → Bool) (hids : (rows.map fun a => (label a).1).Nodup)
    (hrows : rows.Perm others) :
    s.talliesOf rows label belongs = t.talliesOf others label belongs := by
  have hids' : (others.map fun a => (label a).1).Nodup := (hrows.map _).nodup_iff.1 hids
  rw [talliesOf_eq hids, talliesOf_eq hids']
  simp only [h.reviews.countP_eq]
  refine arrange_tallies ?_ (hrows.map _)
  rw [List.map_map]
  exact hids

theorem stats : s.stats = t.stats := by
  have husers := h.talliesOf (fun u => (u.id, u.name)) (fun u r => r.user = u.id) keys.users h.users
  have hpulls := h.talliesOf (fun p => (p.id, p.name)) (fun p r => r.pull = p.id) keys.pulls h.pulls
  simp only [Store.stats, h.reading, husers, hpulls, h.teams.length_eq, h.users.length_eq,
    h.pulls.length_eq, h.pulls.countP_eq]

/-- Questions are answered alike. -/
theorem answers {α : Type} {question : Store → Except Fault α} (hq : IsQuestion question) :
    question s = question t := by
  cases hq with
  | hasTeam name => simp only [Store.hasTeam, h.reading, h.isTeam]
  | findUser id =>
      simp only [Store.findUser, h.reading]
      rw [find?_eq_of_perm keys.users h.users]
  | usersOf team =>
      simp only [Store.usersOf, h.reading]
      rw [arrange_users (nodup_keys_filter _ keys.users) (h.users.filter _)]
  | activeUsersOf team => simp only [Store.activeUsersOf, h.reading, h.activeRows keys]
  | activeMembers team => simp only [activeMembers_eq, h.reading, h.activeIn]
  | pools => simp only [Store.pools, h.reading, h.activePools]
  | findPull id =>
      simp only [Store.findPull, h.reading]
      rw [find?_eq_of_perm keys.pulls h.pulls]
  | reviewersOf pull => simp only [Store.reviewersOf, h.reading, h.reviewersIn]
  | reviewedBy user => exact h.reviewedBy keys user
  | affectedBy users => exact h.affectedBy keys users
  | stats => exact h.stats keys

/-! ## Statements -/

omit keys

theorem insert (row : Row) : Alike SameRows (s.insert row) (t.insert row) := by
  cases row with
  | team name =>
      simp only [Store.insert, h.has, h.isTeam]
      exact .refuseIf <| .refuseIf <| .ok { h with teams := h.teams.append_right _ }
  | user u =>
      simp only [Store.insert, h.has, h.isUser, h.isTeam, h.accepts]
      exact .refuseIf <| .refuseIf <| .refuseIf <| .ok { h with users := h.users.append_right _ }
  | pull p =>
      simp only [Store.insert, h.has, h.isPull, h.isUser, h.accepts]
      exact .refuseIf <| .refuseIf <| .refuseIf <| .ok { h with pulls := h.pulls.append_right _ }
  | review r =>
      simp only [Store.insert, h.has, h.isReview, h.isPull, h.isUser, h.accepts]
      exact .refuseIf <| .refuseIf <| .refuseIf <|
        .ok { h with reviews := h.reviews.append_right _ }

theorem upsertUser (u : User) : Alike SameRows (s.upsertUser u) (t.upsertUser u) := by
  simp only [Store.upsertUser, h.has, h.isUser, h.isTeam, h.accepts]
  split
  · exact .refuseIf <| .ok { h with users := h.users.map _ }
  · exact h.insert (.user u)

/-- Reviews that may go along with a row stay the same, whether they go or not. -/
theorem reviews_along (goes : Bool) (keep : Review → Bool) :
    (if goes then s.reviews.filter keep else s.reviews).Perm
      (if goes then t.reviews.filter keep else t.reviews) := by
  cases goes with
  | true => exact h.reviews.filter keep
  | false => exact h.reviews

theorem delete (key : Key) : Alike SameRows (s.delete key) (t.delete key) := by
  cases key with
  | team name =>
      simp only [Store.delete, h.has, h.isTeam, h.accepts, h.users.all_eq]
      exact .refuseIf <| .refuseIf <| .ok { h with teams := h.teams.filter _ }
  | user id =>
      simp only [Store.delete, h.has, h.isUser, h.accepts, h.pulls.all_eq, h.checksKeys]
      exact .refuseIf <| .refuseIf <| .ok { h with
        users := h.users.filter _
        reviews := h.reviews_along _ _
        checksKeys := rfl }
  | pull id =>
      simp only [Store.delete, h.has, h.isPull, h.checksKeys]
      exact .refuseIf <| .ok { h with
        pulls := h.pulls.filter _
        reviews := h.reviews_along _ _
        checksKeys := rfl }
  | review r =>
      simp only [Store.delete, h.has]
      exact .refuseIf <| .ok { h with reviews := h.reviews.filter _ }

theorem updating (table : Table) {s' t' : Store} (h' : s'.SameRows t') :
    Alike SameRows (s.updating table s') (t.updating table t') := by
  rw [Store.updating, Store.updating, h.has]
  split
  · exact .ok h'
  · exact .error _

/-- Statements are refused alike or keep the rows the same. -/
theorem changes {statement : Store → Except Fault Store} (hstatement : IsStatement statement) :
    Alike SameRows (statement s) (statement t) := by
  cases hstatement with
  | insert row => exact h.insert row
  | upsertUser u => exact h.upsertUser u
  | delete key => exact h.delete key
  | setActive chosen isActive => exact h.updating .users { h with users := h.users.map _ }
  | setMerged id now => exact h.updating .pulls { h with pulls := h.pulls.map _ }
  | setStatus id status => exact h.updating .pulls { h with pulls := h.pulls.map _ }

end SameRows

/-- Stores with the same rows cannot be told apart. -/
theorem likeness_sameRows : Likeness fun s t => s.SameRows t ∧ s.DistinctKeys where
  isOpen h := h.1.isOpen
  answers h _ _ hquestion := h.1.answers h.2 hquestion
  changes := by
    intro s t h statement hstatement
    have hsame := h.1.changes hstatement
    have hkeys : ∀ s', statement s = .ok s' → s'.DistinctKeys := fun s' hok =>
      (hstatement.changed hok).distinctKeys h.2
    generalize statement s = x, statement t = y at hsame hkeys ⊢
    cases hsame with
    | @ok s' t' hsame => exact .ok ⟨hsame, hkeys s' rfl⟩
    | error fault => exact .error fault

end Store

/-! ## Runs -/

namespace Operation

/-- Carries out operations one after the other, each at its own time.  The words go on from
one to the next. -/
def runAll : List (Operation × Instant) → Office → List (Except Failure Answer) × Office
  | [], o => ([], o)
  | (op, now) :: later, o =>
    match op.run now o with
    | .ok a o' => (.ok a :: (runAll later o').1, (runAll later o').2)
    | .error f o' => (.error f :: (runAll later o').1, (runAll later o').2)

/-- **The order of rows is immaterial.**  Two stores hold the same rows in two orders; keys are
distinct, as they are wherever statements put rows in.  Then operations that are carried out
one after the other with the same words answer and fail alike, pick and report the same,
draw the same words, and leave two stores that again hold the same rows. -/
theorem row_order_is_immaterial {s t : Store} (same : s.SameRows t) (keys : s.DistinctKeys)
    (w : Words) (ops : List (Operation × Instant)) :
    let here := runAll ops ⟨s, w⟩
    let there := runAll ops ⟨t, w⟩
    here.1 = there.1 ∧ here.2.words = there.2.words ∧ here.2.store.SameRows there.2.store := by
  induction ops generalizing s t w with
  | nil => exact ⟨rfl, rfl, same⟩
  | cons first later ih =>
      obtain ⟨op, now⟩ := first
      have hends := (op.assembled now).endsAlike Store.likeness_sameRows ⟨same, keys⟩ w
      simp only [runAll]
      generalize op.run now ⟨s, w⟩ = x, op.run now ⟨t, w⟩ = y at hends ⊢
      cases hends with
      | ok a w' h =>
          obtain ⟨hanswers, hwords, hrows⟩ := ih h.1 h.2 w'
          exact ⟨congrArg (Except.ok a :: ·) hanswers, hwords, hrows⟩
      | error f w' h =>
          obtain ⟨hanswers, hwords, hrows⟩ := ih h.1 h.2 w'
          exact ⟨congrArg (Except.error f :: ·) hanswers, hwords, hrows⟩

end Operation

/-- A team of four. -/
def Store.ofOneTeam : Store where
  teams := ["t"]
  users := [⟨"a", "A", "t", true⟩, ⟨"b", "B", "t", true⟩, ⟨"c", "C", "t", true⟩,
    ⟨"d", "D", "t", true⟩]

open Store in
/-- The same with the users in another order: two reviewers are drawn for a pull request,
and the team is deactivated, all alike. -/
theorem Operation.ofOneTeam_reversed :
    let ops : List (Operation × Instant) :=
      [(.createPull "p" "P" "a", .epoch), (.deactivate "t", .epoch)]
    let here := runAll ops ⟨ofOneTeam, default⟩
    let there := runAll ops ⟨{ ofOneTeam with users := ofOneTeam.users.reverse }, default⟩
    here.1 = there.1 ∧ 0 < there.2.words.taken ∧ here.2.words = there.2.words ∧
      here.2.store ≠ there.2.store ∧ here.2.store.SameRows there.2.store := by
  intro ops here there
  have same : ofOneTeam.SameRows { ofOneTeam with users := ofOneTeam.users.reverse } :=
    ⟨.refl _, (List.reverse_perm _).symm, .refl _, .refl _, rfl, rfl, rfl⟩
  have keys : ofOneTeam.DistinctKeys := ⟨by decide, by decide, by decide, by decide⟩
  obtain ⟨hanswers, hwords, hrows⟩ := row_order_is_immaterial same keys default ops
  have htaken : 0 < there.2.words.taken := by decide +kernel
  have hne : here.2.store ≠ there.2.store := by decide +kernel
  exact ⟨hanswers, htaken, hwords, hne, hrows⟩

end ReviewDesk
