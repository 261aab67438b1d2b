import ReviewDesk.Proofs.Assembly
import ReviewDesk.Proofs.Consistency

/-!
# What statements do to a store

Whatever is done to a store comes down to ten kinds of changes: a row is put in one of the
four tables, a row is taken out of one, or the users or the pull requests are rewritten
without their keys and references.  What holds of each kind holds of all that works with
the store.

* `IsStatement.changed` — a statement that is carried out makes one of these changes;
* `Changed.distinctKeys` — each of them keeps the keys distinct, whether or not references
  are checked.
-/

namespace ReviewDesk

theorem nodup_keys_concat {α κ : Type} {key : α → κ} {l : List α} {a : α}
    (h : (l.map key).Nodup) (hnew : key a ∉ l.map key) : ((l ++ [a]).map key).Nodup := by
  rw [List.map_append, List.map_singleton, ← List.concat_eq_append]
  exact h.concat hnew

namespace Store

/-! ## What statements do -/

/-- What a statement can make of a store. -/
inductive Changed (s : Store) : Store → Prop
  | addTeam {name : TeamName} (isNew : name ∉ s.teams) :
      Changed s { s with teams := s.teams ++ [name] }
  | putUser {u : User} (team : s.accepts (s.isTeam u.team) = true) :
      Changed s { s with users := User.enroll s.users u }
  | addPull {p : StoredPull} (isNew : s.isPull p.id = false)
      (author : s.accepts (s.isUser p.author) = true) :
      Changed s { s with pulls := s.pulls ++ [p] }
  | addReview {r : Review} (isNew : r ∉ s.reviews)
      (sides : s.accepts (s.isPull r.pull && s.isUser r.user) = true) :
      Changed s { s with reviews := s.reviews ++ [r] }
  | dropTeam {name : TeamName}
      (unused : s.accepts (! s.isTeam name || s.users.all (·.team ≠ name)) = true) :
      Changed s { s with teams := s.teams.filter (· ≠ name) }
  | dropUser {id : UserId}
      (unused : s.accepts (! s.isUser id || s.pulls.all (·.author ≠ id)) = true) :
      Changed s { s with
        users := s.users.filter (·.id ≠ id)
        reviews := if s.checksKeys && s.isUser id then s.reviews.filter (·.user ≠ id)
          else s.reviews }
  | dropPull (id : PullId) :
      Changed s { s with
        pulls := s.pulls.filter (·.id ≠ id)
        reviews := if s.checksKeys && s.isPull id then s.reviews.filter (·.pull ≠ id)
          else s.reviews }
  | dropReview (r : Review) : Changed s { s with reviews := s.reviews.filter (· ≠ r) }
  | rewriteUsers {g : User → User} (same : ∀ u, (g u).id = u.id ∧ (g u).team = u.team) :
      Changed s { s with users := s.users.map g }
  | rewritePulls {g : StoredPull → StoredPull}
      (same : ∀ p, (g p).id = p.id ∧ (g p).author = p.author) :
      Changed s { s with pulls := s.pulls.map g }

variable {s s' : Store}

theorem changed_of_insert {row : Row} (h : s.insert row = .ok s') : s.Changed s' := by
  cases row with
  | team name =>
      obtain ⟨-, hnew, rfl⟩ := insert_team_eq_ok.1 h
      exact .addTeam (by simpa [isTeam] using hnew)
  | user u =>
      obtain ⟨-, hnew, hteam, rfl⟩ := insert_user_eq_ok.1 h
      have hnot : ¬ s.isUser u.id = true := by simp [hnew]
      have henroll : User.enroll s.users u = s.users ++ [u] := if_neg hnot
      rw [← henroll]
      exact .putUser hteam
  | pull p =>
      obtain ⟨-, hnew, hauthor, rfl⟩ := insert_pull_eq_ok.1 h
      exact .addPull hnew hauthor
  | review r =>
      obtain ⟨-, hnew, hsides, rfl⟩ := insert_review_eq_ok.1 h
      exact .addReview hnew hsides

theorem changed_of_upsertUser {u : User} (h : s.upsertUser u = .ok s') : s.Changed s' := by
  unfold upsertUser at h
  split at h
  · rename_i hold
    split at h
    · cases h
    · rename_i hteam
      have henroll : User.enroll s.users u = s.users.map fun v => if v.id = u.id then u else v :=
        if_pos hold.2
      rw [← Except.ok.inj h, ← henroll]
      exact .putUser (not_not.1 hteam)
  · exact changed_of_insert h

theorem changed_of_delete {key : Key} (h : s.delete key = .ok s') : s.Changed s' := by
  cases key with
  | team name =>
      obtain ⟨-, hunused, rfl⟩ := delete_team_eq_ok.1 h
      exact .dropTeam hunused
  | user id =>
      obtain ⟨-, hunused, rfl⟩ := delete_user_eq_ok.1 h
      exact .dropUser hunused
  | pull id =>
      obtain ⟨-, rfl⟩ := delete_pull_eq_ok.1 h
      exact .dropPull id
  | review r =>
      obtain ⟨-, rfl⟩ := delete_review_eq_ok.1 h
      exact .dropReview r

/-- A statement that a store carries out changes it in one of ten ways. -/
theorem IsStatement.changed {statement : Store → Except Fault Store} (h : IsStatement statement)
    (hok : statement s = .ok s') : s.Changed s' := by
  cases h with
  | insert row => exact changed_of_insert hok
  | upsertUser u => exact changed_of_upsertUser hok
  | delete key => exact changed_of_delete hok
  | setActive chosen isActive =>
      obtain ⟨-, rfl⟩ := updating_eq_ok.1 hok
      exact .rewriteUsers fun u => by by_cases hu : chosen u.id = true <;> simp [hu]
  | setMerged id now =>
      obtain ⟨-, rfl⟩ := updating_eq_ok.1 hok
      exact .rewritePulls fun p => by by_cases hp : p.id = id <;> simp [hp]
  | setStatus id status =>
      obtain ⟨-, rfl⟩ := updating_eq_ok.1 hok
      exact .rewritePulls fun p => by by_cases hp : p.id = id <;> simp [hp]

/-! ## Keys -/

/-- No table has two rows with one key. -/
structure DistinctKeys (s : Store) : Prop where
  teams : s.teams.Nodup
  users : (s.users.map (·.id)).Nodup
  pulls : (s.pulls.map (·.id)).Nodup
  reviews : s.reviews.Nodup

/-- Every change keeps the keys distinct, whether or not references are checked. -/
theorem Changed.distinctKeys (h : s.Changed s') (hs : s.DistinctKeys) : s'.DistinctKeys := by
  cases h with
  | addTeam isNew =>
      refine { hs with teams := ?_ }
      rw [← List.concat_eq_append]
      exact hs.teams.concat isNew
  | putUser => exact { hs with users := User.nodup_ids_enroll _ hs.users }
  | addPull isNew =>
      exact { hs with pulls := nodup_keys_concat hs.pulls (isPull_eq_false_iff.1 isNew) }
  | addReview isNew =>
      refine { hs with reviews := ?_ }
      rw [← List.concat_eq_append]
      exact hs.reviews.concat isNew
  | dropTeam => exact { hs with teams := hs.teams.filter _ }
  | dropUser =>
      refine { hs with users := nodup_keys_filter _ hs.users, reviews := ?_ }
      dsimp only
      split
      · exact hs.reviews.filter _
      · exact hs.reviews
  | dropPull id =>
      refine { hs with pulls := nodup_keys_filter _ hs.pulls, reviews := ?_ }
      dsimp only
      split
      · exact hs.reviews.filter _
      · exact hs.reviews
  | dropReview r => exact { hs with reviews := hs.reviews.filter _ }
  | rewriteUsers same =>
      refine { hs with users := ?_ }
      rw [map_map_eq_of_forall fun u => (same u).1]
      exact hs.users
  | rewritePulls same =>
      refine { hs with pulls := ?_ }
      rw [map_map_eq_of_forall fun p => (same p).1]
      exact hs.pulls

theorem Changed.settings (h : s.Changed s') :
    s'.migrated = s.migrated ∧ s'.checksKeys = s.checksKeys := by
  cases h <;> exact ⟨rfl, rfl⟩

end Store

end ReviewDesk
