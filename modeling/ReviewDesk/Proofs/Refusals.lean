import ReviewDesk.Proofs.Outcomes

/-!
# Why operations fail

Every operation has a few causes for which it may refuse what it is asked, all of
them the caller's: a name or an id that is taken or unknown, a pull request that
is merged, a reviewer who is none or whom nobody can follow.  From the empty
store on, nothing else ever goes wrong: the storage raises no fault, what an
operation has put in it finds again, and a reviewer is always a known user.

A refusal comes before anything is written.  It also comes before anything is
drawn: the one refusal behind a draw says that there was nobody to draw from.

* `run_of_sound` — in a sound store an operation answers or refuses;
* `operations_answer_or_refuse` — so it does after every history.
-/

namespace ReviewDesk

namespace Operation

/-- The causes for which an operation may refuse what it is asked. -/
def refusals : Operation → List Failure
  | createTeam _ _ => [.teamExists]
  | getTeam _ => [.teamNotFound]
  | setActive _ _ => [.userNotFound]
  | reviewsOf _ => []
  | createPull _ _ _ => [.pullExists, .authorNotFound]
  | mergePull _ => [.pullNotFound]
  | reassign _ _ => [.pullNotFound, .pullMerged, .notAssigned, .noCandidate]
  | deactivate _ => [.teamNotFound]
  | stats => []

theorem internal_not_mem_refusals (op : Operation) : .internal ∉ op.refusals := by
  cases op <;> simp [refusals]

end Operation

namespace Desk

variable {α β : Type} {work : Desk α} {o : Office} {causes : List Failure}

/-- Work answers, or it refuses for one of the given causes and leaves the store
and the words as they were. -/
def AnswersOrRefuses (work : Desk α) (o : Office) (causes : List Failure) : Prop :=
  (∃ a o', work o = .ok a o') ∨ ∃ f ∈ causes, work o = .error f o

theorem AnswersOrRefuses.of_ok {a : α} {o' : Office} (h : work o = .ok a o') :
    work.AnswersOrRefuses o causes :=
  .inl ⟨a, o', h⟩

theorem AnswersOrRefuses.of_error {f : Failure} (h : work o = .error f o) (hf : f ∈ causes) :
    work.AnswersOrRefuses o causes :=
  .inr ⟨f, hf, h⟩

theorem AnswersOrRefuses.map (h : work.AnswersOrRefuses o causes) (g : α → β) :
    (g <$> work).AnswersOrRefuses o causes := by
  rcases h with ⟨a, o', hanswer⟩ | ⟨f, hf, hrefusal⟩
  · exact .inl ⟨g a, o', map_eq_ok.2 ⟨a, hanswer, rfl⟩⟩
  · exact .inr ⟨f, hf, map_eq_error.2 hrefusal⟩

end Desk

namespace Store

variable {s : Store}

/-- Rows that can be read are all read. -/
theorem exists_readPulls {rows : List StoredPull}
    (readable : ∀ p ∈ rows, ∃ status : Status, p.status = status.text) :
    ∃ pulls, readPulls rows = .ok pulls := by
  induction rows with
  | nil => exact ⟨[], rfl⟩
  | cons p rest ih =>
      obtain ⟨pulls, hrest⟩ := ih fun q hq => readable q (List.mem_cons_of_mem p hq)
      obtain ⟨status, hstatus⟩ := readable p List.mem_cons_self
      obtain ⟨pull, -, rfl⟩ := StoredPull.exists_stored hstatus
      refine ⟨pull :: pulls, readPulls_eq_ok_iff.2 ?_⟩
      rw [List.map_cons, ← readPulls_eq_ok_iff.1 hrest]

namespace Sound

open Desk

variable (hs : s.Sound) (w : Words)

include hs

/-! ## Teams and users -/

theorem createTeam (name : TeamName) (members : List Member) :
    (Desk.createTeam name members).AnswersOrRefuses ⟨s, w⟩ [.teamExists] := by
  cases hteam : s.isTeam name with
  | true => exact .of_error (createTeam_of_isTeam (hs.has .teams) hteam members) (by simp)
  | false => exact .of_ok (createTeam_of_isNew (hs.has .teams) (hs.has .users) hteam members)

theorem getTeam (name : TeamName) :
    (Desk.getTeam name).AnswersOrRefuses ⟨s, w⟩ [.teamNotFound] := by
  cases hteam : s.isTeam name with
  | true => exact .of_ok (getTeam_of_isTeam (hs.has .teams) (hs.has .users) hteam)
  | false => exact .of_error (getTeam_of_not_isTeam (hs.has .teams) hteam) (by simp)

theorem setActive (id : UserId) (isActive : Bool) :
    (Desk.setActive id isActive).AnswersOrRefuses ⟨s, w⟩ [.userNotFound] := by
  cases hfound : s.users.find? (·.id = id) with
  | none => exact .of_error (setActive_of_unknown (hs.has .users) hfound isActive) (by simp)
  | some u =>
      obtain ⟨o, ho⟩ := setActive_of_known (w := w) (hs.has .users) hfound isActive
      exact .of_ok ho

theorem reviewsOf (user : UserId) : (Desk.reviewsOf user).AnswersOrRefuses ⟨s, w⟩ [] := by
  have hrows : ∀ p ∈ arrange isListedBefore (s.reviewedRows user),
      ∃ status : Status, p.status = status.text := fun p hp =>
    hs.readable p (mem_reviewedRows.1 ((arrange_perm _ _).mem_iff.1 hp)).1
  obtain ⟨pulls, hpulls⟩ := exists_readPulls hrows
  have hlist : s.reviewedBy user = .ok pulls :=
    reading_eq_ok.2 ⟨hs.has .pulls, reading_eq_ok.2 ⟨hs.has .reviews, hpulls⟩⟩
  exact .of_ok (ask_eq_ok.2 ⟨hlist, rfl⟩)

theorem deactivate (team : TeamName) :
    (Desk.deactivate team).AnswersOrRefuses ⟨s, w⟩ [.teamNotFound] := by
  cases hteam : s.isTeam team with
  | false => exact .of_error (deactivate_of_not_isTeam (hs.has .teams) hteam) (by simp)
  | true =>
      obtain ⟨d, o, hd⟩ := exists_deactivateHere (w := w) hs.complete hteam
      exact .of_ok (transaction_eq_ok.2 ⟨isOpen_of_has (hs.has .teams), hd⟩)

theorem stats : Desk.stats.AnswersOrRefuses ⟨s, w⟩ [] := by
  have hcounts : ∃ counts, s.stats = .ok counts :=
    ⟨_, reading_eq_ok.2 ⟨hs.has .teams, reading_eq_ok.2 ⟨hs.has .users,
      reading_eq_ok.2 ⟨hs.has .pulls, reading_eq_ok.2 ⟨hs.has .reviews, rfl⟩⟩⟩⟩⟩
  obtain ⟨counts, hcounts⟩ := hcounts
  exact .of_ok (ask_eq_ok.2 ⟨hcounts, rfl⟩)

/-! ## Pull requests -/

theorem createPull (now : Instant) (id : PullId) (name : String) (author : UserId) :
    (Desk.createPull now id name author).AnswersOrRefuses ⟨s, w⟩
      [.pullExists, .authorNotFound] := by
  rcases hs.find?_pull id with hnew | ⟨p, hfound⟩
  · cases hauthor : s.users.find? (·.id = author) with
    | none => exact .of_error (createPull_of_no_author hs.complete hnew hauthor) (by simp)
    | some u =>
        obtain ⟨-, rfl⟩ := mem_of_find?_key hauthor
        exact .of_ok (createPull_of_author hs.complete hs.consistent hnew hauthor)
  · exact .of_error (createPull_of_isPull (hs.has .pulls) hfound author) (by simp)

theorem mergePull (now : Instant) (id : PullId) :
    (Desk.mergePull now id).AnswersOrRefuses ⟨s, w⟩ [.pullNotFound] := by
  rcases hs.find?_pull id with hunknown | ⟨p, hfound⟩
  · exact .of_error (mergePull_of_unknown (hs.has .pulls) hunknown) (by simp)
  · cases hstatus : p.status with
    | opened => exact .of_ok (mergePull_of_opened hs.complete hfound hstatus)
    | merged =>
        have hshown : s.Shows id ⟨p, s.reviewersIn id⟩ :=
          ⟨hs.has .pulls, hs.has .reviews, hfound, rfl⟩
        exact .of_ok (mergePull_of_merged hshown hstatus)

theorem reassign (id : PullId) (old : UserId) :
    (Desk.reassign id old).AnswersOrRefuses ⟨s, w⟩
      [.pullNotFound, .pullMerged, .notAssigned, .noCandidate] := by
  rcases hs.find?_pull id with hunknown | ⟨p, hfound⟩
  · exact .of_error (reassign_of_unknown (hs.has .pulls) hunknown old) (by simp)
  · cases hstatus : p.status with
    | merged =>
        exact .of_error (reassign_of_merged (hs.has .pulls) hfound hstatus old) (by simp)
    | opened =>
        by_cases hassigned : ⟨id, old⟩ ∈ s.reviews
        · obtain ⟨u, hknown, rfl⟩ := hs.consistent.find?_of_review hassigned
          cases hdrawn : (s.successor id p.author u w).1 with
          | none =>
              exact .of_error (reassign_of_no_candidate hs.complete hfound hstatus hassigned
                hknown hdrawn) (by simp)
          | some new =>
              exact .of_ok (reassign_of_candidate hs.complete hfound hstatus hassigned hknown
                hdrawn)
        · exact .of_error (reassign_of_not_assigned hs.complete hfound hstatus hassigned)
            (by simp)

end Sound

end Store

/-! ## All operations -/

/-- In a sound store an operation answers or refuses. -/
theorem Operation.run_of_sound {s : Store} (hs : s.Sound) (op : Operation) (now : Instant)
    (w : Words) : (op.run now).AnswersOrRefuses ⟨s, w⟩ op.refusals := by
  cases op with
  | createTeam name members => exact (hs.createTeam w name members).map _
  | getTeam name => exact (hs.getTeam w name).map _
  | setActive user isActive => exact (hs.setActive w user isActive).map _
  | reviewsOf user => exact (hs.reviewsOf w user).map _
  | createPull id name author => exact (hs.createPull w now id name author).map _
  | mergePull id => exact (hs.mergePull w now id).map _
  | reassign id old => exact (hs.reassign w id old).map _
  | deactivate team => exact (hs.deactivate w team).map _
  | stats => exact (hs.stats w).map _

/-- **Only the caller is to blame.**  After every history from the empty store
every operation, whatever it is given and whatever it may draw, answers or
refuses for one of its causes.  None of them is an internal one, and a refusal
leaves the store and the stream of words as they were. -/
theorem Store.operations_answer_or_refuse (calls : List Call) (op : Operation) (now : Instant)
    (w : Words) :
    (∃ a o, op.run now ⟨after {} calls, w⟩ = .ok a o) ∨
      ∃ f ∈ op.refusals, f ≠ .internal ∧
        op.run now ⟨after {} calls, w⟩ = .error f ⟨after {} calls, w⟩ := by
  rcases op.run_of_sound (sound_after calls) now w with hanswer | ⟨f, hf, hrefusal⟩
  · exact .inl hanswer
  · refine .inr ⟨f, hf, ?_, hrefusal⟩
    intro hinternal
    exact op.internal_not_mem_refusals (hinternal ▸ hf)

end ReviewDesk
