import ReviewDesk.Proofs.Consistency

/-!
# How reviewers come and go

A review comes in at two places only: with the pull request itself, or in the
place of another reviewer.  Both times the store of that moment decides who may
come: somebody active in the team of the author, or in the present team of the
reviewer who leaves, which may be another one.  A review goes when its user is
replaced, or when the team of its user is deactivated and the pull request is
still open.

* `Effect.enters`, `Effect.leaves` — why an effect adds a review or takes one out;
* `reviews_come_and_go` — what a single step of a history does to the reviews.
-/

namespace ReviewDesk

namespace Store

/-- The user is active in the team. -/
def IsActiveIn (s : Store) (team : TeamName) (user : UserId) : Prop :=
  ∃ u ∈ s.users, u.id = user ∧ u.team = team ∧ u.isActive = true

/-- The pull request is open and has this author. -/
def IsOpenBy (s : Store) (pull : PullId) (author : UserId) : Prop :=
  ∃ p ∈ s.pulls, p.id = pull ∧ p.author = author ∧ p.status = Status.opened.text

/-- Why a review comes in with an operation, told by the store before. -/
inductive Enters (s : Store) (r : Review) : Operation → Prop
  /-- The pull request is opened by somebody of the same team. -/
  | opening {name : String} {author : User} (isAuthor : author ∈ s.users)
      (active : s.IsActiveIn author.team r.user) (notAuthor : r.user ≠ author.id) :
      s.Enters r (.createPull r.pull name author.id)
  /-- Another reviewer of the same team leaves the place. -/
  | replacing {old : User} {author : UserId} (isUser : old ∈ s.users)
      (assigned : ⟨r.pull, old.id⟩ ∈ s.reviews) (opened : s.IsOpenBy r.pull author)
      (active : s.IsActiveIn old.team r.user) (notAuthor : r.user ≠ author)
      (fresh : r ∉ s.reviews) :
      s.Enters r (.reassign r.pull old.id)

/-- Why a review goes out with an operation, told by the store before. -/
inductive Leaves (s : Store) (r : Review) : Operation → Prop
  | replaced : s.Leaves r (.reassign r.pull r.user)
  /-- The team of an active reviewer is deactivated. -/
  | deactivated {team : TeamName} {author : UserId} (active : s.IsActiveIn team r.user)
      (opened : s.IsOpenBy r.pull author) : s.Leaves r (.deactivate team)

theorem isOpenBy_of_found {s : Store} {id : PullId} {p : Pull}
    (found : s.pulls.find? (·.id = id) = some p.stored) (opened : p.status = .opened) :
    s.IsOpenBy id p.author := by
  obtain ⟨hrow, hid⟩ := mem_of_find?_key found
  refine ⟨p.stored, hrow, hid, rfl, ?_⟩
  rw [Pull.stored, opened]

end Store

/-- Whether an operation may change who reviews what. -/
def Operation.movesReviewers : Operation → Bool
  | createPull _ _ _ | reassign _ _ | deactivate _ => true
  | _ => false

namespace Effect

variable {now : Instant} {s s' : Store} {op : Operation} {a : Answer}

theorem reviews_eq (h : Effect now s op a s') (hkeeps : op.movesReviewers = false) :
    s'.reviews = s.reviews := by
  cases h with
  | createPull => cases hkeeps
  | reassign => cases hkeeps
  | deactivate => cases hkeeps
  | _ => rfl

theorem enters (h : Effect now s op a s') {r : Review} (hr : r ∈ s'.reviews)
    (hnew : r ∉ s.reviews) : s.Enters r op := by
  cases h with
  | @createPull id name author reviewers _ _ found _ _ pool =>
      rcases List.mem_append.1 hr with hold | hadded
      · exact absurd hold hnew
      · obtain ⟨user, huser, rfl⟩ := List.mem_map.1 hadded
        obtain ⟨hactive, hother⟩ := pool user huser
        exact .opening (List.mem_of_find?_eq_some found) (Store.mem_activeIn.1 hactive) hother
  | @reassign id old new p _ found opened assigned known pool notAuthor =>
      rcases List.mem_append.1 hr with hold | hadded
      · exact absurd (List.mem_filter.1 hold).1 hnew
      · obtain rfl := List.mem_singleton.1 hadded
        exact .replacing (List.mem_of_find?_eq_some known) assigned
          (Store.isOpenBy_of_found found opened) (Store.mem_activeIn.1 pool) notAuthor hnew
  | deactivate => exact absurd (List.mem_filter.1 hr).1 hnew
  | _ => exact absurd hr hnew

theorem leaves (h : Effect now s op a s') {r : Review} (hr : r ∈ s.reviews)
    (hgone : r ∉ s'.reviews) : s.Leaves r op := by
  cases h with
  | createPull => exact absurd (List.mem_append_left _ hr) hgone
  | @reassign id old =>
      by_cases hold : r = ⟨id, old.id⟩
      · subst hold
        exact .replaced
      · have hstays : r ∈ s.reviews.filter (· ≠ ⟨id, old.id⟩) :=
          List.mem_filter.2 ⟨hr, decide_eq_true hold⟩
        exact absurd (List.mem_append_left _ hstays) hgone
  | @deactivate team d _ drops =>
      have hdropped : r.user ∈ d.deactivated ∧ s.isOpenPull r.pull = true := by
        apply Decidable.byContradiction
        intro hnot
        exact hgone (List.mem_filter.2 ⟨hr, decide_eq_true hnot⟩)
      obtain ⟨p, hp, hid, hopened⟩ := Store.isOpenPull_iff.1 hdropped.2
      exact .deactivated ((drops.members r.user).1 hdropped.1) ⟨p, hp, hid, rfl, hopened⟩
  | _ => exact absurd hr hgone

end Effect

/-- **How reviewers come and go.**  Take any history from the empty store and any
further call.  A review comes in only if the call answers and opens the pull
request or replaces one of its reviewers, and the user may come; it goes out only
if the call answers and replaces the user there or deactivates the team of that
active user while the pull request is open.  A call that fails, or is no such
operation, leaves all reviews in place. -/
theorem Store.reviews_come_and_go (calls : List Call) (c : Call) :
    (∀ r ∈ (c.next (after {} calls)).reviews, r ∉ (after {} calls).reviews →
      (c.answer? (after {} calls)).isSome ∧ (after {} calls).Enters r c.op) ∧
    (∀ r ∈ (after {} calls).reviews, r ∉ (c.next (after {} calls)).reviews →
      (c.answer? (after {} calls)).isSome ∧ (after {} calls).Leaves r c.op) ∧
    (c.answer? (after {} calls) = none ∨ c.op.movesReviewers = false →
      (c.next (after {} calls)).reviews = (after {} calls).reviews) := by
  cases hanswer : c.answer? (after {} calls) with
  | none =>
      rw [Call.next_of_answer?_eq_none hanswer]
      exact ⟨fun r hr hnew => absurd hr hnew, fun r hr hgone => absurd hr hgone, fun _ => rfl⟩
  | some a =>
      have heffect := Call.effect_of_answer? hanswer
      refine ⟨fun r hr hnew => ⟨rfl, heffect.enters hr hnew⟩,
        fun r hr hgone => ⟨rfl, heffect.leaves hr hgone⟩, fun h => ?_⟩
      rcases h with hfailed | hkeeps
      · cases hfailed
      · exact heffect.reviews_eq hkeeps

/-- A team of four, and a pull request that two of them review. -/
def Call.aReview : List Call :=
  [⟨.createTeam "t" [⟨"a", "A", true⟩, ⟨"b", "B", true⟩, ⟨"c", "C", true⟩, ⟨"d", "D", true⟩],
      ⟨1, 0⟩, default⟩,
    ⟨.createPull "p" "P" "a", ⟨2, 0⟩, default⟩]

/-- One reviewer is replaced by the fourth of the team. -/
theorem Store.aReview_comes_and_goes :
    let before := after {} Call.aReview
    let swap : Call := ⟨.reassign "p" "c", ⟨3, 0⟩, default⟩
    (⟨"p", "b"⟩ ∈ (swap.next before).reviews ∧ ⟨"p", "b"⟩ ∉ before.reviews ∧
      before.Enters ⟨"p", "b"⟩ (.reassign "p" "c")) ∧
    ⟨"p", "c"⟩ ∈ before.reviews ∧ ⟨"p", "c"⟩ ∉ (swap.next before).reviews ∧
    before.Leaves ⟨"p", "c"⟩ (.reassign "p" "c") := by
  intro before swap
  have hcame : ⟨"p", "b"⟩ ∈ (swap.next before).reviews ∧ ⟨"p", "b"⟩ ∉ before.reviews := by decide
  have hwent : ⟨"p", "c"⟩ ∈ before.reviews ∧ ⟨"p", "c"⟩ ∉ (swap.next before).reviews := by decide
  obtain ⟨henters, hleaves, -⟩ := reviews_come_and_go Call.aReview swap
  exact ⟨⟨hcame.1, hcame.2, (henters _ hcame.1 hcame.2).2⟩, hwent.1, hwent.2,
    (hleaves _ hwent.1 hwent.2).2⟩

end ReviewDesk
