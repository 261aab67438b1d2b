import ReviewDesk.Proofs.PullRows
import ReviewDesk.Proofs.ReviewRows

/-!
# What the answers tell

Somebody who sees nothing but the answers can keep a board of who reviews what.
A new pull request is put on it with the reviewers it was given; a replaced
reviewer makes room for the other one; and every slot in the report of a
deactivation is filled or dropped as the report says.  All other answers, and all
failures, are passed over.

Such a board is always right.  This needs of every operation that it reports
exactly the rows it writes, and of a report that its slots are really held, each
once, when their turn comes.  The second is said by `Board.Fits`: records that
fit a board change the number of reviewers by the dropped slots and nothing else.

* `Effect.read_board` — reading an answer takes the board to the new store;
* `Effect.fits` — the records in an answer fit the store before;
* `board_log`, `size_log` — the same along a history;
* `answers_tell_who_reviews` — from the empty store on.
-/

namespace ReviewDesk

/-! ## Boards -/

/-- Who reviews what, as far as somebody knows. -/
abbrev Board := PullId → Ascending UserId

/-- The records of reviewer slots in the answer to an operation. -/
def Answer.records : Operation → Answer → List Reassignment
  | .reassign id old, .reassigned a => [⟨id, old, some a.replacedBy⟩]
  | .deactivate _, .deactivation d => d.reassignments
  | _, _ => []

namespace Board

/-- A board on which nothing stands. -/
def blank : Board := fun _ => ∅

/-- The board with other reviewers of a pull request. -/
def put (b : Board) (pull : PullId) (reviewers : Ascending UserId) : Board :=
  fun id => if id = pull then reviewers else b id

/-- The board after a slot was filled or dropped. -/
def record (b : Board) (r : Reassignment) : Board :=
  b.put r.pull (Plan.settle (b r.pull) r.old r.replacement)

/-- The board after the answer to an operation. -/
def read (b : Board) : Operation × Answer → Board
  | (.createPull id _ _, .pull r) => b.put id r.reviewers
  | (op, a) => (Answer.records op a).foldl record b

/-- The board that a list of answers leads to. -/
def ofLog (log : List (Operation × Answer)) : Board := log.foldl read blank

variable (b : Board)

theorem put_self (pull : PullId) (reviewers : Ascending UserId) :
    b.put pull reviewers pull = reviewers :=
  if_pos rfl

theorem put_other {pull id : PullId} (h : id ≠ pull) (reviewers : Ascending UserId) :
    b.put pull reviewers id = b id :=
  if_neg h

/-- Dropped slots are taken off the board, and nothing else is. -/
theorem mem_foldl_record {l : List Reassignment} (hdrops : ∀ r ∈ l, r.replacement = none)
    {id : PullId} {user : UserId} :
    user ∈ l.foldl record b id ↔ user ∈ b id ∧ ⟨id, user, none⟩ ∉ l := by
  induction l generalizing b with
  | nil => simp
  | cons r rest ih =>
      have hrest := ih (b.record r) fun t ht => hdrops t (List.mem_cons_of_mem r ht)
      have hdrop : r.replacement = none := hdrops r List.mem_cons_self
      have hfirst : user ∈ b.record r id ↔ user ∈ b id ∧ ⟨id, user, none⟩ ≠ r := by
        obtain ⟨pull, old, replacement⟩ := r
        obtain rfl : replacement = none := hdrop
        by_cases hid : id = pull
        · subst hid
          simp [record, put, Plan.settle]
        · simp [record, put, hid]
      rw [List.foldl_cons, hrest, hfirst, List.mem_cons, not_or, and_assoc]

/-! ## Counting -/

/-- Whether a record drops a slot of this pull request. -/
def drops (id : PullId) (r : Reassignment) : Bool := r.pull = id ∧ r.replacement = none

/-- Each record is of a slot that is held when its turn comes, and its replacement
does not review the pull request yet. -/
def Fits : Board → List Reassignment → Prop
  | _, [] => True
  | b, r :: rest =>
    (r.old ∈ b r.pull ∧ ∀ new, r.replacement = some new → new ∉ b r.pull) ∧ Fits (b.record r) rest

variable {b}

/-- Only a dropped slot makes a pull request lose a reviewer. -/
theorem size_record {r : Reassignment} (held : r.old ∈ b r.pull)
    (fresh : ∀ new, r.replacement = some new → new ∉ b r.pull) (id : PullId) :
    (b.record r id).size + (if drops id r then 1 else 0) = (b id).size := by
  have herase := Ascending.size_erase held
  by_cases hid : id = r.pull
  · subst hid
    rw [record, put_self]
    cases hreplacement : r.replacement with
    | none => simpa [drops, Plan.settle, hreplacement] using herase
    | some new =>
        have hnew : new ∉ (b r.pull).erase r.old := fun hmem =>
          fresh new hreplacement (Ascending.mem_erase.1 hmem).1
        have hinsert := Ascending.size_insert hnew
        have hfilled : drops r.pull r = false := by simp [drops, hreplacement]
        rw [Plan.settle, hfilled, if_neg Bool.false_ne_true]
        omega
  · have hother : drops id r = false := by simp [drops, Ne.symm hid]
    rw [record, put_other b hid, hother]
    rfl

theorem size_foldl_record {l : List Reassignment} (hfits : b.Fits l) (id : PullId) :
    (l.foldl record b id).size + l.countP (drops id) = (b id).size := by
  induction l generalizing b with
  | nil => rfl
  | cons r rest ih =>
      obtain ⟨⟨held, fresh⟩, hrest⟩ := hfits
      have hfirst := size_record held fresh id
      have hlater := ih hrest
      rw [List.foldl_cons, List.countP_cons]
      omega

/-- Slots that are all held, each listed once, can be dropped one after the
other. -/
theorem fits_of_drops {l : List Reassignment} (hdrops : ∀ r ∈ l, r.replacement = none)
    (held : ∀ r ∈ l, r.old ∈ b r.pull) (distinct : l.Nodup) : b.Fits l := by
  induction l generalizing b with
  | nil => trivial
  | cons r rest ih =>
      obtain ⟨hnotMem, hdistinct⟩ := List.nodup_cons.1 distinct
      have hdrop : r.replacement = none := hdrops r List.mem_cons_self
      refine ⟨⟨held r List.mem_cons_self, fun new hnew => ?_⟩, ih ?_ ?_ hdistinct⟩
      · rw [hdrop] at hnew
        cases hnew
      · exact fun t ht => hdrops t (List.mem_cons_of_mem r ht)
      · intro t ht
        have hone : t.old ∈ [r].foldl record b t.pull ↔
            t.old ∈ b t.pull ∧ ⟨t.pull, t.old, none⟩ ∉ [r] :=
          mem_foldl_record b fun u hu => List.mem_singleton.1 hu ▸ hdrop
        refine hone.2 ⟨held t (List.mem_cons_of_mem r ht), fun hmem => ?_⟩
        have hsame : t = r := by
          rw [← List.mem_singleton.1 hmem, ← hdrops t (List.mem_cons_of_mem r ht)]
        exact hnotMem (hsame ▸ ht)

end Board

/-! ## One answer -/

namespace Store

variable {s : Store}

theorem reviewersIn_withPull (p : StoredPull) (reviewers : List UserId) {id : PullId}
    (hid : id ≠ p.id) : (s.withPull p reviewers).reviewersIn id = s.reviewersIn id := by
  refine Ascending.ext fun user => ?_
  simp only [mem_reviewersIn, withPull, List.mem_append, List.mem_map, Review.mk.injEq]
  constructor
  · rintro (hold | ⟨_, -, heq, -⟩)
    · exact hold
    · exact absurd heq.symm hid
  · exact .inl

/-- The store in which a slot was filled or dropped. -/
def settled (s : Store) (r : Reassignment) : Store :=
  { s with
    reviews := s.reviews.filter (· ≠ ⟨r.pull, r.old⟩) ++ r.replacement.toList.map (⟨r.pull, ·⟩) }

/-- Settling a slot takes out no other review. -/
theorem mem_settled {r : Review} {slot : Reassignment} (hr : r ∈ s.reviews)
    (hne : r ≠ ⟨slot.pull, slot.old⟩) : r ∈ (s.settled slot).reviews :=
  List.mem_append_left _ (List.mem_filter.2 ⟨hr, decide_eq_true hne⟩)

/-- Settling a slot does to the stored reviewers what its record does to those on
a board. -/
theorem reviewersIn_settled (r : Reassignment) :
    (s.settled r).reviewersIn = Board.record s.reviewersIn r := by
  obtain ⟨pull, old, replacement⟩ := r
  funext id
  refine Ascending.ext fun user => ?_
  by_cases hid : id = pull
  · subst hid
    rw [Board.record, Board.put_self]
    cases replacement with
    | none => simp [mem_reviewersIn, settled, Plan.settle]
    | some new =>
        simp only [mem_reviewersIn, settled, Plan.settle, Ascending.mem_insert,
          Ascending.mem_erase, List.mem_append, List.mem_filter, Option.toList_some,
          List.map_singleton, List.mem_singleton, Review.mk.injEq, true_and,
          decide_eq_true_eq, ne_eq]
        exact or_comm
  · rw [Board.record, Board.put_other _ hid]
    cases replacement <;> simp [mem_reviewersIn, settled, hid]

/-- Retired users keep exactly the slots that were not dropped. -/
theorem mem_reviewersIn_retire {d : Deactivation} {team : TeamName} (h : d.DropsSlotsOf s team)
    {id : PullId} {user : UserId} :
    user ∈ (s.retire d.deactivated).reviewersIn id ↔
      user ∈ s.reviewersIn id ∧ ⟨id, user, none⟩ ∉ d.reassignments := by
  rw [mem_reviewersIn, mem_reviewersIn, h.slots, ← isOpenPull_iff, retire, List.mem_filter,
    decide_eq_true_eq]
  refine and_congr_right fun hreview => not_congr ?_
  exact ⟨fun hdropped => ⟨rfl, hdropped.1, hreview, hdropped.2⟩, fun hslot =>
    ⟨hslot.2.1, hslot.2.2.2⟩⟩

end Store

theorem Deactivation.DropsSlotsOf.nodup {d : Deactivation} {s : Store} {team : TeamName}
    (h : d.DropsSlotsOf s team) : d.reassignments.Nodup := by
  refine h.ascends.imp fun {r t} hbefore heq => ?_
  subst heq
  rcases hbefore with hpull | ⟨-, hold⟩
  · exact String.lt_irrefl _ hpull
  · exact String.lt_irrefl _ hold

namespace Effect

open Board

variable {now : Instant} {s s' : Store} {op : Operation} {a : Answer}

/-- Reading an answer takes a board that is right to one that is right again. -/
theorem read_board (h : Effect now s op a s') : read s.reviewersIn (op, a) = s'.reviewersIn := by
  cases h with
  | @createPull id name author reviewers r _ _ _ _ _ _ shown =>
      funext other
      by_cases hid : other = id
      · subst hid
        exact (put_self s.reviewersIn other r.reviewers).trans shown.reviewers
      · refine (put_other s.reviewersIn hid r.reviewers).trans ?_
        exact (Store.reviewersIn_withPull _ reviewers hid).symm
  | @reassign id old new => exact (Store.reviewersIn_settled ⟨id, old.id, some new⟩).symm
  | @deactivate team d _ drops =>
      have hdrops : ∀ r ∈ d.reassignments, r.replacement = none := fun r hr =>
        ((drops.slots r).1 hr).1
      funext id
      refine Ascending.ext fun user => ?_
      rw [Store.mem_reviewersIn_retire drops]
      exact mem_foldl_record s.reviewersIn hdrops
  | _ => rfl

/-- The records in an answer fit the board before it. -/
theorem fits (h : Effect now s op a s') : Fits s.reviewersIn (a.records op) := by
  cases h with
  | @reassign id old new _ _ _ _ assigned _ _ _ fresh =>
      refine ⟨⟨Store.mem_reviewersIn.2 assigned, fun user huser => ?_⟩, trivial⟩
      obtain rfl := Option.some.inj huser
      exact fun hmem => fresh (Store.mem_reviewersIn.1 hmem)
  | @deactivate team d _ drops =>
      refine fits_of_drops (fun r hr => ((drops.slots r).1 hr).1) (fun r hr => ?_) drops.nodup
      obtain ⟨-, -, hreview, -⟩ := (drops.slots r).1 hr
      exact Store.mem_reviewersIn.2 hreview
  | _ => trivial

/-- An answer speaks of slots of pull requests that were there. -/
theorem isPull_of_mem_records (h : Effect now s op a s') {r : Reassignment}
    (hr : r ∈ a.records op) : r.pull ∈ s.pulls.map (·.id) := by
  cases h with
  | @reassign id old new p _ found =>
      obtain rfl := List.mem_singleton.1 hr
      exact List.mem_map.2 ⟨p.stored, mem_of_find?_key found⟩
  | @deactivate team d _ drops =>
      obtain ⟨-, -, -, p, hp, hid, -⟩ := (drops.slots r).1 hr
      exact List.mem_map.2 ⟨p, hp, hid⟩
  | _ => exact absurd hr List.not_mem_nil

theorem countP_drops_eq_zero (h : Effect now s op a s') {id : PullId}
    (hnew : id ∉ s.pulls.map (·.id)) : (a.records op).countP (drops id) = 0 := by
  refine List.countP_eq_zero.2 fun r hr hdrops => ?_
  obtain ⟨hid, -⟩ := of_decide_eq_true hdrops
  exact hnew (hid ▸ h.isPull_of_mem_records hr)

/-- A pull request that was there loses one reviewer with each dropped slot. -/
theorem size_reviewersIn (h : Effect now s op a s') {id : PullId}
    (hid : id ∈ s.pulls.map (·.id)) :
    (s'.reviewersIn id).size + (a.records op).countP (drops id) = (s.reviewersIn id).size := by
  rw [← h.read_board, ← size_foldl_record h.fits id]
  cases h with
  | @createPull new name author reviewers r isNew =>
      have hne : id ≠ new := fun heq =>
        Store.isPull_eq_false_iff.1 isNew (heq ▸ hid)
      exact congrArg (fun b => Ascending.size b + 0) (put_other s.reviewersIn hne r.reviewers)
  | _ => rfl

/-- An opened pull request is new, and its answer shows the reviewers it has then. -/
theorem shown_of_opened {id : PullId} {name : String} {author : UserId} {r : PullRequest}
    (h : Effect now s (.createPull id name author) (.pull r) s') :
    id ∉ s.pulls.map (·.id) ∧ id ∈ s'.pulls.map (·.id) ∧ r.reviewers = s'.reviewersIn id := by
  cases h with
  | createPull isNew _ _ _ _ _ shown =>
      refine ⟨Store.isPull_eq_false_iff.1 isNew, ?_, shown.reviewers⟩
      exact List.mem_map.2 ⟨_, mem_of_find?_key shown.found⟩

end Effect

/-! ## The log of a history -/

namespace Store

/-- The operations of a history that answer, each with its answer. -/
def log (s : Store) : List Call → List (Operation × Answer)
  | [] => []
  | c :: later =>
    match c.answer? s with
    | none => log (c.next s) later
    | some a => (c.op, a) :: log (c.next s) later

/-- How many records in a log drop a slot of a pull request. -/
def droppedIn (log : List (Operation × Answer)) (id : PullId) : Nat :=
  (log.flatMap fun e => e.2.records e.1).countP (Board.drops id)

theorem droppedIn_cons (op : Operation) (a : Answer) (log : List (Operation × Answer))
    (id : PullId) :
    droppedIn ((op, a) :: log) id = (a.records op).countP (Board.drops id) + droppedIn log id := by
  rw [droppedIn, List.flatMap_cons, List.countP_append]
  rfl

variable {s : Store}

/-- What a history answers begins with its first call. -/
theorem log_cons_cases (c : Call) (later : List Call) :
    (c.next s = s ∧ s.log (c :: later) = s.log later) ∨
      ∃ a, Effect c.now s c.op a (c.next s) ∧
        s.log (c :: later) = (c.op, a) :: (c.next s).log later := by
  cases hanswer : c.answer? s with
  | none =>
      have hsame := Call.next_of_answer?_eq_none hanswer
      exact .inl ⟨hsame, by simp only [log, hanswer, hsame]⟩
  | some a => exact .inr ⟨a, Call.effect_of_answer? hanswer, by simp only [log, hanswer]⟩

theorem after_cons (c : Call) (later : List Call) :
    s.after (c :: later) = (c.next s).after later :=
  rfl

/-- Along a history a board that is right at first stays right. -/
theorem board_log (calls : List Call) :
    (s.log calls).foldl Board.read s.reviewersIn = (s.after calls).reviewersIn := by
  induction calls generalizing s with
  | nil => rfl
  | cons c later ih =>
      rcases log_cons_cases c later with ⟨hsame, hlog⟩ | ⟨a, heffect, hlog⟩
      · rw [hlog, after_cons, hsame]
        exact ih
      · rw [hlog, after_cons, List.foldl_cons, heffect.read_board]
        exact ih

/-- A pull request that is there at first loses one reviewer with each dropped
slot. -/
theorem size_log {id : PullId} (hid : id ∈ s.pulls.map (·.id)) (calls : List Call) :
    ((s.after calls).reviewersIn id).size + droppedIn (s.log calls) id
      = (s.reviewersIn id).size := by
  induction calls generalizing s with
  | nil => rfl
  | cons c later ih =>
      rcases log_cons_cases c later with ⟨hsame, hlog⟩ | ⟨a, heffect, hlog⟩
      · rw [hlog, after_cons, hsame]
        exact ih hid
      · have hfirst := heffect.size_reviewersIn hid
        have hlater := ih (heffect.pullIds_subset hid)
        rw [hlog, after_cons, droppedIn_cons]
        omega

/-- A pull request that a history opens starts with the reviewers in the answer
and loses one with each dropped slot. -/
theorem size_log_of_opened {calls : List Call} {id : PullId} {name : String} {author : UserId}
    {r : PullRequest} (h : (.createPull id name author, .pull r) ∈ s.log calls) :
    id ∉ s.pulls.map (·.id) ∧
      ((s.after calls).reviewersIn id).size + droppedIn (s.log calls) id = r.reviewers.size := by
  induction calls generalizing s with
  | nil => cases h
  | cons c later ih =>
      rcases log_cons_cases c later with ⟨hsame, hlog⟩ | ⟨a, heffect, hlog⟩
      · rw [hlog] at h ⊢
        rw [after_cons, hsame]
        exact ih h
      · rw [hlog] at h ⊢
        rw [after_cons, droppedIn_cons]
        rcases List.mem_cons.1 h with hfirst | hlater
        · obtain ⟨hop, rfl⟩ := Prod.mk.inj hfirst
          rw [← hop] at heffect ⊢
          obtain ⟨hnew, hid, hshown⟩ := heffect.shown_of_opened
          have hsize := size_log hid later
          have hnone := heffect.countP_drops_eq_zero hnew
          rw [hshown]
          exact ⟨hnew, by omega⟩
        · obtain ⟨hnotYet, hsize⟩ := ih hlater
          have hnew : id ∉ s.pulls.map (·.id) := fun hid =>
            hnotYet (heffect.pullIds_subset hid)
          have hnone := heffect.countP_drops_eq_zero hnew
          exact ⟨hnew, by omega⟩

/-- Every pull request was there at first or is opened by an answer in the log. -/
theorem opened_of_mem_after {calls : List Call} {id : PullId}
    (hid : id ∈ (s.after calls).pulls.map (·.id)) (hnew : id ∉ s.pulls.map (·.id)) :
    ∃ name author r, (.createPull id name author, .pull r) ∈ s.log calls := by
  induction calls generalizing s with
  | nil => exact absurd hid hnew
  | cons c later ih =>
      rcases log_cons_cases c later with ⟨hsame, hlog⟩ | ⟨a, heffect, hlog⟩
      · rw [after_cons, hsame] at hid
        rw [hlog]
        exact ih hid hnew
      · rw [after_cons] at hid
        rw [hlog]
        by_cases hnow : id ∈ (c.next s).pulls.map (·.id)
        · obtain ⟨name, author, r, hop, rfl⟩ := heffect.opened_of_new hnow hnew
          exact ⟨name, author, r, hop ▸ List.mem_cons_self⟩
        · obtain ⟨name, author, r, hmem⟩ := ih hid hnow
          exact ⟨name, author, r, List.mem_cons_of_mem _ hmem⟩

/-- In a consistent store a pull request has as many reviewers as review rows. -/
theorem reviewerCount_eq_size (hs : s.Consistent) (id : PullId) :
    s.reviewerCount id = (s.reviewersIn id).size := by
  have hrows : (s.reviews.filter (·.pull = id)).Nodup := hs.reviewKeys.filter _
  have hdistinct : ((s.reviews.filter (·.pull = id)).map (·.user)).Nodup := by
    refine List.pairwise_map.2 (hrows.imp_of_mem ?_)
    intro r t hr ht hne heq
    have hpull : r.pull = t.pull := by
      rw [of_decide_eq_true (List.mem_filter.1 hr).2, of_decide_eq_true (List.mem_filter.1 ht).2]
    obtain ⟨rp, ru⟩ := r
    obtain ⟨tp, tu⟩ := t
    exact hne (Review.mk.injEq .. ▸ ⟨hpull, heq⟩)
  rw [reviewersIn, Ascending.size_ofList hdistinct, List.length_map, reviewerCount,
    List.countP_eq_length_filter]

/-- **The answers tell who reviews.**  After every history from the empty store,
the board that its answers lead to shows exactly the stored reviewers of every
pull request.  Each pull request was opened by an answer, and it has as many
reviewers as that answer gave it less the slots that were reported as dropped. -/
theorem answers_tell_who_reviews (calls : List Call) :
    (∀ id, Board.ofLog (log {} calls) id = (after {} calls).reviewersIn id) ∧
    (∀ p ∈ (after {} calls).pulls, ∃ name author r,
      (.createPull p.id name author, .pull r) ∈ log {} calls) ∧
    (∀ id name author r, (.createPull id name author, .pull r) ∈ log {} calls →
      (after {} calls).reviewerCount id + droppedIn (log {} calls) id = r.reviewers.size) := by
  refine ⟨fun id => ?_, fun p hp => ?_, fun id name author r h => ?_⟩
  · exact congrFun (board_log (s := {}) calls) id
  · exact opened_of_mem_after (List.mem_map_of_mem hp) List.not_mem_nil
  · rw [reviewerCount_eq_size (consistent_after (consistent_empty _ _ _) calls)]
    exact (size_log_of_opened h).2

end Store

/-- One of two reviewers moves to a team that is deactivated, and the other one is
replaced. -/
def Call.aDrop : List Call :=
  Call.aReview ++
    [⟨.createTeam "x" [⟨"d", "D", true⟩], ⟨3, 0⟩, default⟩,
      ⟨.deactivate "x", ⟨4, 0⟩, default⟩,
      ⟨.reassign "p" "c", ⟨5, 0⟩, default⟩]

/-- The board shows the one reviewer who is left. -/
theorem Store.aDrop_told :
    (after {} Call.aDrop).reviewersIn "p" = .ofList ["b"] ∧
    Board.ofLog (log {} Call.aDrop) "p" = .ofList ["b"] ∧
    ∃ name author r, (.createPull "p" name author, .pull r) ∈ log {} Call.aDrop ∧
      (after {} Call.aDrop).reviewerCount "p" + 1 = r.reviewers.size := by
  have hstored : (after {} Call.aDrop).reviewersIn "p" = .ofList ["b"] := by decide
  have hdropped : droppedIn (log {} Call.aDrop) "p" = 1 := by decide
  have hpull : ⟨"p", "P", "a", "OPEN", ⟨2, 0⟩, none⟩ ∈ (after {} Call.aDrop).pulls := by decide
  obtain ⟨hboard, hopened, hcount⟩ := answers_tell_who_reviews Call.aDrop
  obtain ⟨name, author, r, hr⟩ := hopened _ hpull
  have hsize := hcount "p" name author r hr
  rw [hdropped] at hsize
  exact ⟨hstored, (hboard "p").trans hstored, name, author, r, hr, hsize⟩

end ReviewDesk
