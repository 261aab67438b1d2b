import ReviewDesk.Proofs.Listings
import ReviewDesk.Proofs.Refusals
import ReviewDesk.Proofs.StoredTimes

/-!
# What a user reviews

There are two ways to see who reviews what.  The reviewers of a pull request are the set of
users in its review rows; the reviews of a user are the pull requests joined with the rows of
that user.  Both say the same.  The join has one row for each matching review, so it takes two
keys to show no pull request twice: its own id, and the pair of pull request and user by which
a review is stored only once.

The list has the newest pull requests first, whatever their status.  The store may only be able
to put texts in order, and the written forms of times have fractions of three widths.  It is
the order of time all the same, as long as the years have four digits.

* `Sound.reviewedBy` — the list of a user is made of the joined rows, put in order;
* `Sound.reviews_are_listed` — it agrees with the sets of reviewers, and its order is that of
  time.
-/

namespace ReviewDesk

namespace Store

variable {s : Store}

/-- A list of what a user reviews, as the sets of reviewers tell it. -/
structure ListsReviewsOf (s : Store) (user : UserId) (pulls : List Pull) : Prop where
  /-- A pull request is listed, as it is stored, if the user is one of its reviewers, and only
  then. -/
  agrees : ∀ p : Pull, p ∈ pulls ↔
    p.stored ∈ s.pulls ∧ ∃ reviewers, s.reviewersOf p.id = .ok reviewers ∧ user ∈ reviewers
  /-- No row is left out because of its status. -/
  complete : ∀ row ∈ s.pulls, user ∈ s.reviewersIn row.id → row ∈ pulls.map Pull.stored
  once : (pulls.map (·.id)).Nodup
  /-- The newest come first. -/
  ordered : pulls.Pairwise fun p q =>
    q.createdAt < p.createdAt ∨ p.createdAt = q.createdAt ∧ p.id < q.id
  /-- So they do as texts. -/
  orderedAsTexts : (∀ p ∈ s.pulls, p.createdAt.IsReal) → pulls.Pairwise fun p q =>
    q.createdAt.storedChars < p.createdAt.storedChars ∨
      p.createdAt.storedChars = q.createdAt.storedChars ∧ p.id < q.id

/-- The rows that the list of a user is made of, in its order. -/
def reviewRowsOf (s : Store) (user : UserId) : List StoredPull :=
  arrange isListedBefore (s.reviewedRows user)

theorem mem_reviewRowsOf {user : UserId} {row : StoredPull} :
    row ∈ s.reviewRowsOf user ↔ row ∈ s.pulls ∧ user ∈ s.reviewersIn row.id := by
  rw [reviewRowsOf, (arrange_perm _ _).mem_iff, mem_reviewedRows, mem_reviewersIn]

/-- The join shows no pull request twice, since none is reviewed twice by one user. -/
theorem nodup_ids_reviewedRows (hs : s.Consistent) (user : UserId) :
    ((s.reviewedRows user).map (·.id)).Nodup := by
  rw [reviewedRows_eq hs.reviewKeys]
  exact nodup_keys_filter _ hs.pullKeys

theorem nodup_ids_reviewRowsOf (hs : s.Consistent) (user : UserId) :
    ((s.reviewRowsOf user).map (·.id)).Nodup :=
  ((arrange_perm _ _).map _).nodup_iff.2 (nodup_ids_reviewedRows hs user)

/-- Within the years of four digits the rows are in the order of time. -/
theorem reviewRowsOf_ordered (hs : s.Consistent)
    (hyears : ∀ p ∈ s.pulls, p.createdAt.HasPlainYear) (user : UserId) :
    (s.reviewRowsOf user).Pairwise fun p q =>
      q.createdAt < p.createdAt ∨ p.createdAt = q.createdAt ∧ p.id < q.id := by
  have hstrict := arrange_pulls_strict (nodup_ids_reviewedRows hs user)
  refine hstrict.imp_of_mem fun {p q} hp hq h => ?_
  have hplain : ∀ {p}, p ∈ s.reviewRowsOf user → p.createdAt.HasPlainYear := fun hp =>
    hyears _ (mem_reviewRowsOf.1 hp).1
  exact h.imp_left (Instant.storedLt_iff_lt (hplain hq) (hplain hp)).1

/-- In a sound store the list of a user is made of these rows. -/
theorem Sound.reviewedBy (hs : s.Sound) (user : UserId) :
    ∃ pulls, s.reviewedBy user = .ok pulls ∧ pulls.map Pull.stored = s.reviewRowsOf user := by
  have hreadable : ∀ p ∈ s.reviewRowsOf user, ∃ status : Status, p.status = status.text :=
    fun p hp => hs.readable p (mem_reviewRowsOf.1 hp).1
  obtain ⟨pulls, hrows⟩ := exists_readPulls hreadable
  refine ⟨pulls, ?_, (readPulls_eq_ok_iff.1 hrows).symm⟩
  exact reading_eq_ok.2 ⟨hs.has .pulls, reading_eq_ok.2 ⟨hs.has .reviews, hrows⟩⟩

/-- **A user finds all reviews, each once, and the newest first.**  In a sound store with times in
the years of four digits, the list of a user agrees with the reviewers of the pull requests. -/
theorem Sound.reviews_are_listed (hs : s.Sound)
    (hyears : ∀ p ∈ s.pulls, p.createdAt.HasPlainYear) (user : UserId) (w : Words) :
    ∃ pulls, Desk.reviewsOf user ⟨s, w⟩ = .ok pulls ⟨s, w⟩ ∧ s.ListsReviewsOf user pulls := by
  obtain ⟨pulls, hanswer, hrows⟩ := hs.reviewedBy user
  have hordered : pulls.Pairwise fun p q =>
      q.createdAt < p.createdAt ∨ p.createdAt = q.createdAt ∧ p.id < q.id := by
    have hstored := reviewRowsOf_ordered hs.consistent hyears user
    rw [← hrows, List.pairwise_map] at hstored
    exact hstored
  have hstored : ∀ p ∈ pulls, p.stored ∈ s.pulls := by
    intro p hp
    exact (mem_reviewRowsOf.1 (hrows ▸ List.mem_map_of_mem hp)).1
  refine ⟨pulls, Desk.ask_eq_ok.2 ⟨hanswer, rfl⟩, ?_⟩
  exact {
    agrees := by
      intro p
      have hset : s.reviewersOf p.id = .ok (s.reviewersIn p.id) :=
        reading_eq_ok.2 ⟨hs.has .reviews, rfl⟩
      calc p ∈ pulls ↔ p.stored ∈ pulls.map Pull.stored :=
            (List.mem_map_of_injective fun _ _ => Pull.stored_injective).symm
        _ ↔ p.stored ∈ s.pulls ∧ user ∈ s.reviewersIn p.id := by
            rw [hrows]
            exact mem_reviewRowsOf
        _ ↔ _ := by simp [hset]
    complete := fun row hrow hreviewer => hrows ▸ mem_reviewRowsOf.2 ⟨hrow, hreviewer⟩
    once := by
      have hids := nodup_ids_reviewRowsOf hs.consistent user
      rwa [← hrows, List.map_map] at hids
    ordered := hordered
    orderedAsTexts := by
      intro hreal
      refine hordered.imp_of_mem fun {p q} hp hq h => ?_
      have hlater := Instant.storedChars_lt_iff (hyears _ (hstored q hq)) (hyears _ (hstored p hp))
        (hreal _ (hstored q hq)) (hreal _ (hstored p hp))
      exact h.imp hlater.2 (And.imp_left (congrArg Instant.storedChars)) }

/-- Pull requests from within one second, two of them from the same instant. -/
def ofOneSecond : Store where
  teams := ["t"]
  users := [⟨"a", "A", "t", true⟩, ⟨"b", "B", "t", true⟩]
  pulls := [⟨"whole", "W", "a", "OPEN", ⟨951782400, 0⟩, none⟩,
    ⟨"milli", "M", "a", "MERGED", ⟨951782400, 500000000⟩, some ⟨951782401, 0⟩⟩,
    ⟨"nano", "N", "a", "OPEN", ⟨951782400, 500000001⟩, none⟩,
    ⟨"again", "A", "a", "OPEN", ⟨951782400, 500000000⟩, none⟩,
    ⟨"other", "O", "a", "OPEN", ⟨951782400, 999000000⟩, none⟩]
  reviews := [⟨"whole", "b"⟩, ⟨"milli", "b"⟩, ⟨"nano", "b"⟩, ⟨"again", "b"⟩]

theorem sound_ofOneSecond : ofOneSecond.Sound where
  complete := by decide
  consistent := by constructor <;> decide
  readable := by
    have hstatus : ∀ p ∈ ofOneSecond.pulls,
        p.status = Status.opened.text ∨ p.status = Status.merged.text := by decide
    exact fun p hp => (hstatus p hp).elim (⟨_, ·⟩) (⟨_, ·⟩)

/-- They are listed in the order of time although their fractions have nine digits, three or none,
and the one without reviewers is left out. -/
theorem ofOneSecond_listed :
    ∃ pulls, Desk.reviewsOf "b" ⟨ofOneSecond, default⟩ = .ok pulls ⟨ofOneSecond, default⟩ ∧
      ofOneSecond.ListsReviewsOf "b" pulls ∧
      pulls.map (·.id) = ["nano", "again", "milli", "whole"] := by
  have hyears : ∀ p ∈ ofOneSecond.pulls,
      0 ≤ p.createdAt.date.year ∧ p.createdAt.date.year ≤ 9999 := by decide
  obtain ⟨pulls, hanswer, hlists⟩ := sound_ofOneSecond.reviews_are_listed hyears "b" default
  have hids : ∃ l, Desk.reviewsOf "b" ⟨ofOneSecond, default⟩ = .ok l ⟨ofOneSecond, default⟩ ∧
      l.map (·.id) = ["nano", "again", "milli", "whole"] := ⟨_, rfl, rfl⟩
  obtain ⟨l, hsame, hids⟩ := hids
  cases hanswer.symm.trans hsame
  exact ⟨pulls, hanswer, hlists, hids⟩

end Store

end ReviewDesk
