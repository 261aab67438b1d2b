import ReviewDesk.Proofs.Deliveries
import ReviewDesk.Proofs.Repairs
import ReviewDesk.Schema.Migration

/-!
# Lengths of stored texts

The migrations declare columns of 255 characters for names and ids, and the storage
does not look at the length of what is put there.  It is the requests that keep to it.  A
text gets into a row in one of three ways: an order brings it, whose texts were measured
when it was read; it was in another row before; or it is the key of a row that is referred
to.  So it is enough to follow five of the nine columns along the orders
(`Effect.keepsLengths`), and the others hold what these hold.

No text is empty either.  Therefore the empty replacement in the record of a dropped slot
is never taken for a user.

* `accepts_of_acceptsBytes` — who counts bytes allows no more than who counts characters;
* `labels_eq_layout` — which columns have that width;
* `length_of_mem_labels` — what is stored there keeps the limits;
* `texts_fit_their_columns` — both along all requests.
-/

namespace ReviewDesk

open Http

/-! ## Characters and bytes -/

/-- Every character has at least one byte. -/
theorem length_le_utf8ByteSize (s : String) : s.length ≤ s.utf8ByteSize := by
  have hchars : ∀ cs : List Char, cs.length ≤ (String.ofList cs).utf8ByteSize := by
    intro cs
    induction cs with
    | nil => exact Nat.zero_le _
    | cons c rest ih =>
        have hc := c.utf8Size_pos
        rw [String.ofList_cons, String.utf8ByteSize_append, String.utf8ByteSize_singleton,
          List.length_cons]
        omega
  have h := hchars s.toList
  rwa [String.ofList_toList, String.length_toList] at h

namespace Http.LengthRule

theorem length_of_accepts {s : String} (h : accepts s = true) : 1 ≤ s.length ∧ s.length ≤ 255 := by
  obtain ⟨hfirst, hlast⟩ := Bool.and_eq_true_iff.1 h
  exact ⟨of_decide_eq_true hfirst, of_decide_eq_true hlast⟩

/-- A text that is short and not empty by its bytes is so by its characters. -/
theorem accepts_of_acceptsBytes {s : String} (h : acceptsBytes s = true) : accepts s = true := by
  obtain ⟨hfirst, hlast⟩ : 1 ≤ s.utf8ByteSize ∧ s.utf8ByteSize ≤ limit := by
    simpa [acceptsBytes] using h
  have hle := length_le_utf8ByteSize s
  have hpos : 1 ≤ s.length := by
    rcases Nat.eq_zero_or_pos s.length with hzero | hpos
    · rw [String.length_eq_zero_iff.1 hzero] at hfirst
      exact absurd hfirst (by decide)
    · exact hpos
  simp only [accepts, Bool.and_eq_true, decide_eq_true_eq]
  exact ⟨hpos, Nat.le_trans hle hlast⟩

end Http.LengthRule

/-! ## Texts that orders bring -/

open LengthRule (length_of_accepts accepts_of_acceptsBytes)

/-- The texts of rows that are no references keep the length rules. -/
structure Store.KeepsLengths (s : Store) : Prop where
  teamNames : ∀ name ∈ s.teams, LengthRule.accepts name = true
  users : ∀ u ∈ s.users, LengthRule.acceptsBytes u.id = true ∧ LengthRule.acceptsBytes u.name = true
  pulls : ∀ p ∈ s.pulls, LengthRule.accepts p.id = true ∧ LengthRule.accepts p.name = true

theorem Store.keepsLengths_empty : KeepsLengths {} := by
  constructor <;> exact fun _ h => (List.not_mem_nil h).elim

/-- What an order does keeps the length rules. -/
theorem Effect.keepsLengths {r : Request} {op : Operation} {status : Nat} {name : Option String}
    {now : Instant} {s s' : Store} {a : Answer} (ho : r.Orders op status name)
    (h : Effect now s op a s') (hs : s.KeepsLengths) : s'.KeepsLengths := by
  have hkept : ∀ {change : User → User}, (∀ u, (change u).id = u.id ∧ (change u).name = u.name) →
      ∀ u ∈ s.users.map change,
        LengthRule.acceptsBytes u.id = true ∧ LengthRule.acceptsBytes u.name = true := by
    intro change hchange u hu
    obtain ⟨v, hv, rfl⟩ := List.mem_map.1 hu
    rw [(hchange v).1, (hchange v).2]
    exact hs.users v hv
  cases h with
  | getTeam => exact hs
  | reviewsOf => exact hs
  | stats => exact hs
  | keepActive => exact hs
  | keepMerged => exact hs
  | reassign => exact { hs with }
  | createTeam =>
      cases ho with
      | addTeam _ nameLength memberLengths =>
          refine { hs with teamNames := ?_, users := ?_ }
          · intro name hname
            rcases List.mem_append.1 hname with hold | hadded
            · exact hs.teamNames name hold
            · rw [List.mem_singleton.1 hadded]
              exact nameLength
          · intro u hu
            rcases User.mem_of_mem_enrollAll hu with hlisted | hold
            · obtain ⟨m, hm, rfl⟩ := List.mem_map.1 hlisted
              exact memberLengths m hm
            · exact hs.users u hold
  | @setActive id isActive =>
      refine { hs with users := hkept fun u => ?_ }
      by_cases hid : u.id = id <;> simp [hid]
  | createPull =>
      cases ho with
      | createPull _ lengths =>
          refine { hs with pulls := ?_ }
          intro p hp
          rcases List.mem_append.1 hp with hold | hadded
          · exact hs.pulls p hold
          · rw [List.mem_singleton.1 hadded]
            exact ⟨lengths.1, lengths.2.1⟩
  | mergePull =>
      refine { hs with pulls := ?_ }
      intro p hp
      rcases Store.mem_withMerged hp with hold | ⟨q, hq, -, rfl⟩
      · exact hs.pulls p hold
      · exact hs.pulls q hq
  | @deactivate team d =>
      refine { hs with users := hkept fun u => ?_ }
      by_cases hid : u.id ∈ d.deactivated <;> simp [hid]

namespace Store

theorem keepsLengths_served (deliveries : List Delivery) : (served {} deliveries).KeepsLengths :=
  served_induction keepsLengths_empty Effect.keepsLengths deliveries

/-! ## Columns -/

/-- The columns of a table that hold names and ids, with the texts they hold. -/
def labels (s : Store) : Table → List (String × List String)
  | .teams => [("name", s.teams)]
  | .users => [("id", s.users.map (·.id)), ("name", s.users.map (·.name)),
      ("team", s.users.map (·.team))]
  | .pulls => [("id", s.pulls.map (·.id)), ("name", s.pulls.map (·.name)),
      ("author", s.pulls.map (·.author))]
  | .reviews => [("pr_id", s.reviews.map (·.pull)), ("user_id", s.reviews.map (·.user))]

/-- These are the columns declared with that width. -/
theorem labels_eq_layout (s : Store) (t : Table) :
    ((Layout.ofTable t).columns.filter (·.type = "text(255)")).map (·.name) =
      (s.labels t).map (·.1) := by
  cases t <;> rfl

/-- A table that all migrations have made is as it is declared. -/
theorem find?_up (t : Table) :
    (Migration.up none .blank).2.schema.find? t = some (Layout.ofTable t) := by
  cases t <;> decide

variable {s : Store}

theorem length_of_user (hs : s.KeepsLengths) {id : UserId} (h : id ∈ s.users.map (·.id)) :
    1 ≤ id.length ∧ id.length ≤ 255 := by
  obtain ⟨u, hu, rfl⟩ := List.mem_map.1 h
  exact length_of_accepts (accepts_of_acceptsBytes (hs.users u hu).1)

theorem length_of_pull (hs : s.KeepsLengths) {id : PullId} (h : id ∈ s.pulls.map (·.id)) :
    1 ≤ id.length ∧ id.length ≤ 255 := by
  obtain ⟨p, hp, rfl⟩ := List.mem_map.1 h
  exact length_of_accepts (hs.pulls p hp).1

/-- What is stored in the columns for names and ids has 1 to 255 characters. -/
theorem length_of_mem_labels (hs : s.KeepsLengths) (hc : s.Consistent) (t : Table) :
    ∀ column ∈ s.labels t, ∀ text ∈ column.2, 1 ≤ text.length ∧ text.length ≤ 255 := by
  have hteam : ∀ team ∈ s.teams, 1 ≤ team.length ∧ team.length ≤ 255 := fun team h =>
    length_of_accepts (hs.teamNames team h)
  have huserName : ∀ text ∈ s.users.map (·.name), 1 ≤ text.length ∧ text.length ≤ 255 := by
    intro text h
    obtain ⟨u, hu, rfl⟩ := List.mem_map.1 h
    exact length_of_accepts (accepts_of_acceptsBytes (hs.users u hu).2)
  have hpullName : ∀ text ∈ s.pulls.map (·.name), 1 ≤ text.length ∧ text.length ≤ 255 := by
    intro text h
    obtain ⟨p, hp, rfl⟩ := List.mem_map.1 h
    exact length_of_accepts (hs.pulls p hp).2
  cases t with
  | teams => simpa [labels] using hteam
  | users =>
      simp only [labels, List.forall_mem_cons]
      exact ⟨fun _ h => length_of_user hs h, huserName, fun _ h => hteam _ (hc.userTeams h), nofun⟩
  | pulls =>
      simp only [labels, List.forall_mem_cons]
      exact ⟨fun _ h => length_of_pull hs h, hpullName,
        fun _ h => length_of_user hs (hc.pullAuthors h), nofun⟩
  | reviews =>
      simp only [labels, List.forall_mem_cons]
      exact ⟨fun _ h => length_of_pull hs (hc.reviewPulls h),
        fun _ h => length_of_user hs (hc.reviewUsers h), nofun⟩

end Store

/-! ## Empty replacements -/

/-- The record of a slot is written so that an empty replacement means a dropped slot, and
any other one is a user of the store. -/
def Reassignment.IsTold (r : Reassignment) (s : Store) : Prop :=
  ∃ new, r.toJson = .record [("pr_id", .text r.pull), ("old", .text r.old), ("new", .text new)] ∧
    (new = "" ↔ r.replacement = none) ∧ (new ≠ "" → new ∈ s.users.map (·.id))

theorem Reassignment.isTold {r : Reassignment} {s : Store} (hs : s.KeepsLengths)
    (h : ∀ new, r.replacement = some new → new ∈ s.users.map (·.id)) : r.IsTold s := by
  refine ⟨r.replacement.getD "", rfl, ?_⟩
  cases hnew : r.replacement with
  | none => simp
  | some new =>
      have hlength := (Store.length_of_user hs (h new hnew)).1
      have hne : new ≠ "" := by
        rintro rfl
        exact absurd hlength (by decide)
      simpa [hne] using h new hnew

/-- Whoever a plan brings in comes from one of its pools. -/
theorem Plan.replacement_of_plan {teamsOf : Keyed UserId TeamName}
    {pools : Keyed TeamName (Ascending UserId)} {stale : Ascending UserId}
    {affected : Keyed PullId Affected} {w : Words} {r : Reassignment} {new : UserId}
    (hr : r ∈ (planReassignments teamsOf pools stale affected w).1)
    (hnew : r.replacement = some new) : ∃ team, new ∈ pools.getD team ∅ := by
  obtain ⟨before, later, hsplit⟩ := List.append_of_mem hr
  obtain ⟨a, -, hdecides⟩ := decides_of_plan hsplit
  obtain ⟨-, -, -, team, -, hpool⟩ := hdecides.chosen new hnew
  exact ⟨team, hpool⟩

/-- A deactivation drops the slots it lists: whom it switched off is gone from there, and
everybody else stays. -/
theorem Deactivation.DropsSlotsOf.reviewers {d : Deactivation} {s : Store} {team : TeamName}
    (h : d.DropsSlotsOf s team) {r : Reassignment} (hr : r ∈ d.reassignments) (user : UserId) :
    user ∈ (s.retire d.deactivated).reviewersIn r.pull ↔
      user ∈ s.reviewersIn r.pull ∧ user ∉ d.deactivated := by
  obtain ⟨-, -, -, hpull⟩ := (h.slots r).1 hr
  have hopened : s.isOpenPull r.pull = true := Store.isOpenPull_iff.2 hpull
  simp [Store.mem_reviewersIn, Store.retire, hopened]

namespace Store

/-- **Texts fit their columns.**  After any requests to a new service, the columns that the
migrations declare with 255 characters hold texts of 1 to 255 characters.  So whoever is
planned to replace a reviewer has an id that is not empty.  In the answer to a deactivation
every record with an empty replacement belongs to a dropped slot: only reviewers who were
switched off have left that pull request, and nobody has come. -/
theorem texts_fit_their_columns (deliveries : List Delivery) :
    let s := served {} deliveries
    (∀ t, ∃ layout, (Migration.up none .blank).2.schema.find? t = some layout ∧
      (layout.columns.filter (·.type = "text(255)")).map (·.name) = (s.labels t).map (·.1) ∧
      ∀ column ∈ s.labels t, ∀ text ∈ column.2, 1 ≤ text.length ∧ text.length ≤ 255) ∧
    (∀ teamsOf stale affected w,
      ∀ r ∈ (planReassignments teamsOf s.activePools stale affected w).1, r.IsTold s) ∧
    ∀ (d : Delivery) (team : TeamName), d.request.Orders (.deactivate team) 200 none →
      (d.outcome s).1.status = 200 →
      ∃ a : Deactivation, (d.outcome s).1.body = some a.toJson ∧ ∀ r ∈ a.reassignments,
        r.IsTold s ∧ r.old ∈ s.reviewersIn r.pull ∧ (r.replacement = none →
          ∀ user, user ∈ (d.next s).reviewersIn r.pull ↔
            user ∈ s.reviewersIn r.pull ∧ user ∉ a.deactivated) := by
  intro s
  have hs : s.KeepsLengths := keepsLengths_served deliveries
  refine ⟨?_, ?_, ?_⟩
  · intro t
    exact ⟨Layout.ofTable t, find?_up t, s.labels_eq_layout t,
      length_of_mem_labels hs (sound_served deliveries).consistent t⟩
  · intro teamsOf stale affected w r hr
    refine Reassignment.isTold hs fun new hnew => ?_
    obtain ⟨team, hpool⟩ := Plan.replacement_of_plan hr hnew
    rw [getD_activePools] at hpool
    exact isUser_of_mem_activeIn hpool
  · intro d team horders hstatus
    have hgood : (d.outcome s).1.status < 400 := by
      rw [hstatus]
      decide
    obtain ⟨a, heffect, hbody⟩ := Delivery.effect_of_status horders hgood
    generalize d.next s = s' at heffect ⊢
    cases heffect with
    | @deactivate _ a _ hdrops =>
        refine ⟨a, hbody, fun r hr => ?_⟩
        obtain ⟨hnone, -, hreview, -⟩ := (hdrops.slots r).1 hr
        have htold : r.IsTold s :=
          Reassignment.isTold hs fun new hnew => nomatch hnone.symm.trans hnew
        exact ⟨htold, mem_reviewersIn.2 hreview, fun _ => hdrops.reviewers hr⟩

/-- A request to post a text to a path. -/
def aPost (path body : String) : Request where
  method := "POST"
  path := path
  headers := [("content-type", "application/json")]
  body := { bytes := body.toUTF8.data.toList }

/-- A new team of two. -/
def aTeam : Delivery where
  request := aPost "/team/add" ("\x7b\"team_name\":\"t\",\"members\":[" ++
    "\x7b\"user_id\":\"a\",\"username\":\"A\",\"is_active\":true\x7d," ++
    "\x7b\"user_id\":\"b\",\"username\":\"B\",\"is_active\":true\x7d]\x7d")
  words := default

/-- A new pull request of one of them, which the other one gets to review. -/
def aPull : Delivery where
  request := aPost "/pullRequest/create"
    "\x7b\"pull_request_id\":\"p\",\"pull_request_name\":\"P\",\"author_id\":\"a\"\x7d"
  words := default

/-- The team is deactivated. -/
def aDrop : Delivery where
  request := aPost "/team/deactivate" "\x7b\"team_name\":\"t\"\x7d"
  words := default

/-- The review is stored within the limits, and it is told that its slot is dropped. -/
theorem aReview_fits :
    let s := served {} [aTeam, aPull]
    (s.labels .reviews = [("pr_id", ["p"]), ("user_id", ["b"])] ∧
      1 ≤ "b".length ∧ "b".length ≤ 255) ∧
    aDrop.request.Orders (.deactivate "t") 200 none ∧ (aDrop.outcome s).1.status = 200 ∧
    Call.answer? ⟨.deactivate "t", .epoch, default⟩ s =
      some (.deactivation ⟨.ofList ["a", "b"], [⟨"p", "b", none⟩]⟩) ∧
    ∃ a : Deactivation, (aDrop.outcome s).1.body = some a.toJson ∧
      ∀ r ∈ a.reassignments, r.IsTold s := by
  obtain ⟨hfits, -, htold⟩ := texts_fit_their_columns [aTeam, aPull]
  have hlabels : (served {} [aTeam, aPull]).labels .reviews =
      [("pr_id", ["p"]), ("user_id", ["b"])] := by
    decide +kernel
  have horders : aDrop.request.Orders (.deactivate "t") 200 none :=
    .deactivateTeam ⟨rfl, rfl, rfl, by decide, rfl, rfl⟩ (by decide)
  have hstatus : (aDrop.outcome (served {} [aTeam, aPull])).1.status = 200 := by decide +kernel
  obtain ⟨_, -, -, hlength⟩ := hfits .reviews
  have hreviewer : 1 ≤ "b".length ∧ "b".length ≤ 255 := by
    refine hlength ("user_id", ["b"]) ?_ "b" List.mem_cons_self
    rw [hlabels]
    exact List.mem_cons_of_mem _ List.mem_cons_self
  obtain ⟨a, hbody, hrecords⟩ := htold aDrop "t" horders hstatus
  exact ⟨⟨hlabels, hreviewer⟩, horders, hstatus, by decide +kernel, a, hbody,
    fun r hr => (hrecords r hr).1⟩

end Store

end ReviewDesk
