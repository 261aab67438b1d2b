import ReviewDesk.Proofs.TeamTransfer

/-!
# How texts are measured

Eight endpoints take names and ids.  Seven of them count characters; the one that takes new
members counts the characters of the name of the team and the bytes of the members' texts.
A character has one byte or more, so whoever counts bytes never takes a text that the others
refuse.  The other way round this fails, for texts with at most 255 characters and more than
255 bytes: they can be asked for, but nobody can be listed with them.

* `acceptsBytes_iff` — what counting bytes comes to;
* `Request.Brings` — what a request brings to an endpoint before its texts are measured;
* `decode_of_brings` — which of it is taken;
* `measured_alike_unless_long_in_bytes` — when all endpoints measure alike;
* `accents_refused_as_a_member` — a text that only members cannot have.
-/

namespace ReviewDesk

open Http

namespace Http

namespace LengthRule

/-- A text has 1 to 255 characters. -/
def Fits (s : String) : Prop := 1 ≤ s.length ∧ s.length ≤ 255

theorem accepts_iff {s : String} : accepts s = true ↔ Fits s := by
  simp only [accepts, Bool.and_eq_true, decide_eq_true_eq]
  rfl

instance (s : String) : Decidable (Fits s) := inferInstanceAs (Decidable (_ ∧ _))

/-- Counting bytes leaves a text that fits if it has at most 255 of them. -/
theorem acceptsBytes_iff {s : String} :
    acceptsBytes s = true ↔ Fits s ∧ s.utf8ByteSize ≤ 255 := by
  constructor
  · intro h
    exact ⟨accepts_iff.1 (accepts_of_acceptsBytes h),
      of_decide_eq_true (Bool.and_eq_true_iff.1 h).2⟩
  · intro h
    obtain ⟨⟨hfirst, -⟩, hbytes⟩ := h
    have hle := length_le_utf8ByteSize s
    exact Bool.and_eq_true_iff.2 ⟨decide_eq_true (Nat.le_trans hfirst hle), decide_eq_true hbytes⟩

/-- Two counts of a text agree unless its characters are few enough and its bytes are not. -/
theorem acceptsBytes_eq_accepts_iff {s : String} :
    acceptsBytes s = accepts s ↔ ¬ (Fits s ∧ 255 < s.utf8ByteSize) := by
  rw [Bool.eq_iff_iff, acceptsBytes_iff, accepts_iff, not_and, Nat.not_lt]
  constructor
  · intro h hfits
    exact (h.2 hfits).2
  · intro h
    exact ⟨And.left, fun hfits => ⟨hfits, h hfits⟩⟩

end LengthRule

/-! ## What requests bring -/

/-- What a request brings to an endpoint, if its body or its query can be read; nothing is
said about the length of its texts. -/
inductive Request.Brings (r : Request) : Endpoint → Operation → Prop
  | addTeam {name : TeamName} {members : List Member}
      (reads : Body.ofRequest Body.newTeam r = .ok (name, members)) :
      Brings r .addTeam (.createTeam name members)
  | deactivateTeam {name : TeamName}
      (reads : Body.ofRequest (Body.text "team_name") r = .ok name) :
      Brings r .deactivateTeam (.deactivate name)
  | setIsActive {user : UserId} {isActive : Bool}
      (reads : Body.ofRequest Body.userFlag r = .ok (user, isActive)) :
      Brings r .setIsActive (.setActive user isActive)
  | createPull {id : PullId} {name : String} {author : UserId}
      (reads : Body.ofRequest Body.newPull r = .ok ((id, name), author)) :
      Brings r .createPull (.createPull id name author)
  | mergePull {id : PullId} (reads : Body.ofRequest (Body.text "pull_request_id") r = .ok id) :
      Brings r .mergePull (.mergePull id)
  | reassign {id : PullId} {old : UserId}
      (reads : Body.ofRequest Body.replacement r = .ok (id, old)) :
      Brings r .reassign (.reassign id old)
  | getTeam {name : TeamName} (reads : Parameters.single? "team_name" r.query = some name) :
      Brings r .getTeam (.getTeam name)
  | getReview {user : UserId} (reads : Parameters.single? "user_id" r.query = some user) :
      Brings r .getReview (.reviewsOf user)

end Http

namespace Operation

/-- The ids and names of members that come with an operation. -/
def memberTexts : Operation → List String
  | createTeam _ members => members.flatMap fun m => [m.userId, m.username]
  | _ => []

/-- All names and ids that come with an operation. -/
def texts : Operation → List String
  | createTeam name members => name :: (createTeam name members).memberTexts
  | getTeam name | deactivate name => [name]
  | setActive user _ | reviewsOf user => [user]
  | createPull id name author => [id, name, author]
  | mergePull id => [id]
  | reassign id old => [id, old]
  | stats => []

end Operation

namespace Http

/-! ## What endpoints take -/

namespace LengthRule

/-- All members keep the rule if all their texts fit, and none has more than 255 bytes. -/
theorem all_acceptsMember_iff (name : TeamName) {members : List Member} :
    members.all acceptsMember = true ↔
      ∀ s ∈ (Operation.createTeam name members).memberTexts, Fits s ∧ s.utf8ByteSize ≤ 255 := by
  simp only [all_acceptsMember, Operation.memberTexts, List.mem_flatMap, acceptsBytes_iff]
  constructor
  · rintro h s ⟨m, hm, hs⟩
    rcases List.mem_pair.1 hs with rfl | rfl
    · exact (h m hm).1
    · exact (h m hm).2
  · intro h m hm
    exact ⟨h _ ⟨m, hm, List.mem_cons_self⟩, h _ ⟨m, hm, List.mem_pair.2 (.inr rfl)⟩⟩

end LengthRule

namespace Endpoint

open LengthRule

/-- The failure that a text of the wrong length leads to. -/
def lengthFailure (e : Endpoint) : Failure := if e.isReading then .query else .bodyRules

/-- An endpoint that checks a condition takes what meets it and refuses all else. -/
theorem taken_iff {e : Endpoint} {r : Request} {op : Operation} {P : Prop} (isKept : Bool)
    (hdecode : e.decode r =
      if isKept then .ok (.operation op) else .error (.failure e.lengthFailure))
    (hkept : isKept = true ↔ P) :
    (e.decode r = .ok (.operation op) ↔ P) ∧
      (¬ P → e.decode r = .error (.failure e.lengthFailure)) := by
  rw [hdecode, ← hkept]
  cases isKept <;> simp

/-- What a request brings is taken if all its texts fit and no text of a member has more than
255 bytes, and is refused otherwise. -/
theorem decode_of_brings {r : Request} {e : Endpoint} {op : Operation} (h : r.Brings e op) :
    let isTaken := (∀ s ∈ op.texts, Fits s) ∧ ∀ s ∈ op.memberTexts, s.utf8ByteSize ≤ 255
    (e.decode r = .ok (.operation op) ↔ isTaken) ∧
      (¬ isTaken → e.decode r = .error (.failure e.lengthFailure)) := by
  cases h with
  | @addTeam name members reads =>
      refine taken_iff _ (by rw [decode, reads]; rfl) ?_
      rw [Bool.and_eq_true, accepts_iff, all_acceptsMember_iff name]
      simp only [Operation.texts, List.forall_mem_cons, and_assoc]
      exact and_congr_right fun _ => forall₂_and
  | deactivateTeam reads =>
      exact taken_iff _ (by rw [decode, reads]; rfl)
        (by simp [Operation.texts, Operation.memberTexts, accepts_iff])
  | setIsActive reads =>
      exact taken_iff _ (by rw [decode, reads]; rfl)
        (by simp [Operation.texts, Operation.memberTexts, accepts_iff])
  | createPull reads =>
      exact taken_iff _ (by rw [decode, reads]; rfl)
        (by simp [Operation.texts, Operation.memberTexts, accepts_iff, and_assoc])
  | mergePull reads =>
      exact taken_iff _ (by rw [decode, reads]; rfl)
        (by simp [Operation.texts, Operation.memberTexts, accepts_iff])
  | reassign reads =>
      exact taken_iff _ (by rw [decode, reads]; rfl)
        (by simp [Operation.texts, Operation.memberTexts, accepts_iff])
  | @getTeam name reads =>
      exact taken_iff (accepts name)
        (by rw [decode, parameter, reads]; dsimp only; cases accepts name <;> rfl)
        (by simp [Operation.texts, Operation.memberTexts, accepts_iff])
  | @getReview user reads =>
      exact taken_iff (accepts user)
        (by rw [decode, parameter, reads]; dsimp only; cases accepts user <;> rfl)
        (by simp [Operation.texts, Operation.memberTexts, accepts_iff])

end Endpoint

open LengthRule

/-- **Measured alike, with one exception.**  Whatever a request brings to an endpoint is taken
exactly if all its names and ids have 1 to 255 characters, unless they do and one of a new member
has more than 255 bytes.  What is not taken is refused with the failure for lengths.  Text by
text, the two counts agree with the same exception. -/
theorem measured_alike_unless_long_in_bytes {r : Request} {e : Endpoint} {op : Operation}
    (h : r.Brings e op) :
    ((e.decode r = .ok (.operation op) ↔ ∀ s ∈ op.texts, Fits s) ↔
      ¬ ((∀ s ∈ op.texts, Fits s) ∧ ∃ s ∈ op.memberTexts, 255 < s.utf8ByteSize)) ∧
    (e.decode r ≠ .ok (.operation op) → e.decode r = .error (.failure e.lengthFailure)) ∧
    (∀ s, accepts s = true ↔ Fits s) ∧
    ∀ s, acceptsBytes s = accepts s ↔ ¬ (Fits s ∧ 255 < s.utf8ByteSize) := by
  obtain ⟨htaken, hrefused⟩ := Endpoint.decode_of_brings h
  refine ⟨?_, fun hne => hrefused (mt htaken.2 hne), fun _ => accepts_iff,
    fun _ => acceptsBytes_eq_accepts_iff⟩
  rw [htaken]
  constructor
  · rintro halike ⟨hfit, s, hs, hlong⟩
    exact Nat.not_le.2 hlong ((halike.2 hfit).2 s hs)
  · intro hnone
    refine ⟨And.left, fun hfit => ⟨hfit, fun s hs => ?_⟩⟩
    by_contra hlong
    exact hnone ⟨hfit, s, hs, Nat.not_le.1 hlong⟩

/-- A team whose texts need care is taken, since they are long in neither way. -/
theorem aCarefulTeam_measured :
    let r := Store.aCarefulPost.request
    let op := Operation.createTeam Store.aCarefulTeam.name Store.aCarefulTeam.members
    r.Brings .addTeam op ∧ (∀ s ∈ op.texts, Fits s) ∧
      Endpoint.addTeam.decode r = .ok (.operation op) := by
  intro r op
  have hbrings : r.Brings .addTeam op :=
    .addTeam (Body.ofRequest_eq_ok.2
      ⟨by decide +kernel, by decide +kernel, rfl, Store.aCarefulTeam.read_toJson⟩)
  have hfit : ∀ s ∈ op.texts, Fits s := by decide +kernel
  have hshort : ¬ ((∀ s ∈ op.texts, Fits s) ∧ ∃ s ∈ op.memberTexts, 255 < s.utf8ByteSize) := by
    decide +kernel
  exact ⟨hbrings, hfit, ((measured_alike_unless_long_in_bytes hbrings).1.2 hshort).2 hfit⟩

/-! ## A text that only members cannot have -/

/-- The request that posts the text of a value to a path. -/
def Request.posting (path : String) (v : Json) : Request where
  method := "POST"
  path := path
  headers := [("content-type", "application/json")]
  body := ⟨Utf8.encode v.render, .complete⟩

/-- What a posted value is read as is taken from the body, if it is not too long. -/
theorem Body.ofRequest_posting {σ α : Type} {form : Json.Form σ α} {path : String} {v : Json}
    {d : Json.Draft} {value : α}
    (hshort : (v.chars.flatMap String.utf8EncodeChar).length ≤ maxLength)
    (hread : Json.IsReadAs v d) (hvalue : form.read d = .ok value) :
    ofRequest form (Request.posting path v) = .ok value := by
  have hjson : (Request.posting path v).hasJson = true := rfl
  have hbytes : Utf8.encode v.render = v.chars.flatMap String.utf8EncodeChar := by
    rw [Utf8.encode, Json.render, String.toList_ofList]
  refine ofRequest_eq_ok.2 ⟨hjson, ?_, rfl, ?_⟩
  · rwa [← hbytes] at hshort
  · rw [← hvalue, ← Json.draft_render hread]
    rfl

/-- 128 characters of two bytes each. -/
def accents : String := String.ofList (List.replicate 128 'é')

theorem toList_accents : accents.toList = List.replicate 128 'é' := by
  unfold accents
  exact String.toList_ofList

theorem fits_accents : Fits accents := by
  unfold Fits accents
  rw [String.length_ofList, List.length_replicate]
  decide

theorem utf8ByteSize_accents : accents.utf8ByteSize = 256 := by
  have hcount : ∀ n, (String.ofList (List.replicate n 'é')).utf8ByteSize = 2 * n := by
    intro n
    induction n with
    | zero => rfl
    | succ n ih =>
        have htwo : 'é'.utf8Size = 2 := by decide
        rw [List.replicate_succ, String.ofList_cons, String.utf8ByteSize_append,
          String.utf8ByteSize_singleton, ih, htwo]
        omega
  exact hcount 128

/-- A user can be asked for by such an id, but no member can be listed with it. -/
theorem accents_refused_as_a_member :
    let flag := Request.posting "/users/setIsActive"
      (.record [("user_id", .text accents), ("is_active", .bool true)])
    let team : Team := ⟨"t", [⟨accents, "n", true⟩]⟩
    let addition := Request.posting "/team/add" team.toJson
    Fits accents ∧ flag.Brings .setIsActive (.setActive accents true) ∧
      Endpoint.setIsActive.decode flag = .ok (.operation (.setActive accents true)) ∧
      addition.Brings .addTeam (.createTeam team.name team.members) ∧
      (∀ s ∈ (Operation.createTeam team.name team.members).texts, Fits s) ∧
      Endpoint.addTeam.decode addition = .error (.failure .bodyRules) := by
  intro flag team addition
  have hread : Json.IsReadAs (.record [("user_id", .text accents), ("is_active", .bool true)])
      (.record [(some "user_id", .text (some accents)), (some "is_active", .bool true)] true) :=
    Json.isReadAs_record (.cons ⟨rfl, Json.isReadAs_text _⟩
      (.cons ⟨rfl, Json.isReadAs_bool _⟩ .nil))
  have hflag : flag.Brings .setIsActive (.setActive accents true) := by
    refine .setIsActive (Body.ofRequest_posting ?_ hread rfl)
    simp only [Json.chars, Json.fieldsChars, toList_accents]
    decide +kernel
  have hteam : addition.Brings .addTeam (.createTeam team.name team.members) := by
    refine .addTeam (Body.ofRequest_posting ?_ team.isReadAs team.read_draft)
    simp only [team, Team.toJson, Member.toJson, List.map_cons, List.map_nil, Json.chars,
      Json.itemsChars, Json.fieldsChars, toList_accents]
    decide +kernel
  have htexts : ∀ s ∈ (Operation.createTeam team.name team.members).texts, Fits s := by
    simp only [Operation.texts, Operation.memberTexts, team, List.flatMap_cons, List.flatMap_nil,
      List.append_nil, List.forall_mem_cons]
    exact ⟨by decide, fits_accents, by decide, fun _ hs => (List.not_mem_nil hs).elim⟩
  have hlong : ¬ accents.utf8ByteSize ≤ 255 := by
    rw [utf8ByteSize_accents]
    decide
  have hlisted : ∀ s ∈ (Operation.setActive accents true).memberTexts, s.utf8ByteSize ≤ 255 :=
    fun _ hs => (List.not_mem_nil hs).elim
  exact ⟨fits_accents, hflag,
    (Endpoint.decode_of_brings hflag).1.2 ⟨by simpa [Operation.texts] using fits_accents, hlisted⟩,
    hteam, htexts,
    (Endpoint.decode_of_brings hteam).2 fun htaken => hlong (htaken.2 _ List.mem_cons_self)⟩

end Http

end ReviewDesk
