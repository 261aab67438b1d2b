import ReviewDesk.Proofs.FormFields
import ReviewDesk.Proofs.Requests

/-!
# Malformed bodies

A body is read up to the end of its first value and no further.  So a body is refused as
malformed or unfit unless it begins with a JSON text that gives every field of the endpoint, and
such a refusal touches nothing.  What follows this text does not matter: a body that is no JSON
text as a whole may still be served.  Nor does a long body count as malformed, whatever is in it:
nobody looks, and it is reported as a fault of the service itself.

* `Endpoint.demands` — the fields of each endpoint, with what their values have to be;
* `Body.exists_parse_iff` — which bytes are read;
* `Service.malformed_unless_begun_well` — what comes of a request.
-/

namespace ReviewDesk

namespace Http

open Json (Draft Demand Gives Form IsJson)

/-! ## What endpoints ask for -/

/-- A text. -/
def IsText (d : Draft) : Prop := ∃ s, d = .text (some s)

/-- A truth value. -/
def IsFlag (d : Draft) : Prop := ∃ b, d = .bool b

namespace Body

/-- The fields of a member. -/
def memberDemands : List Demand :=
  [⟨"user_id", IsText⟩, ⟨"username", IsText⟩, ⟨"is_active", IsFlag⟩]

/-- A list of members. -/
def AreMembers (d : Draft) : Prop :=
  ∃ items, d = .list items true ∧ ∀ item ∈ items, Gives memberDemands item

theorem asks_text (name : String) : (text name).Asks [⟨name, IsText⟩] :=
  Form.asks_field fun _ _ => Draft.exists_readText

theorem asks_flag (name : String) :
    (Form.field name Draft.readBool).Asks [⟨name, IsFlag⟩] :=
  Form.asks_field fun _ _ => Draft.exists_readBool

theorem asks_member : member.Asks memberDemands := by
  have hnames := (asks_text "user_id").and (asks_text "username") (by decide)
  exact (hnames.and (asks_flag "is_active") (by decide)).map _

theorem asks_newTeam : newTeam.Asks [⟨"team_name", IsText⟩, ⟨"members", AreMembers⟩] := by
  have hmembers : (Form.field "members" (Draft.readList member.read)).Asks
      [⟨"members", AreMembers⟩] :=
    Form.asks_field fun _ hd => Draft.exists_readList (fun _ => asks_member.read_iff) hd
  exact (asks_text "team_name").and hmembers (by decide)

theorem asks_userFlag : userFlag.Asks [⟨"user_id", IsText⟩, ⟨"is_active", IsFlag⟩] :=
  (asks_text "user_id").and (asks_flag "is_active") (by decide)

theorem asks_newPull : newPull.Asks
    [⟨"pull_request_id", IsText⟩, ⟨"pull_request_name", IsText⟩, ⟨"author_id", IsText⟩] := by
  have hnames := (asks_text "pull_request_id").and (asks_text "pull_request_name") (by decide)
  exact hnames.and (asks_text "author_id") (by decide)

theorem asks_replacement : replacement.Asks
    [⟨"pull_request_id", IsText⟩, ⟨"old_user_id", IsText⟩] :=
  (asks_text "pull_request_id").and (asks_text "old_user_id") (by decide)

end Body

/-- Bytes begin with a JSON text that gives what is asked for. -/
def BeginsWith (demands : List Demand) (bytes : List UInt8) : Prop :=
  ∃ text rest d, bytes = text ++ rest ∧ IsJson text d ∧ Gives demands d

namespace Body

variable {σ α : Type} {form : Form σ α} {demands : List Demand}

/-- What is read is what begins with the right text. -/
theorem exists_parse_iff (h : form.Asks demands) {bytes : List UInt8} :
    (∃ a, parse form bytes = .ok a) ↔ BeginsWith demands bytes := by
  simp only [parse, mapError_eq_ok_iff]
  constructor
  · rintro ⟨a, ha⟩
    obtain ⟨text, rest, rfl, hjson⟩ := Json.exists_isJson (Form.isClosed_of_read ha)
    obtain ⟨ts, hlexes, hvalue⟩ := hjson
    exact ⟨text, rest, _, rfl, ⟨ts, hlexes, hvalue⟩, (h.read_iff ⟨ts, hvalue⟩).1 ⟨a, ha⟩⟩
  · rintro ⟨text, rest, d, rfl, hjson, hgives⟩
    have hbracketed : d.isBracketed = true := by
      cases hgives <;> rfl
    obtain ⟨ts, hlexes, hvalue⟩ := hjson
    rw [Json.draft_of_isJson ⟨ts, hlexes, hvalue⟩ hbracketed]
    exact (h.read_iff ⟨ts, hvalue⟩).2 hgives

/-- What cannot be read is malformed or unfit. -/
theorem failure_of_parse {bytes : List UInt8} {f : Failure} (h : parse form bytes = .error f) :
    f = .bodySyntax ∨ f = .bodyFields := by
  unfold parse at h
  cases hread : form.read (Json.draft bytes) with
  | ok a =>
      rw [hread] at h
      cases h
  | error why =>
      rw [hread] at h
      cases why <;> cases h
      · exact .inl rfl
      · exact .inr rfl

variable {r : Request} (hjson : r.hasJson = true)

include hjson

theorem ofRequest_of_long (hlong : maxLength < r.body.bytes.length) :
    ofRequest form r = .error (.failure .internal) := by
  have harrived : arrived r.body = .error (.failure .internal) := if_pos hlong
  simp [ofRequest, hjson, harrived, bind, Except.bind]

theorem ofRequest_of_parse (hshort : r.body.bytes.length ≤ maxLength)
    (hcomplete : r.body.ending = .complete) :
    ofRequest form r = (parse form r.body.bytes).mapError .failure := by
  have harrived : arrived r.body = .ok r.body.bytes :=
    arrived_eq_ok.2 ⟨hshort, hcomplete, rfl⟩
  simp [ofRequest, hjson, harrived, bind, Except.bind]

end Body

namespace Endpoint

/-- The fields of an endpoint that takes a body. -/
def demands : Endpoint → List Demand
  | addTeam => [⟨"team_name", IsText⟩, ⟨"members", Body.AreMembers⟩]
  | deactivateTeam => [⟨"team_name", IsText⟩]
  | setIsActive => [⟨"user_id", IsText⟩, ⟨"is_active", IsFlag⟩]
  | createPull =>
    [⟨"pull_request_id", IsText⟩, ⟨"pull_request_name", IsText⟩, ⟨"author_id", IsText⟩]
  | mergePull => [⟨"pull_request_id", IsText⟩]
  | reassign => [⟨"pull_request_id", IsText⟩, ⟨"old_user_id", IsText⟩]
  | getTeam | getReview | stats | health => []

/-- What an endpoint that takes a body does with it: it reads it against a form that asks for the
fields of the endpoint, and then measures the texts of an operation. -/
theorem exists_form {e : Endpoint} (hwriting : e.isReading = false) :
    ∃ (σ α : Type) (form : Form σ α) (isKept : α → Bool) (op : α → Operation),
      form.Asks e.demands ∧
        ∀ r, e.decode r =
          Body.ofRequest form r >>= fun a => LengthRule.check (isKept a) (op a) := by
  cases e with
  | addTeam => exact ⟨_, _, _, _, _, Body.asks_newTeam, fun _ => rfl⟩
  | deactivateTeam => exact ⟨_, _, _, _, _, Body.asks_text _, fun _ => rfl⟩
  | setIsActive => exact ⟨_, _, _, _, _, Body.asks_userFlag, fun _ => rfl⟩
  | createPull => exact ⟨_, _, _, _, _, Body.asks_newPull, fun _ => rfl⟩
  | mergePull => exact ⟨_, _, _, _, _, Body.asks_text _, fun _ => rfl⟩
  | reassign => exact ⟨_, _, _, _, _, Body.asks_replacement, fun _ => rfl⟩
  | getTeam | getReview | stats | health => cases hwriting

variable {e : Endpoint} (hwriting : e.isReading = false) {r : Request} (hjson : r.hasJson = true)

include hwriting hjson

theorem decode_of_long (hlong : Body.maxLength < r.body.bytes.length) :
    e.decode r = .error (.failure .internal) := by
  obtain ⟨σ, α, form, isKept, op, -, hdecode⟩ := exists_form hwriting
  rw [hdecode, Body.ofRequest_of_long hjson hlong]
  rfl

variable (hshort : r.body.bytes.length ≤ Body.maxLength) (hcomplete : r.body.ending = .complete)

include hshort hcomplete

/-- A body that does not begin with the right text is malformed or unfit. -/
theorem decode_of_not_beginsWith (h : ¬ BeginsWith e.demands r.body.bytes) :
    ∃ f, (f = .bodySyntax ∨ f = .bodyFields) ∧ e.decode r = .error (.failure f) := by
  obtain ⟨σ, α, form, isKept, op, hasks, hdecode⟩ := exists_form hwriting
  rw [← Body.exists_parse_iff hasks] at h
  rw [hdecode, Body.ofRequest_of_parse hjson hshort hcomplete]
  cases hparse : Body.parse form r.body.bytes with
  | ok a => exact absurd ⟨a, hparse⟩ h
  | error f => exact ⟨f, Body.failure_of_parse hparse, rfl⟩

/-- One that does is neither, whatever follows. -/
theorem decode_of_beginsWith (h : BeginsWith e.demands r.body.bytes) :
    e.decode r = .error (.failure .bodyRules) ∨ ∃ op, e.decode r = .ok (.operation op) := by
  obtain ⟨σ, α, form, isKept, op, hasks, hdecode⟩ := exists_form hwriting
  obtain ⟨a, hparse⟩ := (Body.exists_parse_iff hasks).2 h
  rw [hdecode, Body.ofRequest_of_parse hjson hshort hcomplete, hparse]
  cases hkept : isKept a with
  | true =>
      exact .inr ⟨op a, LengthRule.check_eq_ok.2 ⟨hkept, rfl⟩⟩
  | false =>
      left
      show LengthRule.check (isKept a) (op a) = _
      rw [hkept]
      rfl

end Endpoint

namespace Service

variable {newId : String} {now : Instant} {isHeld : Bool} {r : Request} {o : Office}

/-- A request that is refused where it goes is answered with the failure, and touches nothing. -/
theorem respond_of_decode_error {e : Endpoint} {f : Failure} (hwriting : e.isReading = false)
    (hmethod : r.method = "POST") (hpath : r.path = e.path)
    (hdecode : e.decode r = .error (.failure f)) :
    (respond newId now isHeld r o).1.status = f.status ∧
      (respond newId now isHeld r o).1.body = some f.body ∧
      (respond newId now isHeld r o).2 = o := by
  have hendpoint : Endpoint.ofPath? r.path = some e := hpath ▸ Endpoint.ofPath?_path e
  have hoptions : r.method ≠ "OPTIONS" := by
    rw [hmethod]
    decide
  have hhead : r.method ≠ "HEAD" := by
    rw [hmethod]
    decide
  have hmethods : e.methods.contains r.method = true := by
    simp [Endpoint.methods, hwriting, hmethod]
  have hroute : route now isHeld r o = (.ofFailure f, o) := by
    simp only [route, hendpoint, if_neg hoptions, dispatch, if_neg (not_not_intro hmethods),
      hdecode]
    rfl
  simp only [respond, hroute, status_finish, body_finish newId hhead, and_true]
  exact ⟨rfl, rfl⟩

/-- **Malformed bodies are refused, with two exceptions.**  Take a request that posts a body as JSON
to an endpoint.  If the body is not longer than allowed and does not begin with a JSON text that
gives every field of the endpoint, then the answer is one of the two failures for such bodies, and
store and words stay as they are.  If the body begins with such a text, then it is neither failure,
whatever comes behind.  If the body is too long, then the answer is that of a fault of the service,
whatever it holds; this, too, touches nothing. -/
theorem malformed_unless_begun_well (newId : String) (now : Instant) (isHeld : Bool) {e : Endpoint}
    (hwriting : e.isReading = false) {r : Request} (hmethod : r.method = "POST")
    (hpath : r.path = e.path) (hjson : r.hasJson = true) (o : Office) :
    (r.body.bytes.length ≤ 2097152 → r.body.ending = .complete →
      (¬ BeginsWith e.demands r.body.bytes → ∃ f : Failure, (f = .bodySyntax ∨ f = .bodyFields) ∧
        (respond newId now isHeld r o).1.status = 400 ∧
        (respond newId now isHeld r o).1.body = some f.body ∧
        (respond newId now isHeld r o).2 = o) ∧
      (BeginsWith e.demands r.body.bytes →
        e.decode r = .error (.failure .bodyRules) ∨ ∃ op, e.decode r = .ok (.operation op))) ∧
    (2097152 < r.body.bytes.length →
      (respond newId now isHeld r o).1.status = 500 ∧
      (respond newId now isHeld r o).1.body = some Failure.internal.body ∧
      (respond newId now isHeld r o).2 = o) := by
  refine ⟨fun hshort hcomplete => ⟨fun hnot => ?_, ?_⟩, fun hlong => ?_⟩
  · obtain ⟨f, hf, hdecode⟩ :=
      Endpoint.decode_of_not_beginsWith hwriting hjson hshort hcomplete hnot
    have hstatus : f.status = 400 := by
      rcases hf with rfl | rfl <;> rfl
    exact ⟨f, hf, hstatus ▸ respond_of_decode_error hwriting hmethod hpath hdecode⟩
  · exact Endpoint.decode_of_beginsWith hwriting hjson hshort hcomplete
  · exact respond_of_decode_error hwriting hmethod hpath
      (Endpoint.decode_of_long hwriting hjson hlong)

/-- A request that posts bytes as JSON. -/
def posted (path : String) (bytes : List UInt8) : Request where
  method := "POST"
  path := path
  headers := [("content-type", "application/json")]
  body := ⟨bytes, .complete⟩

/-- One byte more than a body may have. -/
def tooMany : List UInt8 := List.replicate 2097153 120

theorem length_tooMany : Body.maxLength < tooMany.length := by
  rw [tooMany, List.length_replicate]
  decide

/-- A record without fields is refused, and so are too many bytes. -/
theorem noFields_refused :
    let empty := posted "/team/add" "\x7b\x7d".toUTF8.data.toList
    let long := posted "/team/add" tooMany
    ¬ BeginsWith Endpoint.addTeam.demands empty.body.bytes ∧
      (respond "" .epoch false empty default).1.status = 400 ∧
      (respond "" .epoch false empty default).2 = default ∧
      (respond "" .epoch false long default).1.status = 500 ∧
      (respond "" .epoch false long default).2 = default := by
  intro empty long
  have hnot : ¬ BeginsWith Endpoint.addTeam.demands empty.body.bytes := by
    intro hbegins
    obtain ⟨a, ha⟩ := (Body.exists_parse_iff Body.asks_newTeam).2 hbegins
    have hunfit : Body.parse Body.newTeam empty.body.bytes = .error .bodyFields := by rfl
    rw [hunfit] at ha
    cases ha
  obtain ⟨f, -, hstatus, -, hoffice⟩ := ((malformed_unless_begun_well "" .epoch false
    (e := .addTeam) rfl (r := empty) rfl rfl rfl default).1 (by decide) rfl).1 hnot
  obtain ⟨hstatus', -, hoffice'⟩ := (malformed_unless_begun_well "" .epoch false
    (e := .addTeam) rfl (r := long) rfl rfl rfl default).2 length_tooMany
  exact ⟨hnot, hstatus, hoffice, hstatus', hoffice'⟩

/-- Too many bytes of this kind are no JSON text. -/
theorem not_isJson_tooMany (d : Draft) : ¬ IsJson tooMany d := by
  have hscan : tooMany.foldl Json.Scanner.step {} = ⟨[], .stopped⟩ := by
    rw [tooMany, List.replicate_succ, List.foldl_cons]
    exact Json.foldl_step_stopped [] _
  exact Json.not_isJson_of_stopped hscan d

/-- A body that is no JSON text is served if it only begins with one, and so is one that is no text
at all, if its broken bytes stand where nobody reads them.  A body that is too long is reported as a
fault of the service. -/
theorem malformed_served_or_internal :
    let tailed := posted "/team/add"
      "\x7b\"team_name\":\"t\",\"members\":[]\x7dx".toUTF8.data.toList
    let blurred := posted "/team/add" ("\x7b\"x\":\"".toUTF8.data.toList ++ 255 ::
      "\",\"team_name\":\"t\",\"members\":[]\x7d".toUTF8.data.toList)
    let long := posted "/team/add" tooMany
    ((∀ d, ¬ IsJson tailed.body.bytes d) ∧
      (respond "" .epoch false tailed default).1.status = 201 ∧
      (respond "" .epoch false tailed default).2.store.teams = ["t"]) ∧
    (Utf8.decode? blurred.body.bytes = none ∧
      (respond "" .epoch false blurred default).1.status = 201 ∧
      (respond "" .epoch false blurred default).2.store.teams = ["t"]) ∧
    (∀ d, ¬ IsJson long.body.bytes d) ∧ (respond "" .epoch false long default).1.status = 500 := by
  intro tailed blurred long
  have htailed : ∃ ts, tailed.body.bytes.foldl Json.Scanner.step {} = ⟨ts, .stopped⟩ := ⟨_, rfl⟩
  obtain ⟨ts, hts⟩ := htailed
  have hdecode : Endpoint.addTeam.decode long = .error (.failure .internal) :=
    Endpoint.decode_of_long rfl rfl length_tooMany
  exact ⟨⟨Json.not_isJson_of_stopped hts, rfl, rfl⟩, ⟨rfl, rfl, rfl⟩, not_isJson_tooMany,
    (respond_of_decode_error rfl rfl rfl hdecode).1⟩

end Service

end Http

end ReviewDesk
