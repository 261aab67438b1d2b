import ReviewDesk.Http.Service
import ReviewDesk.Proofs.AllOrNothing
import ReviewDesk.Proofs.Effect

/-!
# Requests and operations

Six kinds of requests order something: they post a record to one of six paths, and
the record fits its form and its texts keep the length rules.  The service does for
such a request what the operation does and nothing else, and its response tells how
the operation ended.  Every other request leaves the office as it is, also those that
read.

* `ofRequest_eq_ok` — when a body is taken;
* `Request.Orders` — what a request orders;
* `route_cases` — a request changes nothing, or it is an order that is carried out;
* `requests_are_operations` — what becomes of every request;
* `serve_induction` — what operations keep, all requests of a client keep.
-/

namespace ReviewDesk

/-! ## Operations that read -/

namespace Operation

/-- Whether an operation only reads. -/
def isReading : Operation → Bool
  | getTeam _ | reviewsOf _ | stats => true
  | _ => false

open Desk in
/-- An operation that reads leaves the office as it is, whether it answers or not. -/
theorem office_of_isReading {op : Operation} (h : op.isReading = true) (now : Instant)
    (o : Office) : (∃ a, op.run now o = .ok a o) ∨ ∃ f, op.run now o = .error f o := by
  cases hrun : op.run now o with
  | ok a o' =>
      have hsame : o' = o := by
        cases op with
        | getTeam name =>
            obtain ⟨_, ht, -⟩ := map_eq_ok.1 hrun
            exact getTeam_eq_ok ht
        | reviewsOf user =>
            obtain ⟨_, hl, -⟩ := map_eq_ok.1 hrun
            exact (ask_eq_ok.1 hl).2.symm
        | stats =>
            obtain ⟨_, hn, -⟩ := map_eq_ok.1 hrun
            exact (ask_eq_ok.1 hn).2.symm
        | _ => cases h
      exact .inl ⟨a, by rw [hsame]⟩
  | error f o' =>
      have hsame : o' = o := by
        cases op with
        | getTeam name => exact getTeam_eq_error (map_eq_error.1 hrun)
        | reviewsOf user =>
            obtain ⟨_, -, -, heq⟩ := ask_eq_error.1 (map_eq_error.1 hrun)
            exact heq.symm
        | stats =>
            obtain ⟨_, -, -, heq⟩ := ask_eq_error.1 (map_eq_error.1 hrun)
            exact heq.symm
        | _ => cases h
      exact .inr ⟨f, by rw [hsame]⟩

end Operation

namespace Http

/-! ## What a request orders -/

/-- A request posts a record to a path: its body comes as JSON, is not too long and all
there, and reads as the record. -/
structure Request.Posts {σ α : Type} (r : Request) (path : String) (form : Json.Form σ α)
    (value : α) : Prop where
  method : r.method = "POST"
  path : r.path = path
  isJson : r.hasJson = true
  isShort : r.body.bytes.length ≤ Body.maxLength
  isComplete : r.body.ending = .complete
  reads : form.read (Json.draft r.body.bytes) = .ok value

open LengthRule in
/-- What a request orders, the status of the response if it answers, and the name under
which the answer goes out, if any. -/
inductive Request.Orders (r : Request) : Operation → Nat → Option String → Prop
  | addTeam {name : TeamName} {members : List Member}
      (posts : r.Posts "/team/add" Body.newTeam (name, members)) (nameLength : accepts name = true)
      (memberLengths : ∀ m ∈ members,
        acceptsBytes m.userId = true ∧ acceptsBytes m.username = true) :
      Orders r (.createTeam name members) 201 (some "team")
  | deactivateTeam {name : TeamName}
      (posts : r.Posts "/team/deactivate" (Body.text "team_name") name)
      (length : accepts name = true) : Orders r (.deactivate name) 200 none
  | setIsActive {user : UserId} {isActive : Bool}
      (posts : r.Posts "/users/setIsActive" Body.userFlag (user, isActive))
      (length : accepts user = true) : Orders r (.setActive user isActive) 200 (some "user")
  | createPull {id : PullId} {name : String} {author : UserId}
      (posts : r.Posts "/pullRequest/create" Body.newPull ((id, name), author))
      (lengths : accepts id = true ∧ accepts name = true ∧ accepts author = true) :
      Orders r (.createPull id name author) 201 (some "pr")
  | mergePull {id : PullId}
      (posts : r.Posts "/pullRequest/merge" (Body.text "pull_request_id") id)
      (length : accepts id = true) : Orders r (.mergePull id) 200 (some "pr")
  | reassign {id : PullId} {old : UserId}
      (posts : r.Posts "/pullRequest/reassign" Body.replacement (id, old))
      (lengths : accepts id = true ∧ accepts old = true) : Orders r (.reassign id old) 200 none

theorem Request.Orders.method {r : Request} {op : Operation} {status : Nat} {name : Option String}
    (h : r.Orders op status name) : r.method = "POST" := by
  cases h with
  | addTeam posts => exact posts.method
  | deactivateTeam posts => exact posts.method
  | setIsActive posts => exact posts.method
  | createPull posts => exact posts.method
  | mergePull posts => exact posts.method
  | reassign posts => exact posts.method

theorem Request.Orders.method_ne_head {r : Request} {op : Operation} {status : Nat}
    {name : Option String} (h : r.Orders op status name) : r.method ≠ "HEAD" := by
  rw [h.method]
  decide

/-! ## Decoding -/

theorem bind_eq_ok_iff {ε α β : Type} {x : Except ε α} {next : α → Except ε β} {b : β} :
    (x >>= next) = .ok b ↔ ∃ a, x = .ok a ∧ next a = .ok b := by
  cases x with
  | ok a =>
      constructor
      · intro h
        exact ⟨a, rfl, h⟩
      · intro h
        obtain ⟨_, ⟨⟩, h⟩ := h
        exact h
  | error e =>
      constructor
      · intro h
        cases h
      · intro h
        obtain ⟨_, ⟨⟩, -⟩ := h

theorem mapError_eq_ok_iff {ε η α : Type} {x : Except ε α} {g : ε → η} {a : α} :
    x.mapError g = .ok a ↔ x = .ok a := by
  cases x with
  | ok b => exact ⟨fun h => congrArg _ (Except.ok.inj h), fun h => congrArg _ (Except.ok.inj h)⟩
  | error e => exact ⟨nofun, nofun⟩

namespace Body

theorem arrived_eq_ok {body : Body} {bytes : List UInt8} :
    arrived body = .ok bytes ↔
      body.bytes.length ≤ maxLength ∧ body.ending = .complete ∧ body.bytes = bytes := by
  unfold arrived
  by_cases hlong : maxLength < body.bytes.length
  · simp [hlong, Nat.not_le.2 hlong]
  · have hshort : body.bytes.length ≤ maxLength := Nat.not_lt.1 hlong
    cases hending : body.ending <;> simp [hlong, hshort]

/-- A body is taken if it comes as JSON, is not too long and all there, and reads as a
record of the form. -/
theorem ofRequest_eq_ok {σ α : Type} {form : Json.Form σ α} {r : Request} {value : α} :
    ofRequest form r = .ok value ↔
      r.hasJson = true ∧ r.body.bytes.length ≤ maxLength ∧ r.body.ending = .complete ∧
        form.read (Json.draft r.body.bytes) = .ok value := by
  unfold ofRequest
  by_cases hjson : r.hasJson = true
  · simp only [hjson, not_true_eq_false, if_false, bind_eq_ok_iff, arrived_eq_ok,
      mapError_eq_ok_iff, parse, true_and]
    constructor
    · intro h
      obtain ⟨_, ⟨hshort, hcomplete, rfl⟩, hread⟩ := h
      exact ⟨hshort, hcomplete, hread⟩
    · intro h
      obtain ⟨hshort, hcomplete, hread⟩ := h
      exact ⟨_, ⟨hshort, hcomplete, rfl⟩, hread⟩
  · simp [hjson, bind, Except.bind, throw, throwThe, MonadExceptOf.throw]

end Body

/-- What is posted to a path is what is taken there from the body. -/
theorem Request.posts_iff {σ α : Type} {r : Request} {path : String} {form : Json.Form σ α}
    {value : α} :
    r.Posts path form value ↔
      r.method = "POST" ∧ r.path = path ∧ Body.ofRequest form r = .ok value := by
  rw [Body.ofRequest_eq_ok]
  constructor
  · intro h
    exact ⟨h.method, h.path, h.isJson, h.isShort, h.isComplete, h.reads⟩
  · intro h
    obtain ⟨method, path, isJson, isShort, isComplete, reads⟩ := h
    exact ⟨method, path, isJson, isShort, isComplete, reads⟩

theorem LengthRule.check_eq_ok {isKept : Bool} {op : Operation} {call : Call} :
    check isKept op = .ok call ↔ isKept = true ∧ .operation op = call := by
  unfold check
  split <;> simp_all

theorem LengthRule.all_acceptsMember {members : List Member} :
    members.all acceptsMember = true ↔
      ∀ m ∈ members, acceptsBytes m.userId = true ∧ acceptsBytes m.username = true := by
  simp [acceptsMember]

namespace Endpoint

theorem path_of_ofPath? {path : String} {e : Endpoint} (h : ofPath? path = some e) :
    path = e.path := by
  have hpath := List.find?_some h
  exact (of_decide_eq_true hpath).symm

theorem ofPath?_path (e : Endpoint) : ofPath? e.path = some e := by
  cases e <;> decide

/-- A request that is decoded at an endpoint asks whether the service is well, or reads,
or orders something. -/
theorem decode_cases {e : Endpoint} {r : Request} (hpath : r.path = e.path)
    (hmethod : e.methods.contains r.method = true) {call : Call} (h : e.decode r = .ok call) :
    call = .health ∨ (∃ op, call = .operation op ∧ op.isReading = true) ∨
      ∃ op status name, call = .operation op ∧ r.Orders op status name := by
  have hpost : e.isReading = false → r.method = "POST" := by
    intro hwriting
    rw [methods, hwriting] at hmethod
    simpa using hmethod
  have posts : ∀ {σ α : Type} {form : Json.Form σ α} {value : α}, e.isReading = false →
      Body.ofRequest form r = .ok value → r.Posts e.path form value := fun hwriting hbody =>
    Request.posts_iff.2 ⟨hpost hwriting, hpath, hbody⟩
  cases e with
  | health => exact .inl (Except.ok.inj h).symm
  | stats => exact .inr (.inl ⟨_, (Except.ok.inj h).symm, rfl⟩)
  | getTeam =>
      obtain ⟨name, -, h⟩ := bind_eq_ok_iff.1 h
      exact .inr (.inl ⟨_, (Except.ok.inj h).symm, rfl⟩)
  | getReview =>
      obtain ⟨user, -, h⟩ := bind_eq_ok_iff.1 h
      exact .inr (.inl ⟨_, (Except.ok.inj h).symm, rfl⟩)
  | addTeam =>
      obtain ⟨⟨name, members⟩, hbody, h⟩ := bind_eq_ok_iff.1 h
      obtain ⟨hlengths, rfl⟩ := LengthRule.check_eq_ok.1 h
      obtain ⟨hname, hmembers⟩ := Bool.and_eq_true_iff.1 hlengths
      have hmembers := LengthRule.all_acceptsMember.1 hmembers
      exact .inr (.inr ⟨_, _, _, rfl, .addTeam (posts rfl hbody) hname hmembers⟩)
  | deactivateTeam =>
      obtain ⟨name, hbody, h⟩ := bind_eq_ok_iff.1 h
      obtain ⟨hlength, rfl⟩ := LengthRule.check_eq_ok.1 h
      exact .inr (.inr ⟨_, _, _, rfl, .deactivateTeam (posts rfl hbody) hlength⟩)
  | setIsActive =>
      obtain ⟨⟨user, isActive⟩, hbody, h⟩ := bind_eq_ok_iff.1 h
      obtain ⟨hlength, rfl⟩ := LengthRule.check_eq_ok.1 h
      exact .inr (.inr ⟨_, _, _, rfl, .setIsActive (posts rfl hbody) hlength⟩)
  | createPull =>
      obtain ⟨⟨⟨id, name⟩, author⟩, hbody, h⟩ := bind_eq_ok_iff.1 h
      obtain ⟨hlengths, rfl⟩ := LengthRule.check_eq_ok.1 h
      simp only [Bool.and_eq_true, and_assoc] at hlengths
      exact .inr (.inr ⟨_, _, _, rfl, .createPull (posts rfl hbody) hlengths⟩)
  | mergePull =>
      obtain ⟨id, hbody, h⟩ := bind_eq_ok_iff.1 h
      obtain ⟨hlength, rfl⟩ := LengthRule.check_eq_ok.1 h
      exact .inr (.inr ⟨_, _, _, rfl, .mergePull (posts rfl hbody) hlength⟩)
  | reassign =>
      obtain ⟨⟨id, old⟩, hbody, h⟩ := bind_eq_ok_iff.1 h
      obtain ⟨hlengths, rfl⟩ := LengthRule.check_eq_ok.1 h
      exact .inr (.inr
        ⟨_, _, _, rfl, .reassign (posts rfl hbody) (Bool.and_eq_true_iff.1 hlengths)⟩)

/-- What a request orders is what is decoded at the endpoint of its path. -/
theorem decode_of_orders {r : Request} {op : Operation} {status : Nat} {name : Option String}
    (h : r.Orders op status name) :
    ∃ e : Endpoint, r.path = e.path ∧ e.isReading = false ∧
      e.decode r = .ok (.operation op) := by
  cases h with
  | addTeam posts nameLength memberLengths =>
      obtain ⟨-, hpath, hbody⟩ := Request.posts_iff.1 posts
      have hlengths := Bool.and_eq_true_iff.2
        ⟨nameLength, LengthRule.all_acceptsMember.2 memberLengths⟩
      exact ⟨.addTeam, hpath, rfl,
        bind_eq_ok_iff.2 ⟨_, hbody, LengthRule.check_eq_ok.2 ⟨hlengths, rfl⟩⟩⟩
  | deactivateTeam posts length =>
      obtain ⟨-, hpath, hbody⟩ := Request.posts_iff.1 posts
      exact ⟨.deactivateTeam, hpath, rfl,
        bind_eq_ok_iff.2 ⟨_, hbody, LengthRule.check_eq_ok.2 ⟨length, rfl⟩⟩⟩
  | setIsActive posts length =>
      obtain ⟨-, hpath, hbody⟩ := Request.posts_iff.1 posts
      exact ⟨.setIsActive, hpath, rfl,
        bind_eq_ok_iff.2 ⟨_, hbody, LengthRule.check_eq_ok.2 ⟨length, rfl⟩⟩⟩
  | createPull posts lengths =>
      obtain ⟨-, hpath, hbody⟩ := Request.posts_iff.1 posts
      refine ⟨.createPull, hpath, rfl,
        bind_eq_ok_iff.2 ⟨_, hbody, LengthRule.check_eq_ok.2 ⟨?_, rfl⟩⟩⟩
      simpa only [Bool.and_eq_true, and_assoc] using lengths
  | mergePull posts length =>
      obtain ⟨-, hpath, hbody⟩ := Request.posts_iff.1 posts
      exact ⟨.mergePull, hpath, rfl,
        bind_eq_ok_iff.2 ⟨_, hbody, LengthRule.check_eq_ok.2 ⟨length, rfl⟩⟩⟩
  | reassign posts lengths =>
      obtain ⟨-, hpath, hbody⟩ := Request.posts_iff.1 posts
      have hlengths := Bool.and_eq_true_iff.2 lengths
      exact ⟨.reassign, hpath, rfl,
        bind_eq_ok_iff.2 ⟨_, hbody, LengthRule.check_eq_ok.2 ⟨hlengths, rfl⟩⟩⟩

end Endpoint

namespace Service

variable {now : Instant} {isHeld : Bool} {r : Request} {o : Office} {op : Operation} {status : Nat}
  {name : Option String}

/-! ## Serving -/

/-- What a request asks for at the endpoint of its path is done, unless somebody else holds
the storage. -/
theorem route_of_decode {e : Endpoint} (hpath : r.path = e.path)
    (hmethod : e.methods.contains r.method = true) (hdecode : e.decode r = .ok (.operation op)) :
    route now isHeld r o = if isHeld then (Setback.late.response, o) else operate now op o := by
  have hendpoint : Endpoint.ofPath? r.path = some e := hpath ▸ Endpoint.ofPath?_path e
  have hoptions : r.method ≠ "OPTIONS" := by
    intro hasks
    rw [hasks] at hmethod
    cases e <;> exact absurd hmethod (by decide)
  simp only [route, hendpoint, if_neg hoptions, dispatch, if_neg (not_not_intro hmethod), hdecode,
    answer]

/-- An order is carried out, unless somebody else holds the storage. -/
theorem route_of_orders_held (isHeld : Bool) (h : r.Orders op status name) :
    route now isHeld r o = if isHeld then (Setback.late.response, o) else operate now op o := by
  obtain ⟨e, hpath, hwriting, hdecode⟩ := Endpoint.decode_of_orders h
  have hmethod : e.methods.contains r.method = true := by
    simp [Endpoint.methods, hwriting, h.method]
  exact route_of_decode hpath hmethod hdecode

theorem route_of_orders (h : r.Orders op status name) : route now false r o = operate now op o :=
  route_of_orders_held false h

/-- A request that is no order changes nothing, and an order is carried out or given up. -/
theorem route_cases (now : Instant) (isHeld : Bool) (r : Request) (o : Office) :
    (∃ response, route now isHeld r o = (response, o)) ∨
      ∃ op status name, r.Orders op status name ∧ route now isHeld r o = operate now op o := by
  unfold route
  cases hendpoint : Endpoint.ofPath? r.path with
  | none => exact .inl ⟨_, rfl⟩
  | some e =>
      dsimp only
      by_cases hoptions : r.method = "OPTIONS"
      · exact .inl ⟨_, if_pos hoptions⟩
      rw [if_neg hoptions, dispatch]
      by_cases hmethod : e.methods.contains r.method = true
      · rw [if_neg (not_not_intro hmethod)]
        cases hdecode : e.decode r with
        | error setback => exact .inl ⟨_, rfl⟩
        | ok call =>
            cases isHeld with
            | true => exact .inl ⟨_, rfl⟩
            | false =>
                rcases Endpoint.decode_cases (Endpoint.path_of_ofPath? hendpoint) hmethod hdecode
                  with rfl | ⟨op, rfl, hreading⟩ | ⟨op, status, name, rfl, horders⟩
                · exact .inl ⟨_, rfl⟩
                · left
                  rcases op.office_of_isReading hreading now o with ⟨a, hrun⟩ | ⟨f, hrun⟩
                  · exact ⟨_, by simp only [answer, operate, hrun]; rfl⟩
                  · exact ⟨_, by simp only [answer, operate, hrun]; rfl⟩
                · exact .inr ⟨op, status, name, horders, rfl⟩
      · exact .inl ⟨_, if_pos hmethod⟩

theorem status_finish (newId : String) (r : Request) (response : Response) :
    (finish newId r response).status = response.status := by
  by_cases hidentity : Coding.preferred (r.values "accept-encoding") = .identity <;>
    by_cases hhead : r.method = "HEAD" <;>
      simp [finish, Response.coded, Response.withHeader, Response.signed, Response.withoutBody,
        hidentity, hhead]

theorem body_finish (newId : String) {r : Request} (hhead : r.method ≠ "HEAD")
    (response : Response) : (finish newId r response).body = response.body := by
  by_cases hidentity : Coding.preferred (r.values "accept-encoding") = .identity <;>
    simp [finish, Response.coded, Response.withHeader, Response.signed, hidentity, hhead]

/-- The status and the envelope of a response are those of the order. -/
theorem envelope_of_orders (h : r.Orders op status name) :
    op.status = status ∧
      ∀ a, op.envelope a = name.elim a.toJson fun key => .record [(key, a.toJson)] := by
  cases h <;> exact ⟨rfl, fun _ => rfl⟩

/-- A response that reports a failure comes with the store as it was. -/
theorem store_of_operate (h : 400 ≤ (operate now op o).1.status) :
    (operate now op o).2.store = o.store := by
  unfold operate at h ⊢
  cases hrun : op.run now o with
  | ok a o' =>
      rw [hrun] at h
      have hsuccess : op.status < 400 := by
        cases op <;> simp [Operation.status]
      exact absurd h (Nat.not_le.2 hsuccess)
  | error f o' => exact Operation.store_of_error hrun

/-- **Requests are operations.**  A request that orders an operation leaves the office as
the operation does.  If the operation answers, the response has the status of the order
and shows the answer; if it fails, it has the status of the failure and shows its code
and its message.  A request that orders nothing leaves store and words alone.  So a
response with a status of 400 or more comes with the store as it was, whether or not
somebody else held the storage. -/
theorem requests_are_operations (newId : String) (now : Instant) (r : Request) (o : Office) :
    (∀ op status name, r.Orders op status name →
      let (response, after) := respond newId now false r o
      match op.run now o with
      | .ok a o' => after = o' ∧ response.status = status ∧
          response.body = some (name.elim a.toJson fun key => .record [(key, a.toJson)])
      | .error f o' => after = o' ∧ response.status = f.status ∧
          response.body = some (.record [("error",
            .record [("code", .text f.code), ("message", .text f.message)])])) ∧
    ((¬ ∃ op status name, r.Orders op status name) → (respond newId now false r o).2 = o) ∧
    ∀ isHeld, 400 ≤ (respond newId now isHeld r o).1.status →
      (respond newId now isHeld r o).2.store = o.store := by
  refine ⟨?_, ?_, ?_⟩
  · intro op status name h
    have hhead : r.method ≠ "HEAD" := by
      rw [h.method]
      decide
    simp only [respond, route_of_orders h, status_finish, body_finish newId hhead]
    cases hrun : op.run now o with
    | ok a o' =>
        obtain ⟨hstatus, henvelope⟩ := envelope_of_orders h
        simp only [operate, hrun, true_and]
        exact ⟨hstatus, congrArg some (henvelope a)⟩
    | error f o' =>
        simp only [operate, hrun, true_and]
        exact ⟨rfl, rfl⟩
  · intro hnone
    rcases route_cases now false r o with ⟨response, hroute⟩ | ⟨op, status, name, h, -⟩
    · simp only [respond, hroute]
    · exact absurd ⟨op, status, name, h⟩ hnone
  · intro isHeld hstatus
    simp only [respond, status_finish] at hstatus ⊢
    rcases route_cases now isHeld r o with ⟨response, hroute⟩ | ⟨op, status, name, -, hroute⟩
    · rw [hroute]
    · rw [hroute] at hstatus ⊢
      exact store_of_operate hstatus

/-- A request to deactivate a team. -/
def aDeactivation : Request where
  method := "POST"
  path := "/team/deactivate"
  headers := [("content-type", "application/json")]
  body := { bytes := "\x7b\"team_name\":\"t\"\x7d".toUTF8.data.toList }

/-- It is carried out.  Sent with another method it orders nothing, and the refusal comes
with the store as it was. -/
theorem aDeactivation_served :
    let desk : Office := ⟨.ofTwoTeams, default⟩
    let wrong : Request := { aDeactivation with method := "GET" }
    aDeactivation.Orders (.deactivate "t") 200 none ∧
    (∃ a o', Operation.run .epoch (.deactivate "t") desk = .ok a o' ∧
      (respond "" .epoch false aDeactivation desk).2 = o' ∧
      (respond "" .epoch false aDeactivation desk).1.status = 200 ∧
      (respond "" .epoch false aDeactivation desk).1.body = some a.toJson) ∧
    (¬ ∃ op status name, wrong.Orders op status name) ∧
    (respond "" .epoch false wrong desk).2 = desk ∧
    400 ≤ (respond "" .epoch true wrong desk).1.status ∧
    (respond "" .epoch true wrong desk).2.store = desk.store := by
  intro desk wrong
  have horders : aDeactivation.Orders (.deactivate "t") 200 none :=
    .deactivateTeam ⟨rfl, rfl, rfl, by decide, rfl, rfl⟩ (by decide)
  have hnone : ¬ ∃ op status name, wrong.Orders op status name := by
    intro h
    obtain ⟨op, status, name, h⟩ := h
    have hmethod : "GET" = "POST" := h.method
    exact absurd hmethod (by decide)
  have hstatus : 400 ≤ (respond "" .epoch true wrong desk).1.status := by decide
  obtain ⟨d, o', hd⟩ : ∃ d o', Desk.deactivateHere "t" desk = .ok d o' :=
    Desk.exists_deactivateHere (by decide) (by decide)
  have hrun : Operation.run .epoch (.deactivate "t") desk = .ok (.deactivation d) o' :=
    Desk.map_eq_ok.2 ⟨d, Desk.transaction_eq_ok.2 ⟨rfl, hd⟩, rfl⟩
  -- from here on the office could be any in which the operation ends so
  clear_value desk
  refine ⟨horders, ?_, hnone, ?_, hstatus, ?_⟩
  · have h := (requests_are_operations "" .epoch aDeactivation desk).1 _ _ _ horders
    rw [hrun] at h
    exact ⟨_, o', hrun, h⟩
  · exact (requests_are_operations "" .epoch wrong desk).2.1 hnone
  · exact (requests_are_operations "" .epoch wrong desk).2.2 true hstatus

/-! ## All requests of a client -/

section Induction

variable {P : Store → Prop} {newId : String}
  (step : ∀ {op : Operation} {now : Instant} {o o' : Office} {a : Answer},
    op.run now o = .ok a o' → P o.store → P o'.store)

include step

theorem respond_keeps (now : Instant) (isHeld : Bool) (r : Request) (h : P o.store) :
    P (respond newId now isHeld r o).2.store := by
  rcases route_cases now isHeld r o with ⟨response, hroute⟩ | ⟨op, status, name, -, hroute⟩
  · simpa only [respond, hroute] using h
  · simp only [respond, hroute, operate]
    cases hrun : op.run now o with
    | ok a o' => exact step hrun h
    | error f o' =>
        rw [← Operation.store_of_error hrun] at h
        exact h

theorem reply_keeps (now : Instant) (isHeld : Bool) (bytes : List UInt8) (h : P o.store) :
    P (reply newId now isHeld bytes o).2.store := by
  unfold reply
  cases Arrival.ofBytes bytes with
  | error refusal => exact h
  | ok a =>
      have hafter : P (respond newId now isHeld a.request o).2.store :=
        respond_keeps step now isHeld a.request h
      exact hafter

/-- **Induction along a connection.**  What is kept by every operation that answers is kept
by all that a client sends. -/
theorem serve_induction (now : Instant) (isHeld : Bool) (bytes : List UInt8) (h : P o.store) :
    P (serve newId now isHeld bytes o).2.store := by
  have hlater : ∀ room now next? o, P o.store → P (goOn newId isHeld room now next? o).store := by
    intro room
    induction room with
    | zero =>
        intro now next? o h
        cases next? <;> exact h
    | succ room ih =>
        intro now next? o h
        cases next? with
        | none => exact h
        | some bytes => exact ih _ _ _ (reply_keeps step now isHeld bytes h)
  exact hlater _ _ _ _ (reply_keeps step now isHeld bytes h)

end Induction

end Service

end Http

end ReviewDesk
