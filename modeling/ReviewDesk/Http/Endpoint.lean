import ReviewDesk.Http.MediaType
import ReviewDesk.Json.Form
import ReviewDesk.Operation
import ReviewDesk.Text.Parameters

/-!
# Endpoints

Each endpoint has a path and a method, and turns a request into something that
can be asked of the desk.  What a body or a query has to hold is checked in
this order: that the body comes as JSON, that it is not too long, that all of it
arrives, that it can be read, and that its names and ids keep the length rules.

Names and ids have 1 to 255 characters; but for the members of a new team it is
bytes that are counted.
-/

namespace ReviewDesk

namespace Http

/-- A place where a request can go. -/
inductive Endpoint where
  | addTeam
  | getTeam
  | deactivateTeam
  | setIsActive
  | getReview
  | createPull
  | mergePull
  | reassign
  | stats
  | health
deriving DecidableEq, Repr

/-- What a request asks for. -/
inductive Call where
  | operation (op : Operation)
  /-- Whether the service is well. -/
  | health
deriving DecidableEq

/-- Why a request comes to no call. -/
inductive Setback where
  | failure (f : Failure)
  /-- The deadline passes before all of it is there. -/
  | late
deriving DecidableEq, Repr

namespace Endpoint

/-- All endpoints. -/
def all : List Endpoint :=
  [addTeam, getTeam, deactivateTeam, setIsActive, getReview, createPull, mergePull, reassign,
    stats, health]

/-- The path of an endpoint. -/
def path : Endpoint → String
  | addTeam => "/team/add"
  | getTeam => "/team/get"
  | deactivateTeam => "/team/deactivate"
  | setIsActive => "/users/setIsActive"
  | getReview => "/users/getReview"
  | createPull => "/pullRequest/create"
  | mergePull => "/pullRequest/merge"
  | reassign => "/pullRequest/reassign"
  | stats => "/stats"
  | health => "/health"

/-- Whether an endpoint only reads; the others take a body. -/
def isReading : Endpoint → Bool
  | getTeam | getReview | stats | health => true
  | _ => false

/-- The methods of an endpoint. -/
def methods (e : Endpoint) : List String := if e.isReading then ["GET", "HEAD"] else ["POST"]

/-- The endpoint of a path. -/
def ofPath? (path : String) : Option Endpoint := all.find? (·.path = path)

end Endpoint

namespace Body

open Json (Form)

/-- The longest body that is read, in bytes. -/
def maxLength : Nat := 2 * 1024 * 1024

/-- A text field. -/
def text (name : String) : Form (Option String) String := Form.field name Json.Draft.readText

/-- The form of a member. -/
def member : Form ((Option String × Option String) × Option Bool) Member :=
  (((text "user_id").and (text "username")).and (Form.field "is_active" Json.Draft.readBool)).map
    fun ((userId, username), isActive) => ⟨userId, username, isActive⟩

/-- The form of a new team. -/
def newTeam : Form (Option String × Option (List Member)) (String × List Member) :=
  (text "team_name").and (Form.field "members" (Json.Draft.readList member.read))

/-- The form of a user's flag. -/
def userFlag : Form (Option String × Option Bool) (String × Bool) :=
  (text "user_id").and (Form.field "is_active" Json.Draft.readBool)

/-- The form of a new pull request. -/
def newPull : Form ((Option String × Option String) × Option String) ((String × String) × String) :=
  ((text "pull_request_id").and (text "pull_request_name")).and (text "author_id")

/-- The form of a reviewer to be replaced. -/
def replacement : Form (Option String × Option String) (String × String) :=
  (text "pull_request_id").and (text "old_user_id")

/-- The failure that a body leads to which cannot be read. -/
def failure : Json.Misread → Failure
  | .malformed => .bodySyntax
  | .unfit => .bodyFields

/-- Reads the bytes of a body against a form. -/
def parse {σ α : Type} (form : Form σ α) (bytes : List UInt8) : Except Failure α :=
  (form.read (Json.draft bytes)).mapError failure

/-- Takes the bytes of a body, if it arrives. -/
def arrived (body : Body) : Except Setback (List UInt8) :=
  if maxLength < body.bytes.length then .error (.failure .internal)
  else
    match body.ending with
    | .complete => .ok body.bytes
    | .stalled => .error .late
    | .broken => .error (.failure .internal)

/-- Reads the body of a request against a form. -/
def ofRequest {σ α : Type} (form : Form σ α) (r : Request) : Except Setback α := do
  if ¬ r.hasJson then throw (.failure .bodyType)
  (parse form (← arrived r.body)).mapError .failure

end Body

namespace LengthRule

/-- The most characters, or bytes, of a name or an id. -/
def limit : Nat := 255

/-- Whether a text has a length that names and ids may have. -/
def accepts (s : String) : Bool := 1 ≤ s.length && s.length ≤ limit

/-- Whether a text has a length that the ids and names of new members may have;
here bytes are counted. -/
def acceptsBytes (s : String) : Bool := 1 ≤ s.utf8ByteSize && s.utf8ByteSize ≤ limit

/-- Whether a member keeps the rule. -/
def acceptsMember (m : Member) : Bool := acceptsBytes m.userId && acceptsBytes m.username

/-- Goes on with an operation if its texts keep the rule. -/
def check (isKept : Bool) (op : Operation) : Except Setback Call :=
  if isKept then .ok (.operation op) else .error (.failure .bodyRules)

end LengthRule

namespace Endpoint

open LengthRule

/-- The value of the one parameter a query has to have. -/
def parameter (name : String) (r : Request) : Except Setback String :=
  match Parameters.single? name r.query with
  | some value => if accepts value then .ok value else .error (.failure .query)
  | none => .error (.failure .query)

/-- What a request to this endpoint asks for. -/
def decode (e : Endpoint) (r : Request) : Except Setback Call :=
  match e with
  | addTeam => do
    let (name, members) ← Body.ofRequest Body.newTeam r
    check (accepts name && members.all acceptsMember) (.createTeam name members)
  | deactivateTeam => do
    let name ← Body.ofRequest (Body.text "team_name") r
    check (accepts name) (.deactivate name)
  | setIsActive => do
    let (user, isActive) ← Body.ofRequest Body.userFlag r
    check (accepts user) (.setActive user isActive)
  | createPull => do
    let ((id, name), author) ← Body.ofRequest Body.newPull r
    check (accepts id && accepts name && accepts author) (.createPull id name author)
  | mergePull => do
    let id ← Body.ofRequest (Body.text "pull_request_id") r
    check (accepts id) (.mergePull id)
  | reassign => do
    let (id, old) ← Body.ofRequest Body.replacement r
    check (accepts id && accepts old) (.reassign id old)
  | getTeam => return .operation (.getTeam (← parameter "team_name" r))
  | getReview => return .operation (.reviewsOf (← parameter "user_id" r))
  | stats => .ok (.operation .stats)
  | health => .ok .health

/-- Whether the body of a request is read. -/
def readsBody (r : Request) : Bool :=
  (ofPath? r.path).any (fun e => ! e.isReading && e.methods.contains r.method) && r.hasJson

/-- Whether it is read to its end. -/
def readsWholeBody (r : Request) : Bool := readsBody r && r.body.bytes.length ≤ Body.maxLength

end Endpoint

end Http

end ReviewDesk
