import ReviewDesk.Http.Service
import ReviewDesk.Store.View

/-!
# Sessions

A session is a list of steps that share a store, a stream of words and a clock
that goes ahead with every step, by a second or, where bytes are sent, by as
many as there may be requests in them.  A step is an operation, one of the
statements operations are made of, a change of single rows, or a block of
steps.

A block runs within a transaction: its steps see each other's changes, and at
its end they are all kept or all taken back.  Blocks can be nested.  Steps that
fail leave no trace in the store, but the words they drew stay drawn.
-/

namespace ReviewDesk

/-- A step of a session. -/
inductive Step where
  | operation (op : Operation)
  /-- Deactivates a team within the enclosing block. -/
  | deactivateHere (team : TeamName)
  | findUser (id : UserId)
  | findPull (id : PullId)
  | activeMembers (team : TeamName)
  | reviewersOf (id : PullId)
  | loadPull (id : PullId)
  | addTeam (name : TeamName)
  | addPull (p : StoredPull)
  | addReviewers (id : PullId) (reviewers : List UserId)
  | swapReviewer (id : PullId) (old : UserId) (new : Option UserId)
  | insertRow (row : Row)
  | deleteRow (key : Key)
  /-- Stores any text as the status of a pull request. -/
  | setStatus (id : PullId) (status : String)
  /-- Runs steps within a transaction and keeps their changes or not. -/
  | block (steps : List Step) (isKept : Bool)
  | dump
  | relations
  /-- Closes the store for good. -/
  | close
  /-- Sends bytes to the service, while somebody else may hold the storage; an
  enclosing block does hold it. -/
  | send (bytes : List UInt8) (isHeld : Bool)
  /-- A step nobody knows. -/
  | unknown
deriving Inhabited

/-- How many seconds the clock goes ahead with a step. -/
def Step.span : Step → Nat
  | .send bytes _ => bytes.length + 1
  | _ => 1

/-- What came of a step. -/
inductive Outcome where
  | value (v : Json)
  | failure (f : Failure)
  /-- The store refused; for a row to be put in or taken out, whether its key
  was taken. -/
  | refusal (clash : Option Bool)
  | response (r : Http.Response)
  /-- The step needs a block around it. -/
  | noBlock
  | unknown

/-- The reply to a step. -/
inductive Reply where
  /-- What came of it, how many words it drew, and the store afterwards, if
  wanted. -/
  | single (outcome : Outcome) (drawn : Nat) (state : Option Json)
  /-- The replies to the steps of a block. -/
  | block (replies : List Reply) (state : Option Json)

/-- Where a session stands. -/
structure Scene where
  office : Office
  now : Instant

namespace Scene

/-- The scene after another office took the place of this one in a step. -/
def after (s : Scene) (step : Step) (o : Office) : Scene := ⟨o, s.now.plusSeconds step.span⟩

/-- The scene with another store. -/
def withStore (s : Scene) (store : Store) : Scene := { s with office := { s.office with store } }

end Scene

namespace Session

/-- A user in a reply. -/
def userJson (u : User) : Json :=
  .record [("id", .text u.id), ("name", .text u.name), ("team", .text u.team),
    ("active", .bool u.isActive)]

/-- A value in a reply, or null. -/
def orNull {α : Type} (toJson : α → Json) : Option α → Json
  | some a => toJson a
  | none => .null

/-- Works at the desk and shows the answer. -/
def atDesk {α : Type} (work : Desk α) (toJson : α → Json) (o : Office) : Outcome × Office :=
  match work o with
  | .ok a o' => (.value (toJson a), o')
  | .error f o' => (.failure f, o')

/-- Puts rows in or takes them out, and tells how many. -/
def onRows (count : Nat) (changed : Except Fault Store) (o : Office) : Outcome × Office :=
  match changed with
  | .ok s => (.value (.int count), { o with store := s })
  | .error fault => (.refusal (some fault.isClash), o)

/-- Takes a step that is no block. -/
def take (newId : String) (isInBlock : Bool) (now : Instant) : Step → Office → Outcome × Office
  | .operation op, o => atDesk (op.run now) Answer.toJson o
  | .deactivateHere team, o =>
    if isInBlock then atDesk (Desk.deactivateHere team) Deactivation.toJson o else (.noBlock, o)
  | .findUser id, o => atDesk (Desk.ask (·.findUser id)) (orNull userJson) o
  | .findPull id, o => atDesk (Desk.ask (·.findPull id)) (orNull Pull.row) o
  | .activeMembers team, o =>
    atDesk (Desk.ask (·.activeMembers team)) (fun s => Json.texts s.toList) o
  | .reviewersOf id, o => atDesk (Desk.ask (·.reviewersOf id)) (fun s => Json.texts s.toList) o
  | .loadPull id, o => atDesk (Desk.loadPull id) (orNull PullRequest.toJson) o
  | .addTeam name, o => atDesk (Desk.addTeam name) (fun _ => .null) o
  | .addPull p, o => atDesk (Desk.addPull p) (fun _ => .null) o
  | .addReviewers id reviewers, o => atDesk (Desk.addReviewers id reviewers) (fun _ => .null) o
  | .swapReviewer id old new, o => atDesk (Desk.swapReviewer id old new) (fun _ => .null) o
  | .insertRow row, o => onRows 1 (o.store.insert row) o
  | .deleteRow key, o => onRows (o.store.count key) (o.store.delete key) o
  | .setStatus id status, o =>
    match o.store.setStatus id status with
    | .ok s => (.value (.int (o.store.count (.pull id))), { o with store := s })
    | .error _ => (.refusal none, o)
  | .dump, o => (.value o.store.dump, o)
  | .relations, o =>
    match o.store.relations with
    | .ok v => (.value v, o)
    | .error _ => (.refusal none, o)
  | .close, o => (.value .null, { o with store := { o.store with isOpen := false } })
  | .send bytes isHeld, o =>
    let (response, o') := Http.Service.serve newId now (isHeld || isInBlock) bytes o
    (.response response, o')
  | .block _ _, o => (.unknown, o)
  | .unknown, o => (.unknown, o)

/-- How a session is run. -/
structure Mode where
  /-- Whether replies show the store. -/
  traces : Bool
  /-- The id of a request that brings none. -/
  newId : String

/-- The store after a step, where replies show it. -/
def traced (traces : Bool) (step : Step) (s : Scene) : Option Json :=
  match step with
  | .dump => none
  | _ => if traces then some s.office.store.dump else none

mutual

/-- Takes a step. -/
def run (mode : Mode) (isInBlock : Bool) : Step → Scene → Reply × Scene
  | .block steps isKept, s =>
    if s.office.store.isOpen then
      let (replies, inner) := runAll mode true steps s
      let outer := if isKept then inner else inner.withStore s.office.store
      (.block replies (traced mode.traces (.block steps isKept) outer), outer)
    else (.single (.refusal none) 0 (traced mode.traces (.block steps isKept) s), s)
  | step, s =>
    let (outcome, office) := take mode.newId isInBlock s.now step s.office
    let s' := s.after step office
    (.single outcome (office.words.taken - s.office.words.taken) (traced mode.traces step s'), s')

/-- Takes the steps of a list one after the other. -/
def runAll (mode : Mode) (isInBlock : Bool) : List Step → Scene → List Reply × Scene
  | [], s => ([], s)
  | step :: later, s =>
    let (reply, s) := run mode isInBlock step s
    let (replies, s) := runAll mode isInBlock later s
    (reply :: replies, s)

end

end Session

end ReviewDesk
