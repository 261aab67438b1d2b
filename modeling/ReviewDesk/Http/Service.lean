import ReviewDesk.Http.Endpoint
import ReviewDesk.Http.Response
import ReviewDesk.Http.Wire

/-!
# The service

Bytes that are no request are refused.  A request is answered at the desk.  It
is decoded first, and only if that succeeds is the storage needed; when somebody
else holds the storage until the deadline, or not all of the body has come by
then, the request is given up without effect.  Otherwise the operation is
carried out, and its answer or its failure becomes the response.

A client may send more than one request.  All of them are answered, but it waits
for what comes first: the response to its first request, or the word that its
body is read.
-/

namespace ReviewDesk

namespace Operation

/-- The status of the response to an operation that succeeded. -/
def status : Operation → Nat
  | createTeam .. | createPull .. => 201
  | _ => 200

/-- The body of the response to an operation that succeeded: its answer, some
under a name. -/
def envelope (op : Operation) (answer : Answer) : Json :=
  let v := answer.toJson
  match op with
  | createTeam .. => .record [("team", v)]
  | setActive .. => .record [("user", v)]
  | reviewsOf user => .record [("user_id", .text user), ("pull_requests", v)]
  | createPull .. | mergePull .. => .record [("pr", v)]
  | getTeam .. | reassign .. | deactivate .. | stats => v

end Operation

namespace Http

/-- The response to a request that comes to no call. -/
def Setback.response : Setback → Response
  | failure f => .ofFailure f
  | late => .bare 408

namespace Service

/-- Carries out an operation and reports what came of it. -/
def operate (now : Instant) (op : Operation) (o : Office) : Response × Office :=
  match op.run now o with
  | .ok answer o' => (.json op.status (op.envelope answer), o')
  | .error f o' => (.ofFailure f, o')

/-- Tells whether the storage can be used. -/
def health (s : Store) : Response :=
  if s.isOpen then .json 200 (.record [("status", .text "ok")])
  else .json 503 (.record [("status", .text "unavailable")])

/-- Answers a call. -/
def answer (now : Instant) (call : Call) (o : Office) : Response × Office :=
  match call with
  | .operation op => operate now op o
  | .health => (health o.store, o)

/-- Answers a request to an endpoint.  `isHeld` says that somebody else holds the
storage until the deadline. -/
def dispatch (now : Instant) (isHeld : Bool) (e : Endpoint) (r : Request) (o : Office) :
    Response × Office :=
  if ¬ e.methods.contains r.method then ((Response.bare 405).allowing e.methods, o)
  else
    match e.decode r with
    | .error setback => (setback.response, o)
    | .ok call => if isHeld then (Setback.late.response, o) else answer now call o

/-- Answers a request to a path that may lead nowhere. -/
def route (now : Instant) (isHeld : Bool) (r : Request) (o : Office) : Response × Office :=
  match Endpoint.ofPath? r.path with
  | some e =>
    if r.method = "OPTIONS" then (Response.preflight.allowing e.methods, o)
    else dispatch now isHeld e r o
  | none => (if r.method = "OPTIONS" then Response.preflight else Response.bare 404, o)

/-- The response as it goes out: coded as the client prefers, signed with the id
of the request, which is the client's own or else the given one, and without a
body if only the fields were asked for. -/
def finish (newId : String) (r : Request) (response : Response) : Response :=
  let signed := (response.coded (Coding.preferred (r.values "accept-encoding"))).signed
    ((r.value? "x-request-id").getD newId)
  if r.method = "HEAD" then signed.withoutBody else signed

/-- Answers a request. -/
def respond (newId : String) (now : Instant) (isHeld : Bool) (r : Request) (o : Office) :
    Response × Office :=
  let (response, o') := route now isHeld r o
  (finish newId r response, o')

/-- Whether the end of a response is told by the end of the connection: the old
version of the protocol knows no other way for a body that goes out coded. -/
def closesAfter (v : Version) (r : Request) (response : Response) : Bool :=
  v = .old && response.isCoded && r.method ≠ "HEAD"

/-- The word that the body is read. -/
def interim : Response := .bare 100

/-- The first thing that a client gets to see of a response. -/
def firstSeen (a : Arrival) (response : Response) : Response :=
  if a.asksFirst && Endpoint.readsBody a.request then interim else response

/-- Answers the request that bytes start with; tells what the client sees first,
and what is to be looked at next. -/
def reply (newId : String) (now : Instant) (isHeld : Bool) (bytes : List UInt8) (o : Office) :
    (Response × Option (List UInt8)) × Office :=
  match Arrival.ofBytes bytes with
  | .error refusal => ((.bare refusal.status, none), o)
  | .ok a =>
    let (response, o') := respond newId now isHeld a.request o
    let next? := if closesAfter a.version a.request response then none
      else a.next? (Endpoint.readsWholeBody a.request)
    ((firstSeen a response, next?), o')

/-- Answers what is still to be looked at, at most so many requests, each of them
a second after the one before. -/
def goOn (newId : String) (isHeld : Bool) : Nat → Instant → Option (List UInt8) → Office → Office
  | room + 1, now, some bytes, o =>
    let ((_, next?), o') := reply newId now isHeld bytes o
    goOn newId isHeld room (now.plusSeconds 1) next? o'
  | _, _, _, o => o

/-- Answers what a client sends, which is all looked at although the client waits
for the first response only.  A request has at least one byte. -/
def serve (newId : String) (now : Instant) (isHeld : Bool) (bytes : List UInt8) (o : Office) :
    Response × Office :=
  let ((response, next?), o') := reply newId now isHeld bytes o
  (response, goOn newId isHeld bytes.length (now.plusSeconds 1) next? o')

end Service

end Http

end ReviewDesk
