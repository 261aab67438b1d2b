import ReviewDesk.Failure
import ReviewDesk.Http.Coding

/-!
# HTTP responses

A response has a status, header fields and perhaps a JSON body.  Every response
the service gives itself carries the same fields: whoever asks may read it from
anywhere, it may differ with the fields of the request that `vary` names, and
it has the id of the request.
-/

namespace ReviewDesk

namespace Http

/-- A response. -/
structure Response where
  status : Nat
  headers : List (String × String) := []
  body : Option Json := none

namespace Response

/-- The value of a header field. -/
def value? (r : Response) (name : String) : Option String :=
  (r.headers.find? (·.1 = name)).map (·.2)

/-- A response without a body. -/
def bare (status : Nat) : Response := { status }

/-- A response with a JSON body. -/
def json (status : Nat) (body : Json) : Response :=
  { status, headers := [("content-type", "application/json")], body }

/-- The response that reports a failure. -/
def ofFailure (f : Failure) : Response := json f.status f.body

/-- The response with one more header field. -/
def withHeader (r : Response) (name value : String) : Response :=
  { r with headers := r.headers ++ [(name, value)] }

/-- The response that names the methods of an endpoint. -/
def allowing (r : Response) (methods : List String) : Response :=
  r.withHeader "allow" (",".intercalate methods)

/-- The response to the question what may be asked from elsewhere. -/
def preflight : Response :=
  ((bare 200).withHeader "access-control-allow-methods" "*").withHeader
    "access-control-allow-headers" "*"

/-- The response with its body coded, which a field tells. -/
def coded (r : Response) (coding : Coding) : Response :=
  if coding = .identity then r else r.withHeader "content-encoding" coding.name

/-- Whether the body goes out coded. -/
def isCoded (r : Response) : Bool := (r.value? "content-encoding").isSome

/-- The response with the fields that every response carries. -/
def signed (r : Response) (requestId : String) : Response :=
  { r with headers := r.headers ++ [
    ("access-control-allow-origin", "*"),
    ("vary",
      "origin, access-control-request-method, access-control-request-headers, accept-encoding"),
    ("x-request-id", requestId)] }

/-- The response without its body, as it answers a question for the fields
only. -/
def withoutBody (r : Response) : Response := { r with body := none }

end Response

end Http

end ReviewDesk
