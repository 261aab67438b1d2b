import ReviewDesk.Text.Ascii

/-!
# HTTP requests

A request asks for something at a path, perhaps with a query; it has header
fields and a body.  Of several fields with one name the first counts, and names
are compared without regard to case.

A body is what has arrived of it.  It may go on for longer than anybody sends
it, and its coding may be broken; either way some bytes may have come before.
-/

namespace ReviewDesk

namespace Http

/-- How the bytes of a body end. -/
inductive Ending where
  /-- All bytes are there. -/
  | complete
  /-- There should be more, but they do not come. -/
  | stalled
  /-- What comes next cannot be decoded. -/
  | broken
deriving DecidableEq, Repr

/-- The body of a request. -/
structure Body where
  bytes : List UInt8 := []
  ending : Ending := .complete
deriving DecidableEq, Inhabited

/-- A request. -/
structure Request where
  method : String
  path : String
  /-- The characters of the query; none if there is no query. -/
  query : List Char := []
  headers : List (String × String) := []
  body : Body := {}
deriving DecidableEq, Inhabited

namespace Request

/-- The values of the header fields with a name. -/
def values (r : Request) (name : String) : List String :=
  (r.headers.filter fun h => Ascii.lower h.1 = name).map (·.2)

/-- The value of the first header field with a name. -/
def value? (r : Request) (name : String) : Option String := (r.values name).head?

end Request

end Http

end ReviewDesk
