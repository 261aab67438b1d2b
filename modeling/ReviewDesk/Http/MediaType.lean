import ReviewDesk.Http.Request
import ReviewDesk.Http.Token

/-!
# Media types

A media type is a type and a subtype, and what stands behind the last plus of
the subtype is its suffix.  Parameters may follow; they have to be well formed
but do not matter.  A body is JSON if it comes as `application/json` or with
the suffix `json`.
-/

namespace ReviewDesk

namespace Http

namespace MediaType

/-- Where reading of the parameters stands. -/
inductive Place where
  /-- Before a name. -/
  | beforeName
  | name
  /-- Behind the equals sign. -/
  | beforeValue
  | value
  /-- Behind the quote that opens a value. -/
  | opened
  | quoted
  /-- Behind the quote that closes a value. -/
  | closed
  | lost
deriving DecidableEq

/-- Whether a character can stand between quotes. -/
def isQuotable (c : Char) : Bool := 31 < c.toNat && c.toNat ≠ 127

/-- Reads a character of the parameters. -/
def step : Place → Char → Place
  | .beforeName, c => if c = ' ' then .beforeName else if Token.isChar c then .name else .lost
  | .name, c => if c = '=' then .beforeValue else if Token.isChar c then .name else .lost
  | .beforeValue, c => if c = '"' then .opened else if Token.isChar c then .value else .lost
  | .value, c => if c = ';' then .beforeName else if Token.isChar c then .value else .lost
  | .opened, c => if isQuotable c then .quoted else .lost
  | .quoted, c => if c = '"' then .closed else if isQuotable c then .quoted else .lost
  | .closed, c => if c = ';' then .beforeName else if c = ' ' then .closed else .lost
  | .lost, _ => .lost

/-- Whether the parameters can end here. -/
def Place.isEnd : Place → Bool
  | .beforeName | .beforeValue | .value | .closed => true
  | _ => false

/-- Whether parameters are well formed. -/
def areParameters (cs : List Char) : Bool := (cs.foldl step .beforeName).isEnd

/-- The subtype without its suffix and the suffix, if there is one: the last
plus parts them, unless it comes first. -/
def split (subtype : List Char) : List Char × Option (List Char) :=
  let suffix := (subtype.reverse.takeWhile (· ≠ '+')).reverse
  let main := subtype.take (subtype.length - suffix.length - 1)
  if main.isEmpty then (subtype, none) else (main, some suffix)

/-- Whether a media type says that a body is JSON. -/
def isJson (value : String) : Bool :=
  let cs := (Ascii.lower value).toList
  let type := cs.takeWhile Token.isChar
  let behind := cs.drop type.length
  let subtype := (behind.drop 1).takeWhile Token.isChar
  let rest := (behind.drop 1).drop subtype.length
  let (main, suffix) := split subtype
  type = "application".toList && behind.head? = some '/'
    && (main = "json".toList || suffix = some "json".toList)
    && (match rest with
      | [] => true
      | ';' :: parameters => areParameters parameters
      | _ => false)

end MediaType

/-- Whether the body of a request comes as JSON. -/
def Request.hasJson (r : Request) : Bool :=
  match r.value? "content-type" with
  | some value => Ascii.isVisible value && MediaType.isJson value
  | none => false

end Http

end ReviewDesk
