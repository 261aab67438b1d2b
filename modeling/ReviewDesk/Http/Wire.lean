import ReviewDesk.Http.Chunks
import ReviewDesk.Http.Framing
import ReviewDesk.Http.Target

/-!
# Requests on the wire

A client sends bytes over a connection and then waits for an answer.  They
start with a request or are refused; a request is there even if its body never
comes to an end.

Behind a request another one may stand.  It is looked at if the client has not
asked to close the connection, and if the first one has an end: a body nobody
reads is passed over as far as it came along with the head, and lines behind
the last chunk of a body leave nothing to go on with.

* `ofLength_append` — a body with a length is not touched by what comes behind;
* `le_intake` — what is wanted has come when it is taken in.
-/

namespace ReviewDesk

namespace Http

namespace Version

/-- Whether the connection goes on behind a head with these fields.  That is the
rule since version 1.1; field by field, what goes on is ended by `close`, and
what does not is made to go on by `keep-alive`. -/
def staysOpen (v : Version) (fields : List Field) : Bool :=
  fields.foldl (fun isOpen field =>
    if field.1 ≠ "connection" then isOpen
    else if isOpen then ! hasWord field.2 "close"
    else hasWord field.2 "keep-alive") (v = .current)
where
  /-- Whether a word is in a list of words. -/
  hasWord (value word : String) : Bool :=
    Ascii.isVisible value
      && (Pieces.cutAt ',' value.toList).any fun piece =>
        Ascii.lower (String.ofList (Blank.trim piece)) = word

/-- Whether the fields of a head ask for a word before the body is read; of
several that are meant for it the last one decides. -/
def asksFirst (v : Version) (fields : List Field) : Bool :=
  v = .current && ((fields.filter (·.1 = "expect")).getLast?).any fun field =>
    Ascii.lower field.2 = "100-continue"

end Version

/-- A body on the wire. -/
structure Passage where
  body : Body
  /-- What stands behind the body, if that can be told. -/
  behind? : Option (List UInt8)
  /-- Whether the body is passed over if nobody reads it. -/
  isPassedOver : Bool

namespace Passage

/-- The most bytes that are taken in at first. -/
def firstIntake : Nat := 8192

/-- How many bytes have been taken in, at most, when `n` are wanted: each time
twice as many as the time before. -/
def intake (n : Nat) : Nat :=
  firstIntake * ((1 <<< (Nat.log2 ((n + (firstIntake - 1)) / firstIntake) + 1)) - 1)

/-- The body of a given length that stands at the start of the bytes, behind a
head of so many bytes. -/
def ofLength (n headLength : Nat) (bytes : List UInt8) : Passage :=
  let arrived := bytes.take n
  let isComplete := ! (arrived.length < n)
  { body := ⟨arrived, if isComplete then .complete else .stalled⟩
    behind? := if isComplete then some (bytes.drop n) else none
    isPassedOver := n = 0 || headLength + n ≤ intake (headLength + 1) }

/-- The body in chunks that stands at the start of the bytes. -/
def ofChunks (bytes : List UInt8) : Passage :=
  let (reading, rest) := Chunks.read bytes
  let body := reading.body
  { body
    behind? := if body.ending = .complete ∧ reading.isPlain then some rest else none
    isPassedOver := body.bytes.isEmpty }

/-- The body that stands at the start of the bytes. -/
def read : Framing → Nat → List UInt8 → Passage
  | .length n, headLength, bytes => ofLength n headLength bytes
  | .chunks, _, bytes => ofChunks bytes

/-- A body with a length is not touched by what comes behind. -/
theorem ofLength_append (headLength : Nat) (bytes rest : List UInt8) :
    (ofLength bytes.length headLength (bytes ++ rest)).body = ⟨bytes, .complete⟩
      ∧ (ofLength bytes.length headLength (bytes ++ rest)).behind? = some rest := by
  simp [ofLength]

/-- What is wanted has come when it is taken in. -/
theorem le_intake (n : Nat) : n ≤ intake n := by
  unfold intake firstIntake
  have h := @Nat.lt_log2_self ((n + (8192 - 1)) / 8192)
  rw [Nat.one_shiftLeft]
  omega

end Passage

/-- A request as it comes over a connection. -/
structure Arrival where
  request : Request
  version : Version
  /-- Whether the connection goes on behind the request. -/
  staysOpen : Bool
  /-- Whether the client wants to be told that somebody reads the body. -/
  asksFirst : Bool
  passage : Passage

namespace Arrival

/-- The request that bytes start with. -/
def ofBytes (bytes : List UInt8) : Except Refusal Arrival := do
  let (head, rest) ← Head.read bytes
  let target ← Head.orMalformed (Target.ofText? head.target.toList)
  let framing ← head.framing
  let passage := Passage.read framing (bytes.length - rest.length) rest
  return {
    request := {
      method := head.method
      path := target.path
      query := target.query
      headers := head.fields
      body := passage.body }
    version := head.version
    staysOpen := head.version.staysOpen head.fields
    asksFirst := framing ≠ .length 0 && head.version.asksFirst head.fields
    passage }

/-- What stands behind the request, if that is to be looked at; `isRead` tells
whether somebody has read the body. -/
def next? (a : Arrival) (isRead : Bool) : Option (List UInt8) :=
  if a.staysOpen && (isRead || a.passage.isPassedOver) then a.passage.behind? else none

end Arrival

end Http

end ReviewDesk
