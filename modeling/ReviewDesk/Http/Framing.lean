import ReviewDesk.Http.Head
import ReviewDesk.Text.Blank
import ReviewDesk.Text.Decimal
import ReviewDesk.Text.Pieces

/-!
# Framing of bodies

The fields of a head tell where the body ends: either they give its length, or
they say that it is sent in chunks.  A length behind the name of a coding does
not count, and a coding that does not end in chunks leaves the end open, which
is refused.

* `lengthOf?_lt` — a length that can be read fits a word of 64 bits.
-/

namespace ReviewDesk

namespace Http

/-- How the end of a body is told. -/
inductive Framing where
  /-- By its length. -/
  | length (n : Nat)
  /-- By a last chunk. -/
  | chunks
deriving DecidableEq, Repr

/-- What fields have said of a body. -/
structure FramingClaims where
  length? : Option Nat := none
  /-- Whether the last of the codings is that of chunks, if there are codings. -/
  isChunked? : Option Bool := none
deriving DecidableEq

namespace Framing

/-- The first number that does not fit a word of 64 bits. -/
def wordLimit : Nat := 1 <<< 64

/-- The greatest length that a body may have; the two above it are refused as
too large. -/
def maxLength : Nat := wordLimit - 3

/-- The length that a value gives: digits only, and below the limit. -/
def lengthOf? (value : String) : Option Nat :=
  if value.isEmpty then none
  else (Decimal.value? value.toList).filter (· < wordLimit)

/-- Whether a list of codings ends in that of chunks. -/
def endsInChunks (value : String) : Bool :=
  Ascii.isVisible value
    && ((Pieces.cutAt ',' value.toList).getLast?.any fun last =>
      Ascii.lower (String.ofList (Blank.trim last)) = "chunked")

end Framing

namespace FramingClaims

/-- Takes a field that gives a length. -/
def takeLength (c : FramingClaims) (value : String) : Except Refusal FramingClaims :=
  match Framing.lengthOf? value with
  | none => .error .malformed
  | some n =>
    if c.length?.any (· ≠ n) then .error .malformed
    else if Framing.maxLength < n then .error .largeHead
    else .ok { c with length? := some n }

/-- Takes a field that names codings. -/
def takeCodings (c : FramingClaims) (version : Version) (value : String) :
    Except Refusal FramingClaims :=
  match version with
  | .old => .error .malformed
  | .current => .ok { c with isChunked? := some (Framing.endsInChunks value) }

/-- Takes a field. -/
def take (version : Version) (c : FramingClaims) (field : Field) : Except Refusal FramingClaims :=
  if field.1 = "transfer-encoding" then c.takeCodings version field.2
  else if field.1 = "content-length" ∧ c.isChunked? = none then c.takeLength field.2
  else .ok c

/-- The framing that was told; without any the body is empty. -/
def result (c : FramingClaims) : Except Refusal Framing :=
  match c.isChunked? with
  | some true => .ok .chunks
  | some false => .error .malformed
  | none => .ok (.length (c.length?.getD 0))

end FramingClaims

/-- The framing of the body behind a head. -/
def Head.framing (h : Head) : Except Refusal Framing := do
  (← h.fields.foldlM (FramingClaims.take h.version) {}).result

theorem Framing.lengthOf?_lt {value : String} {n : Nat} (h : lengthOf? value = some n) :
    n < wordLimit := by
  unfold lengthOf? at h
  split at h
  · cases h
  · simpa using (Option.filter_eq_some_iff.1 h).2

end Http

end ReviewDesk
