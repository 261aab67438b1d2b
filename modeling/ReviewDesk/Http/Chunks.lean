import ReviewDesk.Http.Head
import ReviewDesk.Http.Request
import ReviewDesk.Text.Hexadecimal

/-!
# Bodies sent in chunks

A chunk is a line with its size in hexadecimal digits, the bytes themselves and
a line end; behind the size there may be blanks and an extension, which means
nothing.  A chunk of size zero is the last one.  Behind it header fields may
follow, which mean nothing either but have to be well formed, and an empty line
ends the body.

The bytes are read one at a time.  Where they run out the body stalls, and at
the first one that does not fit it is broken; behind the end nothing is read.
-/

namespace ReviewDesk

namespace Http

namespace Chunks

/-- Where reading stands. -/
inductive Place where
  /-- Before the first digit of a size. -/
  | beforeSize
  /-- Within the digits of a size. -/
  | size (n : Nat)
  /-- Behind a blank after the digits. -/
  | behindSize (n : Nat)
  | extension (n : Nat)
  /-- Behind the carriage return of a line with a size. -/
  | sizeLineEnd (n : Nat)
  /-- Among the bytes of a chunk, of which so many are to come. -/
  | data (missing : Nat)
  /-- Behind the bytes of a chunk. -/
  | behindData
  /-- Behind the carriage return that follows them. -/
  | dataLineEnd
  /-- At the start of a line behind the last chunk. -/
  | beforeTrailer
  /-- Within such a line. -/
  | trailer
  /-- Behind its carriage return. -/
  | trailerLineEnd
  /-- Behind the carriage return of the empty line. -/
  | lastLineEnd
  /-- Behind the end, which may be none. -/
  | ended (how : Ending)
deriving DecidableEq

/-- What has been read. -/
structure Reading where
  place : Place := .beforeSize
  /-- The bytes of the chunks, last first. -/
  bytes : List UInt8 := []
  /-- How many bytes of extensions there were. -/
  extensionLength : Nat := 0
  /-- The lines behind the last chunk, last byte first. -/
  trailer : List UInt8 := []
  /-- How many bytes they have. -/
  trailerLength : Nat := 0
  /-- How many of those lines have ended. -/
  trailerLines : Nat := 0

/-- The first size that is too large. -/
def sizeLimit : Nat := 1 <<< 64

/-- The number of bytes at which extensions, or the lines behind the last chunk,
are too long. -/
def extraLimit : Nat := 16384

namespace Reading

/-- Goes to another place. -/
def moved (r : Reading) (place : Place) : Reading := { r with place }

/-- Finds the coding broken. -/
def broken (r : Reading) : Reading := { r with place := .ended .broken }

/-- Takes one more digit of a size. -/
def digit (r : Reading) (n d : Nat) : Reading :=
  let size := n * 16 + d
  if size < sizeLimit then r.moved (.size size) else r.broken

/-- Takes a byte behind the digits of a size. -/
def behindDigits (r : Reading) (n : Nat) (c : Char) : Reading :=
  if c = ' ' ∨ c = '\t' then r.moved (.behindSize n)
  else if c = ';' then r.moved (.extension n)
  else if c = '\r' then r.moved (.sizeLineEnd n)
  else r.broken

/-- Takes a byte of an extension. -/
def extension (r : Reading) (n : Nat) : Reading :=
  let length := r.extensionLength + 1
  if length < extraLimit then { r with place := .extension n, extensionLength := length }
  else r.broken

/-- Takes a byte behind the last chunk. -/
def trailing (r : Reading) (b : UInt8) (place : Place) : Reading :=
  let length := r.trailerLength + 1
  if length < extraLimit then
    { r with place, trailer := b :: r.trailer, trailerLength := length }
  else r.broken

/-- Ends the body, if the lines behind the last chunk are header fields. -/
def finish (r : Reading) : Reading :=
  if r.trailerLines = 0 then r.moved (.ended .complete)
  else
    match Lines.fields r.trailerLines r.trailer.reverse with
    | .ok _ => r.moved (.ended .complete)
    | .error _ => r.broken

/-- Takes a byte. -/
def step (r : Reading) (b : UInt8) : Reading :=
  let c := Ascii.char b
  match r.place with
  | .beforeSize =>
    match Hexadecimal.digit? c with
    | some d => r.digit 0 d
    | none => r.broken
  | .size n =>
    match Hexadecimal.digit? c with
    | some d => r.digit n d
    | none => r.behindDigits n c
  | .behindSize n => r.behindDigits n c
  | .extension n =>
    if c = '\r' then r.moved (.sizeLineEnd n)
    else if c = '\n' then r.broken
    else r.extension n
  | .sizeLineEnd n =>
    if c ≠ '\n' then r.broken
    else if n = 0 then r.moved .beforeTrailer
    else r.moved (.data n)
  | .data missing =>
    { r with
      bytes := b :: r.bytes
      place := if missing ≤ 1 then .behindData else .data (missing - 1) }
  | .behindData => if c = '\r' then r.moved .dataLineEnd else r.broken
  | .dataLineEnd => if c = '\n' then r.moved .beforeSize else r.broken
  | .beforeTrailer =>
    if c = '\r' then r.trailing b .lastLineEnd else r.trailing b .trailer
  | .trailer => r.trailing b (if c = '\r' then .trailerLineEnd else .trailer)
  | .trailerLineEnd =>
    if c = '\n' ∧ r.trailerLines < Head.maxFields then
      { r.trailing b .beforeTrailer with trailerLines := r.trailerLines + 1 }
    else r.broken
  | .lastLineEnd => if c = '\n' then (r.trailing b .lastLineEnd).finish else r.broken
  | .ended _ => r

/-- The body that was read; before its end it stalls. -/
def body (r : Reading) : Body :=
  { bytes := r.bytes.reverse
    ending := match r.place with
      | .ended how => how
      | _ => .stalled }

/-- Whether the end has come. -/
def isEnded (r : Reading) : Bool :=
  match r.place with
  | .ended _ => true
  | _ => false

/-- Takes bytes up to the end; what stands behind it is left. -/
def take (r : Reading) : List UInt8 → Reading × List UInt8
  | [] => (r, [])
  | b :: rest => if r.isEnded then (r, b :: rest) else (r.step b).take rest

/-- Whether nothing but chunks has come. -/
def isPlain (r : Reading) : Bool := r.trailerLines = 0

end Reading

/-- Reads a body that is sent in chunks, and what stands behind it. -/
def read (bytes : List UInt8) : Reading × List UInt8 := Reading.take {} bytes

end Chunks

end Http

end ReviewDesk
