import ReviewDesk.Text.Pieces

/-!
# Targets of requests

The first line of a request names its target: a path with perhaps a query and a
fragment behind it, the same behind a scheme and an authority, an authority
alone, or a star for the service as a whole.  A fragment is dropped, and what
has no path of its own has the empty one.

An authority is the name of a host, perhaps with a user before an at sign and a
port behind a colon; within brackets a name may have colons of its own, and a
percent sign can stand only in the user's part.

* `ofText?_path` — a path of characters that a path can have is read as it
  stands.
-/

namespace ReviewDesk

namespace Http

/-- What has been seen of an authority since its last at sign. -/
structure Authority where
  colons : Nat := 0
  isOpened : Bool := false
  isClosed : Bool := false
  hasPercent : Bool := false
  /-- Whether it ends in an at sign so far. -/
  endsInAt : Bool := false
deriving DecidableEq

namespace Authority

/-- The most colons that can be seen before they are found to belong to a user
or to stand in brackets. -/
def maxColons : Nat := 8

/-- Whether a character can stand anywhere in an authority. -/
def isPlainChar (c : Char) : Bool := c.isAlphanum || "!$&'()*+,-.;=_~".toList.contains c

/-- Looks at one more character. -/
def step (a : Authority) (c : Char) : Option Authority :=
  let a := { a with endsInAt := false }
  match c with
  | ':' => if a.colons < maxColons then some { a with colons := a.colons + 1 } else none
  | '[' => if a.hasPercent || a.isOpened then none else some { a with isOpened := true }
  | ']' =>
    if ! a.isOpened || a.isClosed then none
    else some { a with isClosed := true, colons := 0, hasPercent := false }
  | '@' => some { a with colons := 0, hasPercent := false, endsInAt := true }
  | '%' => some { a with hasPercent := true }
  | c => if isPlainChar c then some a else none

/-- Whether an authority can end so. -/
def isComplete (a : Authority) : Bool :=
  a.isOpened = a.isClosed && a.colons ≤ 1 && ! a.endsInAt && ! a.hasPercent

/-- Whether a text is an authority. -/
def accepts (cs : List Char) : Bool :=
  ! cs.isEmpty && (cs.foldlM step {}).any isComplete

/-- Whether a character ends an authority. -/
def isEnd (c : Char) : Bool := c = '/' || c = '?' || c = '#'

end Authority

/-- Where a request goes. -/
structure Target where
  path : String
  /-- The characters of the query; none if there is no query. -/
  query : List Char
deriving DecidableEq

namespace Target

/-- Whether a character can stand in a target at all. -/
def isChar (c : Char) : Bool := 32 < c.toNat && c.toNat ≠ 127

/-- Whether a character can stand in a path. -/
def isPathChar (c : Char) : Bool := isChar c && ! "#<>?`".toList.contains c

/-- Whether a character can stand in a query. -/
def isQueryChar (c : Char) : Bool := isChar c && ! "\"#<>".toList.contains c

/-- Whether a character can stand in a scheme. -/
def isSchemeChar (c : Char) : Bool := c.isAlphanum || "+-.~".toList.contains c

/-- The most characters of a scheme. -/
def maxScheme : Nat := 64

/-- Reads a path with what stands behind it; an empty path is the root. -/
def ofLocation? (cs : List Char) : Option Target :=
  let (path, rest) := Pieces.leading (· ≠ '?') (Pieces.leading (· ≠ '#') cs).1
  let query := rest.drop 1
  if path.all isPathChar && query.all isQueryChar then
    some ⟨if path.isEmpty then "/" else String.ofList path, query⟩
  else none

/-- Reads a target behind its scheme. -/
def ofAbsolute? (cs : List Char) : Option Target :=
  let (authority, rest) := Pieces.leading (! Authority.isEnd ·) cs
  if Authority.accepts authority then ofLocation? rest else none

/-- Reads a target. -/
def ofText? (cs : List Char) : Option Target :=
  match cs with
  | ['*'] => some ⟨"*", []⟩
  | '/' :: _ => ofLocation? cs
  | _ =>
    match Pieces.leading isSchemeChar cs with
    | (scheme, ':' :: '/' :: '/' :: rest) =>
      if scheme.length ≤ maxScheme then ofAbsolute? rest else none
    | _ => if Authority.accepts cs then some ⟨"", []⟩ else none

/-- A path of characters that a path can have is read as it stands. -/
theorem ofText?_path {cs : List Char} (h : ('/' :: cs).all isPathChar = true) :
    ofText? ('/' :: cs) = some ⟨String.ofList ('/' :: cs), []⟩ := by
  have hne : ∀ c ∈ '/' :: cs, c ≠ '#' ∧ c ≠ '?' := by
    intro c hc
    have hp := List.all_eq_true.1 h c hc
    constructor <;> (rintro rfl; exact absurd hp (by decide))
  have hhash := Pieces.leading_eq_of_all (· ≠ '#') fun c hc => by simpa using (hne c hc).1
  have hquery := Pieces.leading_eq_of_all (· ≠ '?') fun c hc => by simpa using (hne c hc).2
  show ofLocation? ('/' :: cs) = _
  unfold ofLocation?
  rw [hhash, hquery]
  simp only [h]
  rfl

end Target

end Http

end ReviewDesk
