import ReviewDesk.Text.Decimal
import ReviewDesk.Text.Hexadecimal
import ReviewDesk.Text.Pieces

/-!
# Network addresses

An address of version 4 is four decimal numbers below 256 with points between
them, written without leading zeros.  One of version 6 is eight groups of one to
four hexadecimal digits with colons between them; two colons stand for at least
one group left out, and the last two groups may be written as an address of
version 4.
-/

namespace ReviewDesk

namespace Address

/-- Whether a text is one of the four numbers. -/
def isOctet (cs : List Char) : Bool :=
  1 ≤ cs.length && cs.length ≤ 3 && (cs.head? ≠ some '0' || cs.length = 1)
    && (Decimal.value? cs).any (· < 256)

/-- Whether a text is an address of version 4. -/
def isFour (cs : List Char) : Bool :=
  let parts := Pieces.cutAt '.' cs
  parts.length = 4 && parts.all isOctet

/-- Whether a text is a group. -/
def isGroup (cs : List Char) : Bool :=
  1 ≤ cs.length && cs.length ≤ 4 && cs.all fun c => (Hexadecimal.digit? c).isSome

/-- How many groups a text is; at its end an address of version 4 may be two of
them, unless that is ruled out. -/
def groups? (allowsFour : Bool) (cs : List Char) : Option Nat :=
  if cs = [] then some 0
  else
    let parts := Pieces.cutAt ':' cs
    if parts.all isGroup then some parts.length
    else if allowsFour && parts.dropLast.all isGroup && parts.getLast?.any isFour then
      some (parts.length + 1)
    else none

/-- What stands before and behind the first two colons. -/
def aroundGap : List Char → Option (List Char × List Char)
  | ':' :: ':' :: rest => some ([], rest)
  | c :: rest => (aroundGap rest).map fun (before, behind) => (c :: before, behind)
  | [] => none

/-- Whether a text is an address of version 6. -/
def isSix (cs : List Char) : Bool :=
  match aroundGap cs with
  | none => groups? true cs = some 8
  | some (before, behind) =>
    match groups? false before, groups? true behind with
    | some n, some k => n + k ≤ 7
    | _, _ => false

/-- Whether a text is an address. -/
def isAddress (s : String) : Bool := isFour s.toList || isSix s.toList

end Address

end ReviewDesk
