import ReviewDesk.Text.Ascii
import ReviewDesk.Text.Blank
import ReviewDesk.Text.Decimal
import ReviewDesk.Text.Pieces

/-!
# Content codings

A client may accept some codings of the answer's body, each with a weight
between 0 and 1.  The one with the largest weight is used, and of several the
one that ranks highest; a weight of zero rules a coding out.  Without any that
is known the body goes out as it is.

* `weight?_le` — no weight is above one.
-/

namespace ReviewDesk

namespace Http

/-- How a body is coded. -/
inductive Coding where
  /-- As it is. -/
  | identity
  | deflate
  | gzip
  | br
  | zstd
deriving DecidableEq, Repr

namespace Coding

/-- The name of a coding. -/
def name : Coding → String
  | identity => "identity"
  | deflate => "deflate"
  | gzip => "gzip"
  | br => "br"
  | zstd => "zstd"

/-- How a coding ranks among those of one weight. -/
def rank : Coding → Nat
  | identity => 0
  | deflate => 1
  | gzip => 2
  | br => 3
  | zstd => 4

/-- The coding of a name. -/
def ofName? (s : String) : Option Coding :=
  match Ascii.lower s with
  | "identity" => some identity
  | "deflate" => some deflate
  | "gzip" | "x-gzip" => some gzip
  | "br" => some br
  | "zstd" => some zstd
  | _ => none

/-- The weight of one, in thousandths. -/
def full : Nat := 1000

/-- Reads the digits behind the point of a weight; at most three. -/
def fraction? : Nat → List Char → Option Nat
  | _, [] => some 0
  | unit, c :: rest => do
    let d ← Decimal.digit? c
    if unit = 0 then none else return unit * d + (← fraction? (unit / 10) rest)

/-- Reads the digit before the point of a weight. -/
def whole? (c : Char) : Option Nat :=
  if c = '0' then some 0 else if c = '1' then some full else none

/-- Reads what stands behind the first digit of a weight. -/
def part? : List Char → Option Nat
  | [] => some 0
  | '.' :: digits => fraction? 100 digits
  | _ => none

/-- Reads a weight, in thousandths. -/
def weight? : List Char → Option Nat
  | q :: '=' :: c :: rest =>
    if q = 'q' ∨ q = 'Q' then
      (whole? c).bind fun whole => (part? rest).bind fun part =>
        if whole + part ≤ full then some (whole + part) else none
    else none
  | _ => none

/-- Reads one entry of a list of accepted codings. -/
def entry? (cs : List Char) : Option (Coding × Nat) := do
  let coding ← ofName? (String.ofList (Blank.trim (cs.takeWhile (· ≠ ';'))))
  match cs.dropWhile (· ≠ ';') with
  | [] => return (coding, full)
  | _ :: weight => return (coding, ← weight? (Blank.trim weight))

/-- Of two weighted codings the one to be used: the later one, unless the
earlier one is better. -/
def better (a b : Coding × Nat) : Coding × Nat :=
  if b.2 < a.2 ∨ a.2 = b.2 ∧ b.1.rank < a.1.rank then a else b

/-- The coding to be used for a client. -/
def preferred (values : List String) : Coding :=
  let entries := (values.filter Ascii.isVisible).flatMap fun v =>
    (Pieces.cutAt ',' v.toList).filterMap entry?
  ((entries.filter (0 < ·.2)).foldl better (identity, 0)).1

theorem weight?_le {cs : List Char} {w : Nat} (h : weight? cs = some w) : w ≤ full := by
  unfold weight? at h
  split at h
  · split at h
    · obtain ⟨whole, -, h⟩ := Option.bind_eq_some_iff.1 h
      obtain ⟨part, -, h⟩ := Option.bind_eq_some_iff.1 h
      split at h
      · rename_i hle
        cases h
        exact hle
      · cases h
    · cases h
  · cases h

end Coding

end Http

end ReviewDesk
