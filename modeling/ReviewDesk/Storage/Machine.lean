import ReviewDesk.Storage.Path

/-!
# The files of a machine

A machine has directories and files, and a home that paths start at which do
not start at the root.

A path is followed in two ways.  Somebody who only writes it out goes back from
every step, also from where nothing is; but the way must not lead beyond a
file, to a name that no directory can have, or become too long.  Somebody who
treads it needs a directory under every step.
-/

namespace ReviewDesk

/-- What a file holds. -/
inductive FileKind where
  /-- What has been stored, or nothing yet. -/
  | storage
  /-- Something else. -/
  | foreign
  /-- Nothing, and what is written is lost. -/
  | device
  /-- Nothing, and there is no room for more. -/
  | full
deriving DecidableEq, Repr

/-- What can be at a place. -/
inductive Node where
  | directory
  | file (kind : FileKind)
deriving DecidableEq, Repr

/-- A machine, as far as its files go. -/
structure Machine where
  home : Place
  node? : Place → Option Node

namespace Machine

open StoragePath

/-- The most bytes of a name. -/
def nameLimit : Nat := 255

/-- The number of bytes at which the path of a place is too long. -/
def pathLimit : Nat := 512

/-- Where a path starts. -/
def start (m : Machine) (path : List UInt8) : Place := if isFromRoot path then [] else m.home

/-- Whether something is in the way from a place to a name. -/
def isBlocked (m : Machine) (place : Place) (name : List UInt8) : Bool :=
  match m.node? place with
  | some .directory => nameLimit < name.length
  | some (.file _) => true
  | none => false

/-- Whether one can go from a place in a direction. -/
def allows (m : Machine) (place : Place) : Direction → Bool
  | .on name => ! m.isBlocked place name && pathLength (name :: place) < pathLimit
  | _ => true

/-- Goes on by a step. -/
def go (m : Machine) (place : Place) (step : List UInt8) : Option Place :=
  let d := direction step
  if m.allows place d then some (d.after place) else none

/-- The place that steps lead to. -/
def follow (m : Machine) (place : Place) (steps : List (List UInt8)) : Option Place :=
  steps.foldlM m.go place

/-- The place that a path written out leads to; nobody goes to the root, or so
far that there is no room for the names that come with a file. -/
def place? (m : Machine) (path : List UInt8) : Option Place :=
  (m.follow (m.start path) (steps path)).filter fun place =>
    place ≠ [] && pathLength place + 8 ≤ pathLimit

/-- Why there is nothing at the end of a path. -/
inductive Lack where
  | missing
  | notDirectory
deriving DecidableEq, Repr

/-- Treads a step. -/
def tread (m : Machine) (place : Place) (step : List UInt8) : Except Lack Place :=
  match m.node? place with
  | none => .error .missing
  | some (.file _) => .error .notDirectory
  | some .directory => .ok ((direction step).after place)

/-- What is found by treading a path. -/
def find (m : Machine) (path : List UInt8) : Except Lack Node := do
  if path = [] then throw .missing
  let place ← (steps path).foldlM m.tread (m.start path)
  match m.node? place with
  | none => throw .missing
  | some node => return node

end Machine

end ReviewDesk
