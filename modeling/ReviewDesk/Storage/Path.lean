import ReviewDesk.Text.Pieces

/-!
# Paths of files

A path is a list of bytes that slashes part into steps.  An empty step and a
single dot stay where they are, two dots go one step back, and every other step
goes on to a name.  From the root there is no way back.

* `dots_not_mem_after` — no way on is called by two dots.
-/

namespace ReviewDesk

/-- A place on a machine: the names of the steps that lead there from the root,
last one first. -/
abbrev Place := List (List UInt8)

namespace StoragePath

/-- The byte between two steps. -/
def slash : UInt8 := 47

/-- The byte of a dot. -/
def dot : UInt8 := 46

/-- Whether a path starts at the root. -/
def isFromRoot (path : List UInt8) : Bool := path.head? = some slash

/-- The steps of a path. -/
def steps (path : List UInt8) : List (List UInt8) := Pieces.cutAt slash path

/-- Where a step leads. -/
inductive Direction where
  | stay
  | back
  | on (name : List UInt8)
deriving DecidableEq

/-- The direction of a step. -/
def direction (step : List UInt8) : Direction :=
  if step = [] ∨ step = [dot] then .stay else if step = [dot, dot] then .back else .on step

/-- The place that a direction leads to. -/
def Direction.after : Direction → Place → Place
  | stay, place => place
  | back, place => place.drop 1
  | on name, place => name :: place

/-- How many bytes the path of a place has. -/
def pathLength (place : Place) : Nat := place.foldl (fun n name => n + name.length + 1) 0

/-- No way on is called by two dots. -/
theorem dots_not_mem_after {place : Place} (h : [dot, dot] ∉ place) (step : List UInt8) :
    [dot, dot] ∉ (direction step).after place := by
  unfold direction
  split
  · exact h
  · split
    · exact fun hm => h (List.mem_of_mem_drop hm)
    · rename_i hne
      simp [Direction.after, h, Ne.symm hne]

end StoragePath

end ReviewDesk
