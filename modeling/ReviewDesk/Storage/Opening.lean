import ReviewDesk.Storage.Machine
import ReviewDesk.Storage.Url

/-!
# Opening files

A file is opened on a machine by its locator.  The options of the locator may
narrow what was granted, and some of them choose: whether the storage is in
memory, and by which system files are accessed.  Storage in memory grants every
mode, and a mode that is asked for there leaves memory again.

Storage that has no name, or is in memory, is made anew each time and needs no
machine.

* `rank_le_of_take` — options never grant more than there was, but in memory.
-/

namespace ReviewDesk

/-- Why a file cannot be opened. -/
inductive OpenFault where
  /-- The locator has a character that no file's name can have. -/
  | locator
  /-- The locator names another machine. -/
  | machine (name : String)
  /-- The caches of several users cannot be related so. -/
  | cacheMode (value : String)
  /-- No mode of access is called so. -/
  | accessMode (value : String)
  /-- The mode of access goes beyond what was granted. -/
  | notGranted (value : String)
  /-- Nothing of that name gives access to files. -/
  | system (name : String)
  | noFile
  /-- What is there cannot be read. -/
  | noBytes
  /-- The file whose owner is to be taken over is not there. -/
  | noModel
deriving DecidableEq

/-- Why a file cannot be written. -/
inductive WriteFault where
  | readOnly
  /-- The file holds something else. -/
  | foreign
  /-- The file does not keep what is written. -/
  | notKept
  /-- There is no room. -/
  | full
deriving DecidableEq, Repr

/-- What may be done with a file. -/
inductive Grant where
  | read
  | write
  /-- The file may also be made. -/
  | create
deriving DecidableEq, Repr

namespace Grant

/-- How much is granted. -/
def rank : Grant → Nat
  | read => 0
  | write => 1
  | create => 2

/-- The grant that a mode of access is. -/
def ofMode? : String → Option Grant
  | "ro" => some read
  | "rw" => some write
  | "rwc" => some create
  | _ => none

end Grant

/-- How a file is opened. -/
structure Permit where
  grant : Grant
  isInMemory : Bool
deriving DecidableEq, Repr

namespace Permit

/-- Takes the option that tells the mode of access. -/
def takeMode (p : Permit) (mode : String) : Except OpenFault Permit :=
  if mode = "memory" then .ok ⟨.write, true⟩
  else
    match Grant.ofMode? mode with
    | none => .error (.accessMode mode)
    | some grant =>
      if p.isInMemory ∨ grant.rank ≤ p.grant.rank then .ok ⟨grant, false⟩
      else .error (.notGranted mode)

/-- Takes an option of a locator; most of them change nothing here. -/
def take (p : Permit) (option : String × String) : Except OpenFault Permit :=
  match option with
  | ("mode", mode) => p.takeMode mode
  | ("cache", mode) => if mode ∈ ["shared", "private"] then .ok p else .error (.cacheMode mode)
  | _ => .ok p

/-- A mode of access grants no more than there was, but in memory. -/
theorem rank_le_of_take {p q : Permit} {option : String × String} (h : p.take option = .ok q)
    (hp : p.isInMemory = false) : q.isInMemory = true ∨ q.grant.rank ≤ p.grant.rank := by
  unfold take at h
  split at h
  · unfold takeMode at h
    split at h
    · cases h; exact Or.inl rfl
    · split at h
      · cases h
      · split at h
        · rename_i hle
          cases h
          exact Or.inr (by simpa [hp] using hle)
        · cases h
  · split at h
    · cases h; exact Or.inr (Nat.le_refl _)
    · cases h
  · cases h; exact Or.inr (Nat.le_refl _)

end Permit

/-- An open file. -/
structure OpenFile where
  kind : FileKind
  isReadOnly : Bool
deriving DecidableEq, Repr

namespace OpenFile

/-- Writes to the file, which is looked into first. -/
def write (f : OpenFile) : Except WriteFault Unit :=
  if f.kind = .foreign then .error .foreign
  else if f.isReadOnly then .error .readOnly
  else
    match f.kind with
    | .device => .error .notKept
    | .full => .error .full
    | _ => .ok ()

end OpenFile

namespace FileAccess

/-- The names of what gives access to the files of a machine. -/
def systems : List String := ["unix", "unix-dotfile", "unix-excl", "unix-none"]

/-- The name of what gives access to files that are kept in memory. -/
def memorySystem : String := "memdb"

/-- The most bytes of a path there, with the names that come with a file. -/
def memoryPathLimit : Nat := 1024

/-- What was granted. -/
def permit (a : FileAccess) : Permit :=
  ⟨if a.isReadOnly then .read else if a.creates then .create else .write, a.isInMemory⟩

/-- Opens what is at a place. -/
def openAt (m : Machine) (place : Place) (grant : Grant) : Except OpenFault FileKind :=
  match m.node? place with
  | some (.file kind) => .ok kind
  | some .directory => .error (if grant = .read then .noBytes else .noFile)
  | none =>
    if grant = .create ∧ m.node? (place.drop 1) = some .directory then .ok .storage
    else .error .noFile

/-- Opens a file of a machine by its path; the owner of another file may be taken
over, which then has to be there. -/
def openPath (m : Machine) (l : Locator) (grant : Grant) : Except OpenFault FileKind :=
  match m.place? l.path with
  | none => .error .noFile
  | some place =>
    match (l.first? "modeof").map fun model => m.find (Utf8.encode model) with
    | some (.error _) => .error .noModel
    | _ => openAt m place grant

/-- Opens a file by its locator. -/
def openBy (m : Machine) (a : FileAccess) (l : Locator) : Except OpenFault OpenFile := do
  let permit ← l.options.foldlM Permit.take a.permit
  let system := (l.last? "vfs").getD "unix"
  if ¬ (memorySystem :: systems).contains system then throw (.system system)
  let isReadOnly := permit.grant = .read
  let cannotChange := isReadOnly || (l.first? "immutable").any Locator.isOn
  if permit.isInMemory ∨ l.path = [] ∨ l.path = memory.flatMap String.utf8EncodeChar then
    return ⟨.storage, isReadOnly⟩
  else if system = memorySystem then
    if memoryPathLimit < l.path.length + 8 then throw .noFile
    return ⟨.storage, cannotChange⟩
  else return ⟨← openPath m l permit.grant, cannotChange⟩

/-- Opens a file on a machine. -/
def openOn (m : Machine) (a : FileAccess) : Except OpenFault OpenFile :=
  if a.locator.toList.contains '\x00' then .error .locator
  else
    match Locator.ofText a.locator.toList with
    | .error name => .error (.machine name)
    | .ok l => a.openBy m l

end FileAccess

end ReviewDesk
