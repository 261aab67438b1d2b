import ReviewDesk.Storage.Locator
import ReviewDesk.Text.Parameters
import ReviewDesk.Text.Quoted

/-!
# Storage URLs

Storage is named by a URL.  Its scheme decides who handles it; white space
around the URL, and tabs and line ends within, do not count there, and neither
does the case of letters.

The URL of a file is taken as it stands: behind its scheme it has a path in
which percent signs stand for bytes, and perhaps parameters that say how the
file is to be opened.  The first thing in it that means nothing is a fault.
What was said goes on in the locator of the file.

* `take_isReadOnly` — once a file is for reading only it stays so.
-/

namespace ReviewDesk

/-- Who handles a storage URL. -/
inductive StorageKind where
  /-- A database server. -/
  | server
  /-- A file. -/
  | file
deriving DecidableEq, Repr

namespace StorageUrl

/-- Whether a character does not count at the ends of a URL. -/
def isPadding (c : Char) : Bool := c.toNat ≤ 32

/-- Whether a character does not count anywhere in a URL. -/
def isBreak (c : Char) : Bool := c = '\t' || c = '\n' || c = '\r'

/-- The characters of a URL that count for its scheme. -/
def counted (url : String) : List Char :=
  (((url.toList.dropWhile isPadding).reverse.dropWhile isPadding).reverse).filter (! isBreak ·)

/-- The scheme of a URL in lower case: what stands before the first colon. -/
def scheme (url : String) : String :=
  Ascii.lower (String.ofList ((counted url).takeWhile (· ≠ ':')))

/-- What counts behind the scheme. -/
def behindScheme (url : String) : List Char := ((counted url).dropWhile (· ≠ ':')).drop 1

/-- Who handles a URL; nobody, if its scheme is unknown or it has none. -/
def kind? (url : String) : Option StorageKind :=
  if ¬ (counted url).contains ':' then none
  else if scheme url = "postgres" ∨ scheme url = "postgresql" then some .server
  else if scheme url = "sqlite" then some .file
  else none

end StorageUrl

/-- What the URL of a file asks for. -/
structure FileAccess where
  path : String
  isReadOnly : Bool := false
  /-- Whether the file is made if there is none. -/
  creates : Bool := false
  /-- Whether there is no file at all, only memory. -/
  isInMemory : Bool := false
  /-- Whether nobody else changes the file meanwhile. -/
  isImmutable : Bool := false
  /-- The name of what gives access to files, if not the usual. -/
  system? : Option String := none
deriving DecidableEq

namespace FileAccess

/-- What is wrong with the URL of a file. -/
inductive Fault where
  /-- The bytes of the path are no text. -/
  | path (f : Utf8.Fault)
  /-- A parameter that is known has a value that is not. -/
  | value (parameter value : String)
  | parameter (name : String)
deriving DecidableEq

/-- What is said of a value that means nothing for a parameter. -/
def unknownValue (parameter value : String) : String :=
  "unknown value " ++ Quoted.quote value ++ " for `" ++ parameter ++ "`"

/-- What is said of a URL. -/
def Fault.message : Fault → String
  | path f => f.message
  | value name v => unknownValue name v
  | parameter name => "unknown query parameter `" ++ name ++ "` while parsing connection URL"

/-- Takes a parameter and its value. -/
def take (a : FileAccess) (entry : String × String) : Except Fault FileAccess :=
  match entry with
  | ("mode", "ro") => .ok { a with isReadOnly := true }
  | ("mode", "rw") => .ok a
  | ("mode", "rwc") => .ok { a with creates := true }
  | ("mode", "memory") => .ok { a with isInMemory := true }
  | ("cache", "private") | ("cache", "shared") => .ok a
  | ("immutable", "true") | ("immutable", "1") => .ok { a with isImmutable := true }
  | ("immutable", "false") | ("immutable", "0") => .ok { a with isImmutable := false }
  | ("vfs", name) => .ok { a with system? := some name }
  | (name, v) =>
    if name ∈ ["mode", "cache", "immutable"] then .error (.value name v)
    else .error (.parameter name)

/-- The path that stands for memory. -/
def memory : List Char := ":memory:".toList

/-- What a path asks for: memory, under a name of its own, or a file. -/
def ofPath (path : List Char) : Except Fault FileAccess :=
  if path = memory then .ok { path := "file:in-memory", isInMemory := true }
  else (Utf8.decode (Percent.bytes path)).map (fun path => { path }) |>.mapError .path

/-- What a URL says behind its scheme. -/
def ofUrl (url : String) : Except Fault FileAccess := do
  let cs := Pieces.behindAll "sqlite:".toList (Pieces.behindAll "sqlite://".toList url.toList)
  let (path, rest) := Pieces.leading (· ≠ '?') cs
  (Parameters.entries (rest.drop 1)).foldlM take (← ofPath path)

/-- The options that the locator of the file has. -/
def options (a : FileAccess) : List String :=
  (if a.isImmutable then ["immutable=true"] else []) ++ (a.system?.map ("vfs=" ++ ·)).toList

/-- The locator of the file: its path, or a URL if there are options.  The path
is encoded there, but what has been said of options is not. -/
def locator (a : FileAccess) : String :=
  if a.options.isEmpty then a.path
  else
    String.ofList (Locator.scheme ++ Percent.encode (Utf8.encode a.path))
      ++ "?" ++ "&".intercalate a.options

/-- Once a file is for reading only it stays so. -/
theorem take_isReadOnly {a b : FileAccess} {entry : String × String} (h : a.take entry = .ok b)
    (ha : a.isReadOnly = true) : b.isReadOnly = true := by
  unfold take at h
  split at h <;> try (cases h; simp [ha])
  split at h <;> cases h

end FileAccess

end ReviewDesk
