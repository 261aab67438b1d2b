import ReviewDesk.Storage.Opening
import ReviewDesk.Storage.Server

/-!
# Causes of failures of storage

What is wrong with storage is reported as a list of causes.  On its way up every
cause tells of itself and of all those below it, and the outermost one is told
at two levels more, so that its words come several times.
-/

namespace ReviewDesk

/-- The causes of a failure, outermost first. -/
abbrev Causes := List String

namespace Causes

/-- What a cause says of itself and of those below it. -/
def text (causes : Causes) : String := ": ".intercalate causes

/-- What every cause says, outermost first. -/
def texts : Causes → List String
  | [] => []
  | cause :: below => text (cause :: below) :: texts below

/-- The report at a level, where the outermost cause is told twice on its way
up. -/
def reported (causes : Causes) (level : String) : String :=
  ": ".intercalate (level :: causes.text :: causes.text :: causes.texts)

/-- What a file says of itself: a code and words. -/
def ofFile (code : Nat) (words : String) : Causes :=
  ["error returned from database",
    "(code: " ++ String.ofList (Decimal.digits code) ++ ") " ++ words]

/-- A URL means nothing. -/
def ofUrl (below : Causes) : Causes := "error with configuration" :: below

/-- Nobody can be reached. -/
def ofReach (below : Causes) : Causes := "error communicating with database" :: below

/-- The words of a file that cannot be read or written. -/
def badDisk : String := "disk I/O error"

end Causes

open Causes (ofFile ofUrl ofReach badDisk)

/-- The causes when a file cannot be opened. -/
def OpenFault.causes : OpenFault → Causes
  | locator => ofReach ["filename passed to SQLite must not contain nul bytes"]
  | machine name => ofFile 1 ("invalid uri authority: " ++ name)
  | cacheMode value => ofFile 1 ("no such cache mode: " ++ value)
  | accessMode value => ofFile 1 ("no such access mode: " ++ value)
  | notGranted value => ofFile 3 ("access mode not allowed: " ++ value)
  | system name => ofFile 1 ("no such vfs: " ++ name)
  | noFile => ofFile 14 "unable to open database file"
  | noBytes => ofFile 266 badDisk
  | noModel => ofFile 1802 badDisk

/-- The causes when a file cannot be written. -/
def WriteFault.causes : WriteFault → Causes
  | readOnly => ofFile 8 "attempt to write a readonly database"
  | foreign => ofFile 26 "file is not a database"
  | notKept => ofFile 1034 badDisk
  | full => ofFile 13 "database or disk is full"

/-- The causes when the URL of a server means nothing. -/
def ServerFault.causes : ServerFault → Causes
  | text f => ofUrl [f.message]
  | security value => ofUrl (ofUrl [FileAccess.unknownValue "ssl_mode" value])
  | number f => ofUrl [f.message]
  | address => ofUrl ["invalid IP address syntax"]

/-- The causes when a socket cannot be connected to. -/
def SocketFault.causes : SocketFault → Causes
  | nul => ofReach ["paths must not contain interior null bytes"]
  | tooLong => ofReach ["path must be shorter than SUN_LEN"]
  | lack .missing => ofReach ["No such file or directory (os error 2)"]
  | lack .notDirectory => ofReach ["Not a directory (os error 20)"]

end ReviewDesk
