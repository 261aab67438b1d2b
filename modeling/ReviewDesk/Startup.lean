import ReviewDesk.Config
import ReviewDesk.Storage.Causes

/-!
# Starting the service

Before the service listens it reads its configuration, connects to its storage
and, if it is told so, applies the migrations.  The first thing that fails ends
the start.

* `ofLookup_of_start` — the service runs with the configuration it read.
-/

namespace ReviewDesk

/-- Why the service did not start. -/
inductive StartFailure where
  | config (e : Config.Error)
  /-- Nobody handles the URL. -/
  | noDriver (url : String)
  /-- The URL of a file means nothing. -/
  | url (f : FileAccess.Fault)
  /-- The file cannot be opened. -/
  | opening (f : OpenFault)
  /-- The file cannot be written. -/
  | writing (f : WriteFault)
  /-- The URL of a server means nothing. -/
  | server (f : ServerFault)
  /-- The server does not answer. -/
  | socket (f : SocketFault)
deriving DecidableEq

namespace StartFailure

/-- The level at which storage is connected to. -/
def connecting : String := "Connection Error"

/-- The level at which migrations are applied. -/
def migrating : String := "Execution Error"

/-- The failure and its causes in one line. -/
def message : StartFailure → String
  | config e => e.message
  | noDriver named =>
    let words := "The connection string '" ++ named ++ "' has no supporting driver."
    connecting ++ ": " ++ words ++ ": " ++ words
  | url f => (Causes.ofUrl [f.message]).reported connecting
  | opening f => f.causes.reported connecting
  | writing f => f.causes.reported migrating
  | server f => f.causes.reported connecting
  | socket f => f.causes.reported connecting

end StartFailure

/-- Connects the service to its storage on a machine, and applies the migrations
if that is wanted. -/
def connect (machine : Machine) (lookup : String → Option String) (config : Config) :
    Except StartFailure Unit :=
  match StorageUrl.kind? config.databaseUrl with
  | none => .error (.noDriver config.databaseUrl)
  | some .server => do
    let access ← ((ServerAccess.ofLookup lookup).takeUrl config.databaseUrl).mapError .server
    (access.connect machine).mapError .socket
  | some .file => do
    let access ← (FileAccess.ofUrl config.databaseUrl).mapError .url
    let file ← (access.openOn machine).mapError .opening
    if config.runMigrations then file.write.mapError .writing

/-- Goes through the steps of the start and gives the configuration the service
then runs with. -/
def start (machine : Machine) (lookup : String → Option String) : Except StartFailure Config := do
  let config ← (Config.ofLookup lookup).mapError .config
  connect machine lookup config
  return config

/-- The service runs with the configuration it read. -/
theorem ofLookup_of_start {machine : Machine} {lookup : String → Option String} {config : Config}
    (h : start machine lookup = .ok config) : Config.ofLookup lookup = .ok config := by
  unfold start at h
  cases hread : Config.ofLookup lookup with
  | error e => rw [hread] at h; cases h
  | ok c =>
    rw [hread] at h
    change (connect machine lookup c >>= fun _ => pure c) = .ok config at h
    cases hconnect : connect machine lookup c with
    | error f => rw [hconnect] at h; cases h
    | ok u => rw [hconnect] at h; cases h; rfl

end ReviewDesk
