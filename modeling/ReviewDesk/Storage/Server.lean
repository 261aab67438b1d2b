import ReviewDesk.Storage.Machine
import ReviewDesk.Storage.Url
import ReviewDesk.Text.Address
import ReviewDesk.Text.Number

/-!
# Database servers

The URL of a server names the user, the host and the port, and has parameters
that can overrule them and say more.  What is said of the connection is read in
that order, and the first thing that cannot be read is a fault; a parameter
nobody knows is of no account.

A server is reached over the network, or over a socket among the files of the
machine: the one in a directory that was named in the place of the host, whose
name has the port.  Variables give the host and the port where the URL does not.
-/

namespace ReviewDesk

/-- How a server is to be reached. -/
structure ServerAccess where
  host : String
  port : Nat
  /-- The directory of the socket, if one has been told apart from a host. -/
  socket? : Option String := none
deriving DecidableEq

/-- What is wrong with the URL of a server. -/
inductive ServerFault where
  /-- The bytes of a name are no text. -/
  | text (f : Utf8.Fault)
  /-- No way to secure the connection is called so. -/
  | security (value : String)
  | number (f : Number.Fault)
  | address
deriving DecidableEq

/-- Why a socket cannot be connected to. -/
inductive SocketFault where
  | nul
  | tooLong
  | lack (l : Machine.Lack)
deriving DecidableEq

namespace ServerAccess

/-- What a server is called where nobody says more. -/
def usualHost : String := "localhost"

/-- The port where nobody says another one. -/
def usualPort : Nat := 5432

/-- What variables say of the server. -/
def ofLookup (lookup : String → Option String) : ServerAccess :=
  { host := ((lookup "PGHOSTADDR").or (lookup "PGHOST")).getD usualHost
    port := ((lookup "PGPORT").bind fun value =>
      (Number.read Number.portLimit value.toList).toOption).getD usualPort }

/-- The part of a URL that names the user, the host and the port. -/
def authority (behindScheme : List Char) : List Char :=
  match behindScheme with
  | '/' :: '/' :: rest => rest.takeWhile fun c => c ≠ '/' && c ≠ '?' && c ≠ '#'
  | _ => []

/-- What stands before the last at sign, if there is one, and behind it. -/
def userAndHost (authority : List Char) : List Char × List Char :=
  let host := (authority.reverse.takeWhile (· ≠ '@')).reverse
  (authority.take (authority.length - host.length - 1), host)

/-- What stands before and behind the colon in front of a port; the colons
between brackets are part of the host. -/
def hostAndPort (cs : List Char) : List Char × List Char :=
  let bracketed := if cs.head? = some '[' then cs.takeWhile (· ≠ ']') else []
  let (host, port) := Pieces.leading (· ≠ ':') (cs.drop bracketed.length)
  (bracketed ++ host, port.drop 1)

/-- The text that percent signs and characters stand for. -/
def decoded (cs : List Char) : Except ServerFault String :=
  (Utf8.decode (Percent.bytes cs)).mapError .text

/-- Takes a host as it stands in a URL; it is a directory if it starts with a
slash. -/
def takeHost (a : ServerAccess) (host : List Char) : Except ServerFault ServerAccess :=
  if host = [] then .ok a
  else if (Percent.bytes host).head? = some StoragePath.slash then
    (decoded host).map fun directory => { a with socket? := some directory }
  else .ok { a with host := String.ofList host }

/-- The ways to secure a connection. -/
def securities : List String :=
  ["disable", "allow", "prefer", "require", "verify-ca", "verify-full"]

/-- Takes a number that must not exceed a limit. -/
def takeNumber (limit : Nat) (value : String) : Except ServerFault Nat :=
  (Number.read limit value.toList).mapError .number

/-- Takes a parameter and its value. -/
def take (a : ServerAccess) (entry : String × String) : Except ServerFault ServerAccess :=
  match entry with
  | ("sslmode", v) | ("ssl-mode", v) =>
    if securities.contains (Ascii.lower v) then .ok a else .error (.security v)
  | ("statement-cache-capacity", v) => (takeNumber Number.wordLimit v).map fun _ => a
  | ("host", v) =>
    if v.toList.head? = some '/' then .ok { a with socket? := some v }
    else .ok { a with host := v }
  | ("hostaddr", v) => if Address.isAddress v then .ok { a with host := v } else .error .address
  | ("port", v) => (takeNumber Number.portLimit v).map fun port => { a with port }
  | _ => .ok a

/-- What a URL says, where `a` has been said before. -/
def takeUrl (a : ServerAccess) (url : String) : Except ServerFault ServerAccess := do
  let cs := StorageUrl.behindScheme url
  let (user, address) := userAndHost (authority cs)
  let (host, port) := hostAndPort address
  let a ← a.takeHost host
  let a := { a with port := ((Number.read Number.portLimit port).toOption).getD a.port }
  let (name, password) := Pieces.leading (· ≠ ':') user
  let _ ← decoded name
  let _ ← decoded (password.drop 1)
  let query := ((cs.takeWhile (· ≠ '#')).dropWhile (· ≠ '?')).drop 1
  (Parameters.entries query).foldlM take a

/-- The directory of the socket; a host that starts with a slash is one, too. -/
def directory? (a : ServerAccess) : Option String :=
  a.socket?.or (if a.host.toList.head? = some '/' then some a.host else none)

/-- The path of the socket over which the server is reached, if it is. -/
def socketPath? (a : ServerAccess) : Option String :=
  a.directory?.map fun directory =>
    directory ++ "/.s.PGSQL." ++ String.ofList (Decimal.digits a.port)

/-- The number of bytes at which the path of a socket is too long. -/
def socketPathLimit : Nat := 108

/-- Connects to the socket at a path; what is there has to be a server. -/
def connectSocket (m : Machine) (path : List UInt8) : Except SocketFault Unit :=
  if path.contains 0 then .error .nul
  else if socketPathLimit ≤ path.length then .error .tooLong
  else (m.find path).map (fun _ => ()) |>.mapError .lack

/-- Connects to a server.  Over the network one is always reached. -/
def connect (m : Machine) (a : ServerAccess) : Except SocketFault Unit :=
  match a.socketPath? with
  | some path => connectSocket m (Utf8.encode path)
  | none => .ok ()

end ServerAccess

end ReviewDesk
