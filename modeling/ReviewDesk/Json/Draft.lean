import ReviewDesk.Json.Token

/-!
# JSON drafts

A draft is the first value of a JSON text as far as it could be read.  Where
the text breaks off or goes wrong, the value there is broken and the lists and
records around it stay unclosed; what comes behind the first value is not
looked at.  So a draft shows everything that stands before the first fault, and
whoever reads it decides whether that is enough.

The lists and records that are still open are kept on a stack, which makes any
depth of nesting as good as another.
-/

namespace ReviewDesk

namespace Json

/-- A value as far as it could be read. -/
inductive Draft where
  /-- No value could be read here. -/
  | broken
  | null
  | bool (b : Bool)
  | number (isInRange : Bool)
  /-- A string with its text, if it has one. -/
  | text (s : Option String)
  | list (items : List Draft) (isClosed : Bool)
  /-- A record with its names, of which some may have no text, and values. -/
  | record (entries : List (Option String × Draft)) (isClosed : Bool)

/-- Whether a value was read to its end. -/
def Draft.isClosed : Draft → Bool
  | .broken => false
  | .list _ isClosed => isClosed
  | .record _ isClosed => isClosed
  | _ => true

/-- A list or record that is still open, last part first. -/
inductive OpenDraft where
  | list (items : List Draft)
  /-- A record, with the name whose value is still to come. -/
  | record (entries : List (Option String × Draft)) (name? : Option (Option String))

/-- What has to come next. -/
inductive Wanted where
  | value
  /-- A value, or the end of the list that was just opened. -/
  | firstValue
  | name
  /-- A name, or the end of the record that was just opened. -/
  | firstName
  | colon
  | commaOrEnd
deriving DecidableEq

/-- How far reading has come. -/
inductive Drafting where
  | reading (opened : List OpenDraft) (wanted : Wanted)
  | done (d : Draft)

namespace Drafting

/-- Leaves everything that is open as it is; `last` is the value that was to come
next, or the last one that came. -/
def leave : List OpenDraft → Option Draft → Draft
  | [], last => last.getD .broken
  | .list items :: outer, last =>
    leave outer (some (.list ((last.toList ++ items).reverse) false))
  | .record entries (some name) :: outer, last =>
    leave outer (some (.record (((name, last.getD .broken) :: entries).reverse) false))
  | .record entries none :: outer, _ => leave outer (some (.record entries.reverse false))

/-- Ends reading where it stands. -/
def stop (opened : List OpenDraft) (wanted : Wanted) : Draft :=
  leave opened (if wanted = .value then some .broken else none)

/-- Puts a value that was read in its place. -/
def settle (d : Draft) : List OpenDraft → Drafting
  | [] => .done d
  | .list items :: outer => .reading (.list (d :: items) :: outer) .commaOrEnd
  | .record entries (some name) :: outer =>
    .reading (.record ((name, d) :: entries) none :: outer) .commaOrEnd
  | .record entries none :: outer => .reading (.record entries none :: outer) .commaOrEnd

/-- Closes the innermost list, if it is one. -/
def closeList? : List OpenDraft → Option Drafting
  | .list items :: outer => some (settle (.list items.reverse true) outer)
  | _ => none

/-- Closes the innermost record, if it is one. -/
def closeRecord? : List OpenDraft → Option Drafting
  | .record entries none :: outer => some (settle (.record entries.reverse true) outer)
  | _ => none

/-- Takes a token where a value has to come. -/
def value? (opened : List OpenDraft) : Token → Option Drafting
  | .null => some (settle .null opened)
  | .bool b => some (settle (.bool b) opened)
  | .number isInRange => some (settle (.number isInRange) opened)
  | .text s => some (settle (.text s) opened)
  | .openList => some (.reading (.list [] :: opened) .firstValue)
  | .openRecord => some (.reading (.record [] none :: opened) .firstName)
  | _ => none

/-- Takes a token where a name has to come. -/
def name? : List OpenDraft → Token → Option Drafting
  | .record entries _ :: outer, .text s =>
    some (.reading (.record entries (some s) :: outer) .colon)
  | _, _ => none

/-- Takes a token that may come next. -/
def next? (opened : List OpenDraft) (wanted : Wanted) (t : Token) : Option Drafting :=
  match wanted, t with
  | .value, t => value? opened t
  | .firstValue, .closeList => closeList? opened
  | .firstValue, t => value? opened t
  | .name, t => name? opened t
  | .firstName, .closeRecord => closeRecord? opened
  | .firstName, t => name? opened t
  | .colon, .colon => some (.reading opened .value)
  | .colon, _ => none
  | .commaOrEnd, .closeList => closeList? opened
  | .commaOrEnd, .closeRecord => closeRecord? opened
  | .commaOrEnd, .comma =>
    match opened with
    | .list _ :: _ => some (.reading opened .value)
    | .record _ _ :: _ => some (.reading opened .name)
    | [] => none
  | .commaOrEnd, _ => none

/-- Takes a token. -/
def step (s : Drafting) (t : Token) : Drafting :=
  match s with
  | .done d => .done d
  | .reading opened wanted =>
    match next? opened wanted t with
    | some s => s
    | none => .done (stop opened wanted)

/-- The draft at the end of the tokens. -/
def result : Drafting → Draft
  | .done d => d
  | .reading opened wanted => stop opened wanted

end Drafting

/-- The first value of a text, as far as it can be read. -/
def draft (text : List UInt8) : Draft :=
  ((tokens text).foldl Drafting.step (.reading [] .value)).result

end Json

end ReviewDesk
