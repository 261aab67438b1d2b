import ReviewDesk.Json.Value

/-!
# Failures

Everything that can go wrong has one cause out of fifteen.  A cause decides
what a caller is told: a coarse kind, a code, a message and the status of an
HTTP response.  Several causes share a code; their messages differ, so no two
of them look alike.

* `notice_injective` — a caller can tell any two causes apart.
-/

namespace ReviewDesk

/-- What kind of failure it is, however it is shown. -/
inductive FailureKind where
  | notFound
  | conflict
  | invalidInput
  | internal
deriving DecidableEq, Repr

/-- Why a request could not be served. -/
inductive Failure where
  /-- The storage did not do what it should. -/
  | internal
  /-- A body lacks a field, repeats one or gives it a wrong type. -/
  | bodyFields
  /-- A body is not JSON. -/
  | bodySyntax
  /-- A body does not come as JSON. -/
  | bodyType
  /-- A body breaks a length rule. -/
  | bodyRules
  /-- A query lacks a parameter, repeats it or breaks its length rule. -/
  | query
  | teamNotFound
  | userNotFound
  | authorNotFound
  | pullNotFound
  | teamExists
  | pullExists
  | pullMerged
  | notAssigned
  | noCandidate
deriving DecidableEq, Repr

namespace Failure

/-- All causes. -/
def all : List Failure :=
  [internal, bodyFields, bodySyntax, bodyType, bodyRules, query, teamNotFound, userNotFound,
    authorNotFound, pullNotFound, teamExists, pullExists, pullMerged, notAssigned, noCandidate]

/-- The kind of a failure. -/
def kind : Failure → FailureKind
  | internal => .internal
  | bodyFields | bodySyntax | bodyType | bodyRules | query => .invalidInput
  | teamNotFound | userNotFound | authorNotFound | pullNotFound => .notFound
  | teamExists | pullExists | pullMerged | notAssigned | noCandidate => .conflict

/-- The status of the response that reports a failure.  An existing team is the
one conflict that is reported as a bad request. -/
def status : Failure → Nat
  | internal => 500
  | bodyFields | bodySyntax | bodyType | bodyRules | query => 400
  | teamNotFound | userNotFound | authorNotFound | pullNotFound => 404
  | teamExists => 400
  | pullExists | pullMerged | notAssigned | noCandidate => 409

/-- The code of a failure. -/
def code : Failure → String
  | internal => "INTERNAL_ERROR"
  | bodyFields | bodySyntax | bodyType | bodyRules | query => "BAD_REQUEST"
  | teamNotFound | userNotFound | authorNotFound | pullNotFound => "NOT_FOUND"
  | teamExists => "TEAM_EXISTS"
  | pullExists => "PR_EXISTS"
  | pullMerged => "PR_MERGED"
  | notAssigned => "NOT_ASSIGNED"
  | noCandidate => "NO_CANDIDATE"

/-- The message of a failure. -/
def message : Failure → String
  | internal => "internal server error"
  | bodyFields => "missing or invalid fields"
  | bodySyntax => "syntax error"
  | bodyType => "missing or wrong content-type"
  | bodyRules => "invalid data"
  | query => "missing or invalid query parameters"
  | teamNotFound => "team not found"
  | userNotFound => "user not found"
  | authorNotFound => "author not found"
  | pullNotFound => "PR not found"
  | teamExists => "team_name already exists"
  | pullExists => "PR id already exists"
  | pullMerged => "cannot reassign on merged PR"
  | notAssigned => "reviewer is not assigned to this PR"
  | noCandidate => "no active replacement candidate in team"

/-- A failure in one line: its code and its message. -/
def text (f : Failure) : String := f.code ++ ": " ++ f.message

/-- The body of the response that reports a failure. -/
def body (f : Failure) : Json :=
  .record [("error", .record [("code", .text f.code), ("message", .text f.message)])]

/-- What a caller sees of a failure. -/
structure Notice where
  kind : FailureKind
  status : Nat
  code : String
  message : String
deriving DecidableEq

/-- What a caller sees of this failure. -/
def notice (f : Failure) : Notice := ⟨f.kind, f.status, f.code, f.message⟩

theorem message_injective {f g : Failure} (h : f.message = g.message) : f = g := by
  cases f <;> cases g <;> simp [message] at h ⊢

/-- Two causes that look alike to a caller are the same. -/
theorem notice_injective {f g : Failure} (h : f.notice = g.notice) : f = g :=
  message_injective (congrArg Notice.message h)

end Failure

end ReviewDesk
