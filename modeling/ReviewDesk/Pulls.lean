import ReviewDesk.Desk
import ReviewDesk.Draw.Pick

/-!
# Pull requests and their reviewers

A pull request is opened with reviewers drawn from the active members of its
author's team, without the author.  Merging closes it, and merging it again
changes nothing.  While it is open, a reviewer can be replaced by an active
member of that reviewer's own team who is neither the author nor a reviewer
yet; if there is nobody, the reviewer stays.
-/

namespace ReviewDesk

/-- The most reviewers a pull request is opened with. -/
def maxReviewers : Nat := 2

/-- A pull request with its reviewers. -/
structure PullRequest where
  pull : Pull
  reviewers : Ascending UserId
deriving DecidableEq

/-- A replaced reviewer: the pull request afterwards and who came in. -/
structure Reassigned where
  request : PullRequest
  replacedBy : UserId
deriving DecidableEq

namespace Pull

/-- A pull request in a list of reviews. -/
def summary (p : Pull) : Json :=
  .record [("pull_request_id", .text p.id), ("pull_request_name", .text p.name),
    ("author_id", .text p.author), ("status", p.status.toJson)]

end Pull

namespace PullRequest

/-- A pull request in an answer. -/
def toJson (r : PullRequest) : Json :=
  .record <|
    [("pull_request_id", .text r.pull.id), ("pull_request_name", .text r.pull.name),
      ("author_id", .text r.pull.author), ("status", r.pull.status.toJson),
      ("assigned_reviewers", .list (r.reviewers.toList.map .text)),
      ("createdAt", .time r.pull.createdAt)]
    ++ Json.optional "mergedAt" (r.pull.mergedAt.map .time)

end PullRequest

namespace Reassigned

/-- A replaced reviewer in an answer. -/
def toJson (r : Reassigned) : Json :=
  .record [("pr", r.request.toJson), ("replaced_by", .text r.replacedBy)]

end Reassigned

namespace Desk

/-- The pull request with an id and its present reviewers. -/
def loadPull (id : PullId) : Desk (Option PullRequest) := do
  match ← ask (·.findPull id) with
  | none => return none
  | some pull => return some ⟨pull, ← ask (·.reviewersOf id)⟩

/-- Adds a pull request without reviewers. -/
def addPull (p : StoredPull) : Desk Unit := changeUnless .pullExists (·.insert (.pull p))

/-- Adds reviewers to a pull request, all or none. -/
def addReviewers (id : PullId) (reviewers : List UserId) : Desk Unit :=
  if reviewers.isEmpty then pure ()
  else change (·.insertAll (reviewers.map fun user => .review ⟨id, user⟩))

/-- Takes a reviewer off a pull request and, if given, puts another in that
place. -/
def swapReviewer (id : PullId) (old : UserId) (new : Option UserId) : Desk Unit := do
  change (·.delete (.review ⟨id, old⟩))
  match new with
  | none => pure ()
  | some user => change (·.insert (.review ⟨id, user⟩))

/-- Goes on only if no pull request has this id. -/
def requireNewPull (id : PullId) : Desk Unit := do
  if (← ask (·.findPull id)).isSome then throw .pullExists

/-- Adds a pull request with reviewers drawn for its author; the id is not looked
up first, so it may turn out to be taken when the row is inserted. -/
def openPull (now : Instant) (id : PullId) (name : String) (authorId : UserId) :
    Desk PullRequest := do
  let author ← orFail .authorNotFound (← ask (·.findUser authorId))
  let pool ← ask (·.activeMembers author.team)
  let reviewers ← draw (·.pick pool (.ofList [author.id]) maxReviewers)
  addPull (Pull.mk id name author.id .opened now none).stored
  addReviewers id reviewers
  orFail .pullNotFound (← loadPull id)

/-- Opens a pull request. -/
def createPull (now : Instant) (id : PullId) (name : String) (authorId : UserId) :
    Desk PullRequest :=
  transaction do
    requireNewPull id
    openPull now id name authorId

/-- Merges a pull request. -/
def mergePull (now : Instant) (id : PullId) : Desk PullRequest :=
  transaction do
    let pull ← orFail .pullNotFound (← ask (·.findPull id))
    if pull.status = .opened then
      change (·.setMerged id now)
    orFail .pullNotFound (← loadPull id)

/-- Replaces a reviewer of a pull request. -/
def reassign (id : PullId) (old : UserId) : Desk Reassigned :=
  transaction do
    let pull ← orFail .pullNotFound (← ask (·.findPull id))
    if pull.status = .merged then throw .pullMerged
    let reviewers ← ask (·.reviewersOf id)
    if old ∉ reviewers then throw .notAssigned
    let reviewer ← orFail .userNotFound (← ask (·.findUser old))
    let pool ← ask (·.activeMembers reviewer.team)
    let new ← orFail .noCandidate (← draw (·.pickOne pool (reviewers.insert pull.author)))
    swapReviewer id old (some new)
    let request ← orFail .pullNotFound (← loadPull id)
    return ⟨request, new⟩

/-- The pull requests that a user reviews, newest first; none for somebody
unknown. -/
def reviewsOf (user : UserId) : Desk (List Pull) := ask (·.reviewedBy user)

end Desk

end ReviewDesk
