import ReviewDesk.Deactivation
import ReviewDesk.Stats
import ReviewDesk.Teams

/-!
# Operations

The nine things that can be asked of the desk, and the answers they give.
Everything the service does for a caller is one of them.
-/

namespace ReviewDesk

/-- Something that can be asked of the desk. -/
inductive Operation where
  | createTeam (name : TeamName) (members : List Member)
  | getTeam (name : TeamName)
  | setActive (user : UserId) (isActive : Bool)
  | reviewsOf (user : UserId)
  | createPull (id : PullId) (name : String) (author : UserId)
  | mergePull (id : PullId)
  | reassign (id : PullId) (old : UserId)
  | deactivate (team : TeamName)
  | stats
deriving DecidableEq, Repr

/-- What an operation answers. -/
inductive Answer where
  | team (t : Team)
  | user (u : User)
  | reviews (pulls : List Pull)
  | pull (r : PullRequest)
  | reassigned (r : Reassigned)
  | deactivation (d : Deactivation)
  | stats (s : Stats)
deriving DecidableEq

/-- The answer as it is written. -/
def Answer.toJson : Answer → Json
  | team t => t.toJson
  | user u => u.toJson
  | reviews pulls => .list (pulls.map Pull.summary)
  | pull r => r.toJson
  | reassigned r => r.toJson
  | deactivation d => d.toJson
  | stats s => s.toJson

namespace Operation

/-- Carries out an operation at a given time. -/
def run (now : Instant) : Operation → Desk Answer
  | createTeam name members => .team <$> Desk.createTeam name members
  | getTeam name => .team <$> Desk.getTeam name
  | setActive user isActive => .user <$> Desk.setActive user isActive
  | reviewsOf user => .reviews <$> Desk.reviewsOf user
  | createPull id name author => .pull <$> Desk.createPull now id name author
  | mergePull id => .pull <$> Desk.mergePull now id
  | reassign id old => .reassigned <$> Desk.reassign id old
  | deactivate team => .deactivation <$> Desk.deactivate team
  | stats => .stats <$> Desk.stats

end Operation

end ReviewDesk
