/-!
# Names

Teams are known by their names, users and pull requests by their ids.  All
three are texts that somebody else chose; they are told apart by where they
stand, and ordered by their characters.
-/

namespace ReviewDesk

/-- The name of a team. -/
abbrev TeamName := String

/-- The id of a user. -/
abbrev UserId := String

/-- The id of a pull request. -/
abbrev PullId := String

end ReviewDesk
