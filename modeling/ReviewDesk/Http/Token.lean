import ReviewDesk.Text.Ascii

/-!
# Tokens

Methods, names of header fields and the names within a media type are tokens:
letters, digits and fifteen marks, all of them ASCII.
-/

namespace ReviewDesk

namespace Http

namespace Token

/-- The marks that a token may have. -/
def marks : List Char := "!#$%&'*+-.^_`|~".toList

/-- Whether a character can be part of a token. -/
def isChar (c : Char) : Bool := c.isAlphanum || marks.contains c

end Token

end Http

end ReviewDesk
