import KeywordScope.Invocation.Site
import KeywordScope.Value.Basic

/-!
# Requests

* `Request`: a use of a keyword.
-/

namespace KeywordScope

/-- A use of a keyword. -/
structure Request where
  /-- The command by which the call was made. -/
  invocationName : String
  /-- The word that stands for the keyword. -/
  keyword : String
  /-- The name that the caller gives. -/
  name? : Option String := none
  /-- A script block or a map. -/
  body : Value
  site : Site := {}
  /-- The call was given input from a pipeline. -/
  expectsInput : Bool := false

namespace Request

/-- The plain use of a keyword by its own name. -/
def ofKeyword (keyword : String) (body : Value) : Request :=
  { invocationName := keyword, keyword, body }

/-- The name that the caller gives; an empty one counts as none. -/
def givenName? (request : Request) : Option String :=
  request.name?.filter (· != "")

end Request

end KeywordScope
