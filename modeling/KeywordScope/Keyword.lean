import KeywordScope.Text.Case

/-!
# Keywords

* `Keyword`: a keyword as it was declared. Its visibility, its hooks and its place in a language
  are kept by the registry.
* `NameMode`, `Keyword.Body`: whether a use of the keyword takes a name, and what its body is.
* `Property`: a property that a map body may or must set.
-/

namespace KeywordScope

/-- The name of a type of the host, by which the values of a property are constrained. -/
structure HostType where
  name : String
  deriving DecidableEq, Repr

/-- A property of a keyword with a map body. -/
structure Property where
  name : String
  required : Bool
  type : HostType
  deriving DecidableEq, Repr

/-- Whether a use of a keyword carries a name. -/
inductive NameMode where
  | noName
  | optionalName
  | nameRequired
  deriving DecidableEq, Repr

/-- The mode that the middle element of a keyword declaration asks for. -/
def NameMode.ofToken? (token : String) : Option NameMode :=
  if sameName token "[Name]" then some optionalName
  else if sameName token "Name" then some nameRequired
  else none

namespace Keyword

/-- The identity of a keyword, given out by the registry. -/
structure Id where
  number : Nat
  deriving DecidableEq, Repr

/-- How messages name a keyword by its identity. -/
def Id.describe (id : Id) : String :=
  "#" ++ toString id.number

/-- What the body of a keyword is. -/
inductive Body where
  /-- A map from property names to values. -/
  | map (properties : List Property)
  /-- A script block that the host runs. -/
  | executable
  deriving DecidableEq, Repr

/-- The properties that a body declares. -/
def Body.properties : Body → List Property
  | map properties => properties
  | executable => []

/-- The word for a kind of body. -/
def Body.describe : Body → String
  | map _ => "map"
  | executable => "executable"

end Keyword

/-- A declared keyword. -/
structure Keyword where
  id : Keyword.Id
  name : String
  nameMode : NameMode := .noName
  body : Keyword.Body := .executable
  /-- The module that declared the keyword. -/
  module? : Option String := none
  deriving DecidableEq, Repr

namespace Keyword

/-- The keyword is called by this name. -/
def isNamed (keyword : Keyword) (name : String) : Bool :=
  sameName keyword.name name

/-- The declared property of a name. -/
def property? (keyword : Keyword) (name : String) : Option Property :=
  keyword.body.properties.find? fun property => sameName property.name name

end Keyword

end KeywordScope
