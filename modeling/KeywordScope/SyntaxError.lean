import KeywordScope.Source.Location

/-!
# Syntax errors

What can be wrong with a declaration: faults of the script itself, found while it is read, and
faults of the grammar that it declares, found while it is checked.

* `SyntaxFault`: the causes. `SyntaxFault.text` is the wording of each.
* `SyntaxError`: a cause with the offending text, its span and, once the source is known, the
  location of that span (`SyntaxError.locate`). `SyntaxError.message` is the full sentence.
-/

namespace KeywordScope

/-- A cause for refusing a declaration. -/
inductive SyntaxFault where
  /-- Nothing that may stand here begins like this. -/
  | unexpectedToken
  /-- A `|` is not followed by a stage. -/
  | missingStage
  /-- A `=` is not followed by a value. -/
  | missingValue
  /-- A script block is not closed. -/
  | unclosedBlock
  /-- A group in parentheses, braces or brackets is not closed by its own delimiter. -/
  | unclosedGroup
  /-- A string is not closed. -/
  | unclosedString
  /-- A `$` that begins neither a variable nor a group. -/
  | strayDollar
  /-- A block has two begin, two process or two end blocks. -/
  | duplicateNamedBlock
  /-- A block has named blocks and other statements. -/
  | strayStatement
  /-- A grammar block has a begin block. -/
  | beginBlock
  /-- A grammar block has a process block. -/
  | processBlock
  /-- A statement is neither a keyword nor a property declaration. -/
  | format
  /-- A statement is a pipeline of several stages. -/
  | pipeline
  /-- The body of a keyword is empty. -/
  | emptyBody
  /-- A declaration has an element that is no literal text. -/
  | expression
  /-- A block declares both keywords and properties. -/
  | mixedBlock
  /-- The name of a keyword has a character other than ASCII letters. -/
  | keywordName
  /-- A keyword is named like the keyword around it. -/
  | parentName
  /-- The name of a root keyword of `dsl` is bound to another command. -/
  | bindingConflict (name dsl : String)
  /-- The middle element of a keyword declaration is not a name mode. -/
  | nameMode
  /-- A block declares two keywords of one name. -/
  | duplicateKeyword
  /-- The type of a property does not exist. -/
  | unknownType (token : String)
  /-- The name of a property has a character that names do not have. -/
  | propertyName
  /-- A property is named like a field that every output has. -/
  | reservedProperty (field : String)
  /-- A property is declared outside any keyword. -/
  | rootProperty
  /-- A block declares two properties of one name. -/
  | duplicateProperty
  deriving DecidableEq, Repr

/-- The wording of a fault. -/
def SyntaxFault.text : SyntaxFault → String
  | unexpectedToken => "Unexpected token"
  | missingStage => "Missing pipeline element"
  | missingValue => "Missing value in assignment"
  | unclosedBlock => "Missing closing '\x7d' in statement block"
  | unclosedGroup => "Missing closing delimiter"
  | unclosedString => "The string is missing the terminator"
  | strayDollar => "Invalid variable reference"
  | duplicateNamedBlock => "Duplicate named block"
  | strayStatement => "Unexpected statement outside of named blocks"
  | beginBlock => "Begin blocks are not supported in domain-specific language definitions."
  | processBlock => "Process blocks are not supported in domain-specific language definitions."
  | format =>
    "All commands used in a domain-specific language definition must be in one of two formats: " ++
    "'<CommandName> [Name] \x7b...\x7d' or '<Type> [<PropertyName>]'."
  | pipeline => "Pipelines are not supported in domain-specific language definitions."
  | emptyBody =>
    "Empty script blocks are not permitted in domain-specific language definitions."
  | expression => "Expressions are not permitted in domain-specific language definitions."
  | mixedBlock =>
    "You cannot define both commands and properties in the same script block in " ++
    "domain-specific language definitions."
  | keywordName => "Keyword names can only contain alphabetic characters."
  | parentName => "A keyword name cannot be the same as that of its parent."
  | bindingConflict name dsl =>
    "A conflicting alias by the name of " ++ name ++ " already exists in the current scope. The " ++
    dsl ++ " domain-specific language requires this alias in order to function properly. The " ++
    "domain-specific language cannot be defined until this alias conflict has been removed."
  | nameMode =>
    "When providing the name mode for a keyword, the only valid values are 'Name' (when the name " ++
    "is required) or '[Name]' (when the name is optional)."
  | duplicateKeyword =>
    "Keywords can only be defined once per scriptblock in a domain-specific language definition."
  | unknownType token => token ++ " is not a valid type name."
  | propertyName => "Property names can only contain alpha-numeric characters and underscores."
  | reservedProperty field =>
    "The property name '" ++ field ++ "' is reserved for the keyword output and cannot be declared."
  | rootProperty =>
    "Properties can only be defined inside of a command script block in domain-specific " ++
    "language definitions."
  | duplicateProperty =>
    "Properties can only be defined once per scriptblock in a domain-specific language definition."

/-- A declaration is refused. -/
structure SyntaxError where
  fault : SyntaxFault
  /-- The text of the offending piece. -/
  node : String
  span : Span
  /-- Lines and columns of the span, when the source is known. -/
  location? : Option Location := none
  deriving DecidableEq, Repr

namespace SyntaxError

/-- The error with the location of its span in the source. -/
def locate (source : String) (e : SyntaxError) : SyntaxError :=
  { e with location? := some (.ofSpan source e.span) }

/-- The wording of the cause, followed by the place where it is known. -/
def message (e : SyntaxError) : String :=
  "Syntax error. " ++ e.fault.text ++
    match e.location? with
    | some location => " (at " ++ location.describe ++ ")"
    | none => ""

end SyntaxError

end KeywordScope
