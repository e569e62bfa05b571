/-!
# Configuration

* `Config`: how keywords are bound to the dispatching command, what their output looks like, and
  the conventions of grammars. Each part has a default.
-/

namespace KeywordScope

/-- How names of keywords are bound. -/
structure DispatcherConfig where
  /-- The command to which keywords are bound. -/
  command : String := "Invoke-Keyword"
  /-- The module of that command. -/
  module : String := "KeywordDsl"
  /-- The description of the bindings. -/
  bindingDescription : String :=
    "This binding is automatically managed by the keyword runtime."
  deriving DecidableEq, Repr

/-- What the output of keywords looks like. -/
structure OutputConfig where
  /-- The beginning of the type names of output. -/
  typePrefix : String := "KeywordDsl.DslAutomaticOutput"
  /-- The field with the name that a keyword was given. -/
  nameField : String := "Name"
  /-- The field with the path of the keyword. -/
  producedByField : String := "ProducedByKeyword"
  deriving DecidableEq, Repr

/-- The conventions of grammars. -/
structure GrammarConfig where
  /-- What stands between the names of keywords in a path. -/
  pathSeparator : String := "/"
  /-- The extension of grammar files. -/
  fileExtension : String := "kwdsl"
  deriving DecidableEq, Repr

/-- The whole configuration. -/
structure Config where
  dispatcher : DispatcherConfig := {}
  output : OutputConfig := {}
  grammar : GrammarConfig := {}
  deriving DecidableEq, Repr

/-- The type name of the output of the keyword with a path. -/
def OutputConfig.typeName (output : OutputConfig) (path : String) : String :=
  output.typePrefix ++ "#" ++ path

/-- The fields of every output of a keyword. -/
def OutputConfig.reserved (output : OutputConfig) : List String :=
  [output.nameField, output.producedByField]

end KeywordScope
