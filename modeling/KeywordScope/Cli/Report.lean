import KeywordScope.Config.Directory
import KeywordScope.Json.Tree
import KeywordScope.Registry.Forest

/-!
# Reports

What the command line writes on grammars, as text or as JSON. The members of JSON objects come in
alphabetical order.

* `Verdict`: a grammar with the outcome of its declaration; `Verdict.text`, `Verdict.json`.
* `KeywordTree.lines`, `KeywordTree.json`: a tree of keywords.
-/

namespace KeywordScope

/-- The word for a name mode. -/
def NameMode.word : NameMode → String
  | .noName => "NoName"
  | .optionalName => "OptionalName"
  | .nameRequired => "NameRequired"

/-- A property in JSON. -/
def Property.json (property : Property) : JsonTree :=
  .object [("name", .string property.name), ("required", .bool property.required),
    ("type_constraint", .object [("name", .string property.type.name)])]

/-- A keyword in JSON. -/
def Keyword.json (keyword : Keyword) : JsonTree :=
  let bodyMode := match keyword.body with
    | .map _ => "MapBody"
    | .executable => "ExecutableBody"
  .object [("body_mode", .string bodyMode), ("id", .number keyword.id.number),
    ("module", keyword.module?.elim .null fun name => .object [("name", .string name)]),
    ("name", .string keyword.name), ("name_mode", .string keyword.nameMode.word),
    ("properties", .array (keyword.body.properties.map Property.json))]

namespace Cli

/-- A grammar with the outcome of its declaration: its roots, or what is wrong. -/
structure Verdict where
  grammar : GrammarSource
  outcome : Except KeywordError (List Keyword)

/-- The first line of a text. -/
def firstLine (text : String) : String :=
  let cs := text.toList
  let line := cs.takeWhile (· ≠ '\n')
  String.ofList <|
    if line.length < cs.length && line.getLast? = some '\r' then line.dropLast else line

/-- An error, with the place to look at where one is known. -/
def describe (error : KeywordError) : String :=
  match error with
  | .grammar e =>
    if e.node = "" then error.message
    else error.message ++ "\n      near: " ++ firstLine e.node
  | error => error.message

namespace Verdict

/-- The grammar is right. -/
def isRight (verdict : Verdict) : Bool :=
  verdict.outcome.isOk

/-- A verdict as text. -/
def text (verdict : Verdict) : String :=
  match verdict.outcome with
  | .ok roots =>
    "OK    " ++ verdict.grammar.path ++ " (" ++ toString roots.length ++ " root keyword(s))"
  | .error e => "FAIL  " ++ verdict.grammar.path ++ ": " ++ describe e

/-- A verdict in JSON. -/
def json (verdict : Verdict) : JsonTree :=
  let dsl := JsonTree.string verdict.grammar.dsl
  let file := JsonTree.string verdict.grammar.path
  match verdict.outcome with
  | .ok roots =>
    .object [("dsl", dsl), ("file", file), ("roots", .number roots.length), ("valid", .bool true)]
  | .error e =>
    .object [("dsl", dsl), ("error", .string e.message), ("file", file), ("valid", .bool false)]

end Verdict

/-- The line of a property. -/
def propertyLine (property : Property) : String :=
  "- " ++ property.name ++ (if property.required then "" else "?") ++ ": " ++ property.type.name

/-- The line of a keyword. -/
def keywordLine (keyword : Keyword) : String :=
  keyword.name ++ " [" ++ keyword.nameMode.word ++ ", " ++ keyword.body.describe ++ "]"

end Cli

namespace KeywordTree

mutual

/-- The lines of a tree below an indentation. -/
def lines (indent : String) : KeywordTree → List String
  | node _ keyword children =>
    (indent ++ Cli.keywordLine keyword) ::
      (keyword.body.properties.map fun property => indent ++ "  " ++ Cli.propertyLine property) ++
      linesOfAll (indent ++ "  ") children

/-- The lines of several trees. -/
def linesOfAll (indent : String) : List KeywordTree → List String
  | [] => []
  | tree :: trees => tree.lines indent ++ linesOfAll indent trees

end

mutual

/-- A tree in JSON. -/
def json : KeywordTree → JsonTree
  | node path keyword children =>
    .object [("children", .array (jsonOfAll children)), ("definition", keyword.json),
      ("path", .string path)]

/-- Several trees in JSON. -/
def jsonOfAll : List KeywordTree → List JsonTree
  | [] => []
  | tree :: trees => tree.json :: jsonOfAll trees

end

end KeywordTree
end KeywordScope
