import KeywordScope.Value.Text

/-!
# JSON over several lines

* `JsonTree`: what is written as JSON.
* `JsonTree.pretty`: its text, with each item and member on a line of its own.
-/

namespace KeywordScope

/-- What is written as JSON. -/
inductive JsonTree where
  | null
  | bool (value : Bool)
  | number (value : Nat)
  | string (value : String)
  | array (items : List JsonTree)
  /-- Members in the order in which they are written. -/
  | object (members : List (String × JsonTree))

namespace JsonTree

/-- The lines between two brackets, or only the brackets if there are none. -/
def enclose (opening closing indent : String) (lines : List String) : String :=
  if lines.isEmpty then opening ++ closing
  else
    opening ++ "\n" ++ ",\n".intercalate (lines.map fun line => indent ++ "  " ++ line) ++
      "\n" ++ indent ++ closing

mutual

/-- The text, whose lines but the first begin with an indentation. -/
def pretty (indent : String) : JsonTree → String
  | null => "null"
  | bool value => if value then "true" else "false"
  | number value => toString value
  | string value => jsonString value
  | array items => enclose "[" "]" indent (prettyItems (indent ++ "  ") items)
  | object members => enclose "\x7b" "\x7d" indent (prettyMembers (indent ++ "  ") members)

/-- The texts of the items of an array. -/
def prettyItems (indent : String) : List JsonTree → List String
  | [] => []
  | item :: items => pretty indent item :: prettyItems indent items

/-- The texts of the members of an object. -/
def prettyMembers (indent : String) : List (String × JsonTree) → List String
  | [] => []
  | (name, value) :: members =>
    (jsonString name ++ ": " ++ pretty indent value) :: prettyMembers indent members

end

end JsonTree
end KeywordScope
