import KeywordScope.Decimal.Notation
import KeywordScope.Value.Basic

/-!
# Values as text

* `Value.shown`: a value as it is shown to people.
* `Value.json`: a value as JSON text.
* `jsonString`: a text as JSON string.
-/

namespace KeywordScope

/-- A hexadecimal digit in small letters. -/
def hexDigit (n : Nat) : Char :=
  (Nat.digitChar n)

/-- A character within a JSON string. -/
def jsonChar (c : Char) : List Char :=
  match c with
  | '\x22' => ['\\', '\x22']
  | '\\' => ['\\', '\\']
  | '\n' => ['\\', 'n']
  | '\r' => ['\\', 'r']
  | '\t' => ['\\', 't']
  | '\x08' => ['\\', 'b']
  | '\x0c' => ['\\', 'f']
  | c =>
    if c.toNat < 0x20 then ['\\', 'u', '0', '0', hexDigit (c.toNat / 16), hexDigit (c.toNat % 16)]
    else [c]

/-- A text as JSON string. -/
def jsonString (s : String) : String :=
  String.ofList ('\x22' :: s.toList.flatMap jsonChar ++ ['\x22'])

mutual

/-- A value as it is shown. -/
def Value.shown : Value → String
  | .null => "null"
  | .bool value => if value then "true" else "false"
  | .int value => toString value
  | .float value => FloatFormat.plain.write value
  | .string value => value
  | .list items => "[" ++ ", ".intercalate (Value.shownItems items) ++ "]"
  | .map fields => "@\x7b" ++ "; ".intercalate (Value.shownFields fields) ++ "\x7d"
  | .record _ fields => "@\x7b" ++ "; ".intercalate (Value.shownFields fields) ++ "\x7d"
  | .script block => block.shown

/-- The items of a list as they are shown. -/
def Value.shownItems : List Value → List String
  | [] => []
  | item :: items => item.shown :: Value.shownItems items

/-- The fields of a map as they are shown. -/
def Value.shownFields : List (String × Value) → List String
  | [] => []
  | (name, value) :: fields => (name ++ "=" ++ value.shown) :: Value.shownFields fields

end

mutual

/-- A value as JSON text, without blanks. -/
def Value.json : Value → String
  | .null => "null"
  | .bool value => if value then "true" else "false"
  | .int value => toString value
  | .float value => FloatFormat.json.write value
  | .string value => jsonString value
  | .list items => "[" ++ ",".intercalate (Value.jsonItems items) ++ "]"
  | .map fields => "\x7b" ++ ",".intercalate (Value.jsonFields fields) ++ "\x7d"
  | .record typeNames fields =>
    "\x7b\"type_names\":[" ++ ",".intercalate (typeNames.map jsonString) ++ "],\"fields\":\x7b" ++
      ",".intercalate (Value.jsonFields fields) ++ "\x7d\x7d"
  | .script block => "\x7b\"source\":" ++ jsonString block.source ++ "\x7d"

/-- The items of a list as JSON texts. -/
def Value.jsonItems : List Value → List String
  | [] => []
  | item :: items => item.json :: Value.jsonItems items

/-- The fields of a map as members of a JSON object. -/
def Value.jsonFields : List (String × Value) → List String
  | [] => []
  | (name, value) :: fields =>
    (jsonString name ++ ":" ++ value.json) :: Value.jsonFields fields

end

end KeywordScope
