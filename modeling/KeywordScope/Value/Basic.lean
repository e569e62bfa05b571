import KeywordScope.ScriptBlock
import KeywordScope.Text.Case

/-!
# Values

What bodies of keywords take and yield.

* `Value`: a value, with lists, maps and records of values.
* `Fields`: names with values in order. `Fields.find?` and `Fields.set` compare names without
  regard to case, `Fields.insert` compares them as written.
* `Value.field?`, `Value.typeName`: what the assembly of a record asks of a value.
-/

namespace KeywordScope

/-- A value. -/
inductive Value where
  | null
  | bool (value : Bool)
  | int (value : Int)
  | float (value : Float)
  | string (value : String)
  | list (items : List Value)
  | map (fields : List (String × Value))
  | record (typeNames : List String) (fields : List (String × Value))
  | script (block : ScriptBlock)
  deriving Inhabited

/-- Names with values, in order. -/
abbrev Fields := List (String × Value)

namespace Fields

/-- The value of the first name that is `name` up to case. -/
def find? (fields : Fields) (name : String) : Option Value :=
  (List.find? (fun field => sameName field.1 name) fields).map (·.2)

/-- Replaces the value of the first name that is `name` up to case, and keeps its spelling; a new
name goes to the end. -/
def set (fields : Fields) (name : String) (value : Value) : Fields :=
  match fields with
  | [] => [(name, value)]
  | field :: rest =>
    if sameName field.1 name then (field.1, value) :: rest else field :: set rest name value

/-- Replaces the value of exactly this name; a new name goes to the end. -/
def insert (fields : Fields) (name : String) (value : Value) : Fields :=
  match fields with
  | [] => [(name, value)]
  | field :: rest =>
    if field.1 = name then (name, value) :: rest else field :: insert rest name value

/-- The names in order. -/
def names (fields : Fields) : List String :=
  fields.map (·.1)

end Fields

namespace Value

/-- The field of a map or record. -/
def field? (value : Value) (name : String) : Option Value :=
  match value with
  | map fields => Fields.find? fields name
  | record _ fields => Fields.find? fields name
  | _ => none

/-- The name of the type of a value; that of a record is its first own type name. -/
def typeName : Value → String
  | null => "Null"
  | bool _ => "Bool"
  | int _ => "Int"
  | float _ => "Float"
  | string _ => "String"
  | list _ => "List"
  | map _ => "Map"
  | record typeNames _ => typeNames.headD "Record"
  | script _ => "ScriptBlock"

def string? : Value → Option String
  | string value => some value
  | _ => none

def int? : Value → Option Int
  | int value => some value
  | _ => none

def isRecord : Value → Bool
  | record .. => true
  | _ => false

end Value

/-- The result of a use of a keyword: fields, and names of types, the most specific one first. -/
structure Record where
  typeNames : List String := []
  fields : Fields := []

namespace Record

/-- A record without fields. -/
def ofType (typeName : String) : Record :=
  { typeNames := [typeName] }

/-- The record with a field set. -/
def insert (record : Record) (name : String) (value : Value) : Record :=
  { record with fields := record.fields.set name value }

/-- The value of a field. -/
def find? (record : Record) (name : String) : Option Value :=
  record.fields.find? name

/-- The most specific name of a type. -/
def typeName? (record : Record) : Option String :=
  record.typeNames.head?

/-- The record as a value. -/
def toValue (record : Record) : Value :=
  .record record.typeNames record.fields

end Record

end KeywordScope
