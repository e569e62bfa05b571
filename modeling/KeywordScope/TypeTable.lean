import KeywordScope.Keyword
import KeywordScope.Text.Blank

/-!
# Names of types

A type is found by a short name (`int`), by its full name (`System.Int32`) or by either in
brackets, without regard to case.

* `TypeTable`: the built-in names, and those added to them.
* `TypeTable.find?`: the type that a word in a declaration stands for.
-/

namespace KeywordScope

/-- Short names for types, each with the full name. -/
def builtinTypes : List (String × String) :=
  [("int", "System.Int32"),
    ("int32", "System.Int32"),
    ("long", "System.Int64"),
    ("int64", "System.Int64"),
    ("short", "System.Int16"),
    ("byte", "System.Byte"),
    ("string", "System.String"),
    ("char", "System.Char"),
    ("bool", "System.Boolean"),
    ("boolean", "System.Boolean"),
    ("switch", "System.Management.Automation.SwitchParameter"),
    ("double", "System.Double"),
    ("float", "System.Single"),
    ("single", "System.Single"),
    ("decimal", "System.Decimal"),
    ("datetime", "System.DateTime"),
    ("timespan", "System.TimeSpan"),
    ("guid", "System.Guid"),
    ("uri", "System.Uri"),
    ("version", "System.Version"),
    ("hashtable", "System.Collections.Hashtable"),
    ("array", "System.Array"),
    ("scriptblock", "System.Management.Automation.ScriptBlock"),
    ("object", "System.Object"),
    ("psobject", "System.Management.Automation.PSObject")]

/-- The built-in types and further names for types. -/
structure TypeTable where
  /-- Further short names with their full names. Earlier ones, and the built-in ones, come first. -/
  aliases : List (String × String) := []
  deriving DecidableEq, Repr

namespace TypeTable

/-- The characters between brackets, if brackets enclose the text. -/
def unbracket? : List Char → Option (List Char)
  | '[' :: rest => if rest.getLast? = some ']' then some rest.dropLast else none
  | _ => none

/-- A word for a type without its brackets and without blanks around it. -/
def bareName (token : String) : String :=
  trim (String.ofList ((unbracket? token.toList).getD token.toList))

/-- The type that a word stands for: the first in the table that has it as short or full name. -/
def find? (table : TypeTable) (token : String) : Option HostType :=
  let bare := bareName token
  ((builtinTypes ++ table.aliases).find? fun (short, full) =>
    sameName short bare || sameName full bare).map fun (_, full) => ⟨full⟩

end TypeTable

end KeywordScope
