/-!
# Paths

Paths are texts whose parts are separated by slashes. Empty parts and `.` mean nothing.

* `Path.join`: a path below a directory.
* `Path.fileName?`, `Path.stem?`, `Path.extension?`: the last part, before and after its last point.
-/

namespace KeywordScope
namespace Path

/-- The pieces of a text between the slashes. -/
def splitSlash (cs : List Char) : List (List Char) :=
  cs.foldr (fun c pieces =>
    match c, pieces with
    | '/', _ => [] :: pieces
    | c, piece :: rest => (c :: piece) :: rest
    | c, [] => [[c]]) [[]]

/-- The parts of a path that mean something. -/
def parts (path : String) : List String :=
  ((splitSlash path.toList).map String.ofList).filter fun part => part != "" && part != "."

/-- The path of a name in a directory. -/
def join (directory name : String) : String :=
  if directory = "" then name
  else if directory.toList.getLast? = some '/' then directory ++ name
  else directory ++ "/" ++ name

/-- The path names a directory by the way it ends. -/
def endsAsDirectory (path : String) : Bool :=
  match path.toList.reverse with
  | '/' :: _ => true
  | '.' :: '/' :: _ => true
  | _ => false

/-- The path begins at the root of all files. -/
def isAbsolute (path : String) : Bool :=
  path.toList.head? = some '/'

/-- The last part, if it is a name. -/
def fileName? (path : String) : Option String :=
  (parts path).getLast?.filter (· != "..")

/-- What is before and after the last point of a name. A point at the beginning does not count. -/
def splitName (name : String) : String × Option String :=
  let (after, before) := name.toList.reverse.span (· != '.')
  match before.drop 1 with
  | [] => (name, none)
  | before => (String.ofList before.reverse, some (String.ofList after.reverse))

/-- The last part without its extension. -/
def stem? (path : String) : Option String :=
  (fileName? path).map fun name => (splitName name).1

/-- What is behind the last point of the last part. -/
def extension? (path : String) : Option String :=
  (fileName? path).bind fun name => (splitName name).2

end Path
end KeywordScope
