import KeywordScope.Files.Path

/-!
# Reading files

* `FileAccess`: how files and directories are read, in any monad.
* `ReadFault`: why reading failed.
* `FileTree`: files and directories as a value. `FileTree.access` reads from it.
-/

namespace KeywordScope

/-- Why reading a file or directory failed. -/
inductive ReadFault where
  | notFound
  | isDirectory
  | notDirectory
  /-- The path, or one of its parts, is too long. -/
  | nameTooLong
  /-- The bytes are no UTF-8. -/
  | notText
  | other (reason : String)
  deriving DecidableEq, Repr

/-- The wording of a fault. -/
def ReadFault.text : ReadFault → String
  | notFound => "No such file or directory (os error 2)"
  | isDirectory => "Is a directory (os error 21)"
  | notDirectory => "Not a directory (os error 20)"
  | nameTooLong => "File name too long (os error 36)"
  | notText => "stream did not contain valid UTF-8"
  | other reason => reason

/-- What a path leads to. -/
inductive FileKind where
  | file
  | directory
  deriving DecidableEq, Repr

/-- How files and directories are read. -/
structure FileAccess (m : Type → Type) where
  /-- What a path leads to; nothing if it leads nowhere. -/
  kind? : String → m (Option FileKind)
  /-- The text of a file. -/
  read : String → m (Except ReadFault String)
  /-- The names in a directory, in any order. -/
  names : String → m (Except ReadFault (List String))

/-- Files with their bytes and directories, below one root. -/
structure FileTree where
  /-- The paths below the root; a directory has no bytes. -/
  nodes : List (List String × Option ByteArray) := []

namespace FileTree

/-- What a path leads to. The empty one leads to the root. -/
def node? (tree : FileTree) (path : List String) : Option (Option ByteArray) :=
  match path with
  | [] => some none
  | path => tree.nodes.lookup path

/-- The tree with a node in place of an earlier one. -/
def set (tree : FileTree) (path : List String) (node : Option ByteArray) : FileTree :=
  ⟨(path, node) :: tree.nodes.filter (·.1 != path)⟩

/-- The tree with a file, or a directory if the path ends as one, and all directories above it. -/
def insert (tree : FileTree) (path : String) (bytes : ByteArray) : FileTree :=
  let parts := Path.parts path
  let above := (List.range parts.length).map fun n => parts.take n
  let tree := above.foldl (fun tree directory =>
    if (tree.node? directory).isSome then tree else tree.set directory none) tree
  tree.set parts (if Path.endsAsDirectory path then none else some bytes)

/-- How many bytes a part of a path may have. -/
def nameLimit : Nat := 255

/-- How many bytes a path has at most, with one that ends it. -/
def pathLimit : Nat := 4096

/-- Why no name is found in a directory where nothing has that name. -/
def missing (name : String) : ReadFault :=
  if nameLimit < name.utf8ByteSize then .nameTooLong else .notFound

/-- Why parts of a path lead nowhere outside of the tree: nothing is found there. -/
def outside (parts : List String) : ReadFault :=
  (parts.find? (· != "..")).elim .notFound missing

/-- The node to which parts of a path lead from a directory. -/
def walk (tree : FileTree) (place : List String) :
    List String → Except ReadFault (List String × Option ByteArray)
  | [] =>
    match tree.node? place with
    | some node => .ok (place, node)
    | none => .error .notFound
  | part :: rest =>
    match tree.node? place with
    | none => .error .notFound
    | some (some _) => .error .notDirectory
    | some none =>
      if part = ".." then
        if place = [] then .error (outside rest) else walk tree place.dropLast rest
      else if (tree.node? (place ++ [part])).isSome then walk tree (place ++ [part]) rest
      else .error (missing part)

/-- The node to which a path leads from the root. -/
def resolve (tree : FileTree) (path : String) :
    Except ReadFault (List String × Option ByteArray) :=
  if pathLimit ≤ path.utf8ByteSize then .error .nameTooLong
  else if path = "" then .error .notFound
  else if Path.isAbsolute path then .error (outside (Path.parts path))
  else
    match tree.walk [] (Path.parts path) with
    | .ok (place, some bytes) =>
      if Path.endsAsDirectory path then .error .notDirectory else .ok (place, some bytes)
    | other => other

/-- Reads from the tree. Paths are relative to its root. -/
def access (tree : FileTree) : FileAccess Id where
  kind? path :=
    match tree.resolve path with
    | .ok (_, some _) => some .file
    | .ok (_, none) => some .directory
    | .error _ => none
  read path :=
    match tree.resolve path with
    | .ok (_, some bytes) =>
      match String.fromUTF8? bytes with
      | some text => .ok text
      | none => .error .notText
    | .ok (_, none) => .error .isDirectory
    | .error fault => .error fault
  names path :=
    match tree.resolve path with
    | .ok (place, none) =>
      .ok (tree.nodes.filterMap fun (path, _) =>
        if path.dropLast = place then path.getLast? else none)
    | .ok (_, some _) => .error .notDirectory
    | .error fault => .error fault

end FileTree

end KeywordScope
