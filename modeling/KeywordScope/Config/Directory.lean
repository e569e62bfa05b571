import KeywordScope.Config.Document
import KeywordScope.Files.Access
import KeywordScope.Text.Blank
import KeywordScope.Text.Case

/-!
# Configuration directories

A configuration directory holds the file `keywords.yaml` and, in the directory `grammars`, a file
for each language.

* `LoadError`: why something could not be loaded.
* `GrammarSource.load`: the grammar in a file. Its language is named as the file is.
* `ConfigDirectory.config`, `ConfigDirectory.grammars`: what a directory holds. Both may be missing.

Files are read through a `FileAccess`, so that the same rules hold of every kind of storage.
-/

namespace KeywordScope

/-- Why a configuration or a grammar could not be loaded. Each names the path. -/
inductive LoadError where
  /-- A file cannot be read. -/
  | unreadable (path : String) (fault : ReadFault)
  /-- A directory cannot be read. -/
  | unreadableDirectory (path : String) (fault : ReadFault)
  /-- A configuration is no YAML, or has another shape. -/
  | malformed (path : String)
  /-- A configuration sets no command to which keywords could be bound. -/
  | blankCommand (path : String)
  /-- A configuration sets nothing to stand between the names in a path. -/
  | emptySeparator (path : String)
  /-- A path does not end in the name of a file. -/
  | unnamed (path : String)
  deriving DecidableEq, Repr

namespace LoadError

/-- The wording of an error, without its cause. -/
def message : LoadError → String
  | unreadable path _ => "Failed to read " ++ path
  | unreadableDirectory path _ => "Failed to read directory " ++ path
  | malformed path => "Failed to parse " ++ path
  | blankCommand path => path ++ ": dispatcher.command must not be empty"
  | emptySeparator path => path ++ ": grammar.path_separator must not be empty"
  | unnamed path => "Cannot derive a DSL name from " ++ path

/-- The wording of what caused an error. -/
def cause? : LoadError → Option String
  | unreadable _ fault => some fault.text
  | unreadableDirectory _ fault => some fault.text
  | malformed _ => some "the document is not a configuration"
  | _ => none

/-- The wording of an error with its cause. -/
def describe (error : LoadError) : String :=
  error.message ++ (error.cause?.elim "" fun cause => ": " ++ cause)

end LoadError

/-- A step of loading. -/
abbrev Load (m : Type → Type) (α : Type) := ExceptT LoadError m α

/-- The text of a file. -/
def FileAccess.text {m : Type → Type} [Monad m] (access : FileAccess m) (path : String) :
    Load m String := do
  match ← access.read path with
  | .ok text => return text
  | .error fault => throw (.unreadable path fault)

/-- The grammar in a file. -/
structure GrammarSource where
  /-- The name of the language. -/
  dsl : String
  path : String
  source : String
  deriving DecidableEq, Repr

/-- The grammar in a file, whose language is named as the file is, without its extension. -/
def GrammarSource.load {m : Type → Type} [Monad m] (access : FileAccess m) (path : String) :
    Load m GrammarSource := do
  match Path.stem? path with
  | none => throw (.unnamed path)
  | some dsl => return { dsl, path, source := ← access.text path }

/-- The configuration in the text of the file at a path. A blank text leaves all defaults. -/
def Config.load (path text : String) : Except LoadError Config :=
  if isBlankText text then return {}
  else
    match Config.parse? text with
    | none => throw (.malformed path)
    | some config =>
      if isBlankText config.dispatcher.command then throw (.blankCommand path)
      else if config.grammar.pathSeparator = "" then throw (.emptySeparator path)
      else return config

/-- The extension of grammar files, without the points with which it may be written. -/
def GrammarConfig.bareExtension (grammar : GrammarConfig) : String :=
  String.ofList (grammar.fileExtension.toList.dropWhile (· == '.'))

/-- A directory with a configuration and grammars. -/
structure ConfigDirectory where
  path : String

namespace ConfigDirectory

/-- The directory that is used if none is named. -/
def fallback : String := "config"

/-- The directory named by a variable of the environment, if that is set and not empty. -/
def ofVariable (value? : Option String) : ConfigDirectory :=
  match value? with
  | none | some "" => ⟨fallback⟩
  | some path => ⟨path⟩

variable {m : Type → Type} [Monad m]

/-- The configuration. Without a file, everything takes its default. -/
def config (directory : ConfigDirectory) (access : FileAccess m) : Load m Config := do
  let path := Path.join directory.path "keywords.yaml"
  match ← access.kind? path with
  | none => return {}
  | some _ => ExceptT.mk (pure (Config.load path (← access.text path)))

/-- The grammars, by the names of their files. -/
def grammars (directory : ConfigDirectory) (access : FileAccess m) (grammar : GrammarConfig) :
    Load m (List GrammarSource) := do
  let folder := Path.join directory.path "grammars"
  if (← access.kind? folder) = some .directory then
    match ← access.names folder with
    | .error fault => throw (.unreadableDirectory folder fault)
    | .ok names =>
      let named := names.filter fun name =>
        (Path.extension? name).any (sameName grammar.bareExtension)
      let paths := (named.mergeSort (fun a b => decide (a ≤ b))).map (Path.join folder)
      let files ← paths.filterM fun path => return (← access.kind? path) = some .file
      files.mapM (GrammarSource.load access)
  else return []

end ConfigDirectory
end KeywordScope
