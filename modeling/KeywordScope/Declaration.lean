import KeywordScope.Grammar.Check
import KeywordScope.Registry.Build
import KeywordScope.Script.Parser

/-!
# Declaring a language

* `readDeclaration`: the tree of a source that declares a language.
* `Registry.declare`: checks a tree and registers its keywords in place of those that the language
  had. A declaration that fails on the way leaves no keyword of the language.
* `Registry.declareSource`, `Registry.declareEach`: the same for a source, and for several languages
  one after the other.
-/

namespace KeywordScope

/-- A language needs a name. -/
def checkLanguageName (dsl : String) : Except KeywordError Unit :=
  if isBlankText dsl then throw (.invalidArgument "" .blankLanguage) else return ()

/-- The tree of a source that declares a language. -/
def readDeclaration (dsl source : String) : Except KeywordError Script.Block :=
  match Script.parse source with
  | .error e => throw (.grammar e)
  | .ok tree => do
    checkLanguageName dsl
    return tree

namespace Registry

variable {τ : Type} [BindingTable τ]

/-- What the grammar of a language is checked against here. -/
def rules (registry : Registry τ) (output : OutputConfig) (dsl : String) : Rules where
  dsl
  dispatcher := registry.target
  reserved := output.reserved
  lookup := BindingTable.lookup registry.bindings

/-- Declares a language by a tree. The answer is its roots. -/
def declare (output : OutputConfig) (findType : String → Option HostType) (dsl : String)
    (tree : Script.Block) (module? : Option String) : Action τ (List Keyword) := do
  match Grammar.check ((← get).rules output dsl) findType none tree with
  | .error e => throw (.grammar e)
  | .ok grammar =>
    discard (removeDsl dsl)
    let (result, _) ← (build { dsl, module? } none none grammar : StateM (Registry τ) _)
    match result with
    | .error e =>
      discard (attempt (removeDsl dsl))
      throw e
    | .ok _ => return (← get).roots dsl

/-- A step whose errors in a declaration are located in its source. -/
def locatedIn {α : Type} (source : String) (action : Action τ α) : Action τ α :=
  tryCatch action fun
    | .grammar e => throw (.grammar (e.locate source))
    | e => throw e

/-- Declares a language by a source. -/
def declareSource (output : OutputConfig) (findType : String → Option HostType)
    (dsl source : String) (module? : Option String) : Action τ (List Keyword) :=
  match readDeclaration dsl source with
  | .error e => throw e
  | .ok tree => locatedIn source (declare output findType dsl tree module?)

/-- Declares languages one after the other, each by its name and source. A failure does not keep
the later ones from being declared. -/
def declareEach (output : OutputConfig) (findType : String → Option HostType)
    (languages : List (String × String)) :
    StateM (Registry τ) (List (Except KeywordError (List Keyword))) :=
  languages.mapM fun (dsl, source) => (declareSource output findType dsl source none).run

end Registry
end KeywordScope
