import KeywordScope.Grammar.Tree
import KeywordScope.Registry.Change

/-!
# Registering a grammar

* `Registry.build`: registers the keywords of a grammar, parents before their children, and lists
  them. If that fails, the keywords so far stay registered.
* `Forest`: where the keywords go.
-/

namespace KeywordScope

/-- Where the keywords of a grammar go. -/
structure Forest where
  dsl : String
  /-- The module that declares the keywords. The names of roots are published by it. -/
  module? : Option String := none

namespace Registry

variable {τ : Type} [BindingTable τ]

/-- A step of the registration of a grammar, which keeps the keywords registered so far. -/
abbrev Build (τ α : Type) := ExceptT KeywordError (StateM (Registry τ × List Keyword.Id)) α

namespace Build

/-- A step on the registry alone. -/
def onRegistry {α : Type} (action : Action τ α) : Build τ α := do
  let (registry, registered) ← get
  let (result, registry) := action.run registry
  set (registry, registered)
  result

mutual

/-- Registers a keyword and all below it. -/
def decl (forest : Forest) (parent? : Option Keyword.Id) (parentPath? : Option String) :
    KeywordDecl → Build τ Unit
  | .mk name nameMode body _ => do
    let id ← onRegistry allocate
    let separator := (← get).1.separator
    let path := (parentPath?.map fun parentPath => parentPath ++ separator ++ name).getD name
    let keyword := { id, name, nameMode, body := body.toBody, module? := forest.module? }
    discard (onRegistry (registerMember forest.dsl keyword parent? path))
    modify fun (registry, registered) => (registry, registered ++ [id])
    if let (none, some module) := (parent?, forest.module?) then
      onRegistry (publish module name)
    grammar forest (some id) (some path) body

/-- Registers the keywords of a block. -/
def grammar (forest : Forest) (parent? : Option Keyword.Id) (parentPath? : Option String) :
    Grammar → Build τ Unit
  | .keywords decls' _ => decls forest parent? parentPath? decls'
  | .properties _ _ => return ()

/-- Registers keywords in order. -/
def decls (forest : Forest) (parent? : Option Keyword.Id) (parentPath? : Option String) :
    List KeywordDecl → Build τ Unit
  | [] => return ()
  | first :: rest => do
    decl forest parent? parentPath? first
    decls forest parent? parentPath? rest

end

end Build

/-- Registers the keywords of a grammar below a parent with its path, or as roots. The answers are
the outcome, with the properties that the block declares itself, and the registered keywords. -/
def build (forest : Forest) (parent? : Option Keyword.Id) (parentPath? : Option String)
    (grammar : Grammar) :
    StateM (Registry τ) (Except KeywordError (List Property) × List Keyword.Id) := do
  let (result, registry, registered) :=
    (Build.grammar forest parent? parentPath? grammar).run (← get, [])
  set registry
  return (result.map fun _ => grammar.propertyList, registered)

end Registry

end KeywordScope
