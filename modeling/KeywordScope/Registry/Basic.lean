import KeywordScope.Binding.Basic
import KeywordScope.Config
import KeywordScope.Value.Basic

/-!
# The registry

All registered keywords in order of registration: standalone keywords, and the members of
languages, which form forests. Each keyword is visible or hidden. The scope stack holds the members
whose bodies run, the innermost one first.

* `Entry`, `Membership`: a registered keyword, and its place in a language.
* `Registry`: the entries, the scope stack and the table of bindings.
* `Registry.Action`: a step on a registry, which keeps the state it reached also when it fails.
* The queries: by identity (`find?`, `children`, `siblings`, …), by language (`members`, `roots`,
  `memberAt?`, …) and by name (`standalone?`, `visibleNamed`).
-/

namespace KeywordScope

/-- The place of a keyword in a language. -/
structure Membership where
  dsl : String
  /-- The names from the root to the keyword, joined by the path separator. -/
  path : String
  /-- The keyword above; roots have none. -/
  parent? : Option Keyword.Id := none
  deriving DecidableEq, Repr

/-- A registered keyword. -/
structure Entry where
  keyword : Keyword
  visible : Bool
  /-- The place in a language; standalone keywords have none. -/
  membership? : Option Membership := none
  onInvoking? : Option ScriptBlock := none
  onInvoked? : Option ScriptBlock := none
  deriving DecidableEq, Repr

namespace Entry

/-- The identity of the keyword. -/
def id (entry : Entry) : Keyword.Id :=
  entry.keyword.id

/-- The keyword is a member of a language. -/
def isMember (entry : Entry) : Bool :=
  entry.membership?.isSome

/-- The keyword is a member of this language. -/
def isIn (entry : Entry) (dsl : String) : Bool :=
  entry.membership?.any fun membership => sameName membership.dsl dsl

/-- The keyword is a root of a language. -/
def isRoot (entry : Entry) : Bool :=
  entry.membership?.any fun membership => membership.parent?.isNone

/-- The path of a member, or the name of a standalone keyword. -/
def path (entry : Entry) : String :=
  (entry.membership?.map (·.path)).getD entry.keyword.name

end Entry

/-- The registered keywords, their scopes and the bindings of their names. -/
structure Registry (τ : Type) where
  entries : List Entry := []
  /-- The entered members, the innermost one first. -/
  scope : List Keyword.Id := []
  /-- The next identity to be given out. -/
  nextId : Nat := 1
  bindings : τ
  /-- The command to which visible keywords are bound. -/
  target : String
  /-- The description of these bindings. -/
  description : String
  /-- What stands between the names in a path. -/
  separator : String

namespace Registry

variable {τ : Type}

/-- A step on a registry that may fail. -/
abbrev Action (τ α : Type) := ExceptT KeywordError (StateM (Registry τ)) α

/-- The outcome of a step, with the state that it reached. -/
def attempt {α : Type} (action : Action τ α) : Action τ (Except KeywordError α) :=
  ExceptT.lift action.run

/-- The registry without keywords over a table of bindings. -/
def ofConfig (config : Config) (bindings : τ) : Registry τ where
  bindings
  target := config.dispatcher.command
  description := config.dispatcher.bindingDescription
  separator := config.grammar.pathSeparator

/-! ## Queries by identity -/

/-- The entry of a keyword. -/
def find? (registry : Registry τ) (id : Keyword.Id) : Option Entry :=
  registry.entries.find? (·.id == id)

/-- The keyword of an identity. -/
def keyword? (registry : Registry τ) (id : Keyword.Id) : Option Keyword :=
  (registry.find? id).map (·.keyword)

/-- The place of a member. -/
def membership? (registry : Registry τ) (id : Keyword.Id) : Option Membership :=
  (registry.find? id).bind (·.membership?)

def isVisible (registry : Registry τ) (id : Keyword.Id) : Bool :=
  (registry.find? id).any (·.visible)

def isMember (registry : Registry τ) (id : Keyword.Id) : Bool :=
  (registry.find? id).any (·.isMember)

def isStandalone (registry : Registry τ) (id : Keyword.Id) : Bool :=
  (registry.find? id).any (!·.isMember)

def isRoot (registry : Registry τ) (id : Keyword.Id) : Bool :=
  (registry.find? id).any (·.isRoot)

/-- The path of a member, or the name of a standalone keyword. -/
def path? (registry : Registry τ) (id : Keyword.Id) : Option String :=
  (registry.find? id).map (·.path)

/-- The keyword above a member. -/
def parent? (registry : Registry τ) (id : Keyword.Id) : Option Keyword.Id :=
  (registry.membership? id).bind (·.parent?)

/-- The identities of the entries of which a property holds. -/
def idsWhere (registry : Registry τ) (p : Entry → Bool) : List Keyword.Id :=
  (registry.entries.filter p).map (·.id)

/-- The keywords of the entries of which a property holds. -/
def keywordsWhere (registry : Registry τ) (p : Entry → Bool) : List Keyword :=
  (registry.entries.filter p).map (·.keyword)

/-- The members right below a keyword. -/
def children (registry : Registry τ) (id : Keyword.Id) : List Keyword.Id :=
  registry.idsWhere fun entry =>
    entry.membership?.any fun membership => membership.parent? == some id

/-- The members of the same language with the same parent, the member itself included. -/
def siblings (registry : Registry τ) (id : Keyword.Id) : List Keyword.Id :=
  match registry.membership? id with
  | none => []
  | some own =>
    registry.idsWhere fun entry =>
      entry.isIn own.dsl && (entry.membership?.any fun other => other.parent? == own.parent?)

/-! ## Queries by language -/

/-- The names of the languages, in order of registration and in their first spelling. -/
def dslNames (registry : Registry τ) : List String :=
  (registry.entries.filterMap (·.membership?.map (·.dsl))).foldl
    (fun names name => if hasName names name then names else names ++ [name]) []

/-- The members of a language. -/
def members (registry : Registry τ) (dsl : String) : List Keyword :=
  registry.keywordsWhere (·.isIn dsl)

/-- The entry of the member of a language at a path. -/
def entryAt? (registry : Registry τ) (dsl path : String) : Option Entry :=
  registry.entries.find? fun entry => entry.isIn dsl && sameName entry.path path

/-- The member of a language at a path. -/
def memberAt? (registry : Registry τ) (dsl path : String) : Option Keyword :=
  (registry.entryAt? dsl path).map (·.keyword)

/-- The roots of a language. -/
def roots (registry : Registry τ) (dsl : String) : List Keyword :=
  registry.keywordsWhere fun entry => entry.isRoot && entry.isIn dsl

/-- The roots of all languages. -/
def allRoots (registry : Registry τ) : List Keyword :=
  registry.keywordsWhere (·.isRoot)

/-- The first root of any language that has a name. -/
def rootNamed? (registry : Registry τ) (name : String) : Option Keyword :=
  registry.allRoots.find? (·.isNamed name)

/-! ## Queries by name -/

/-- The keywords that belong to no language. -/
def standalones (registry : Registry τ) : List Keyword :=
  registry.keywordsWhere (!·.isMember)

/-- The first standalone keyword that has a name. -/
def standalone? (registry : Registry τ) (name : String) : Option Keyword :=
  registry.standalones.find? (·.isNamed name)

/-- The entries of the visible keywords that have a name. -/
def visibleNamed (registry : Registry τ) (name : String) : List Entry :=
  registry.entries.filter fun entry => entry.visible && entry.keyword.isNamed name

/-- The visibility of every keyword, in order of registration. -/
def visibility (registry : Registry τ) : List (Keyword.Id × Bool) :=
  registry.entries.map fun entry => (entry.id, entry.visible)

/-! ## Queries about the scope -/

/-- The language of the innermost entered member. -/
def currentDsl? (registry : Registry τ) : Option String :=
  registry.scope.head?.bind fun id => (registry.membership? id).map (·.dsl)

/-- The keyword is right below the innermost entered member. -/
def isChildOfScope (registry : Registry τ) (id : Keyword.Id) : Bool :=
  match registry.scope with
  | [] => false
  | top :: _ => (registry.membership? id).any fun membership => membership.parent? == some top

end Registry

end KeywordScope
