import KeywordScope.Registry.Basic

/-!
# Changing the registry

Visible keywords have their names bound to the dispatching command. A name is bound when a keyword
becomes visible, and purged when one is hidden or removed.

* `registerStandalone`, `registerMember`, `unregister`, `removeDsl`, `removeStandalone`: the
  keywords. A new member is visible only if it is a root and no scope is entered.
* `reveal`, `hide`: the visibility of one keyword. Standalone keywords cannot be hidden.
* `loadVisible`: the keyword that a name stands for now. A member of a language goes before
  standalone keywords.
* `setHook`: what runs before or after the body of a member.
-/

namespace KeywordScope
namespace Registry

variable {τ : Type} [BindingTable τ]

/-! ## Bindings -/

/-- The table after a change that may fail. -/
def changeBindings (change : τ → Except HostError Unit × τ) : Action τ Unit := do
  let registry ← get
  let (result, bindings) := change registry.bindings
  set { registry with bindings }
  match result with
  | .ok () => return ()
  | .error e => throw (.host e)

/-- Binds the name of a keyword to the dispatching command, unless it is bound to it. -/
def bindKeyword (keyword : Keyword) : Action τ Unit := do
  let registry ← get
  unless BindingTable.isBoundTo registry.bindings keyword.name registry.target do
    changeBindings fun bindings => BindingTable.bind bindings keyword.name
      { target := registry.target
        description := registry.description
        module? := keyword.module? }

/-- Removes the bindings of a name to the dispatching command that are on top of others. -/
def purgeName (name : String) : Action τ Unit :=
  modify fun registry =>
    { registry with bindings := BindingTable.purge registry.bindings name registry.target }

/-- Binds the names of standalone keywords that are not bound at all. -/
def rebindStandalones : Action τ Unit := do
  let registry ← get
  (registry.standalones.filter fun keyword =>
    (BindingTable.lookup registry.bindings keyword.name).isNone).forM bindKeyword

/-- Publishes a name of a module. -/
def publish (module name : String) : Action τ Unit :=
  changeBindings fun bindings => BindingTable.publish bindings module name

/-! ## Registration -/

/-- Gives out a new identity. -/
def allocate : Action τ Keyword.Id := do
  let registry ← get
  set { registry with nextId := registry.nextId + 1 }
  return ⟨registry.nextId⟩

/-- Adds an entry with a new identity. -/
def insert (entry : Entry) : Action τ Unit := do
  if ((← get).find? entry.id).isSome then
    throw (.invalidState (.idTaken entry.id))
  if entry.visible then
    bindKeyword entry.keyword
  modify fun registry => { registry with entries := registry.entries ++ [entry] }

/-- Registers a keyword that belongs to no language. It is visible. -/
def registerStandalone (keyword : Keyword) : Action τ Keyword := do
  insert { keyword, visible := true }
  return keyword

/-- Registers a member of a language below a parent, or as a root. -/
def registerMember (dsl : String) (keyword : Keyword) (parent? : Option Keyword.Id)
    (path : String) : Action τ Keyword := do
  let registry ← get
  if let some parent := parent? then
    unless registry.isMember parent do
      throw (.invalidState (.foreignParent parent path))
  if (registry.entryAt? dsl path).isSome then
    throw (.invalidState (.pathTaken path dsl))
  insert
    { keyword
      visible := parent?.isNone && registry.scope.isEmpty
      membership? := some { dsl, path, parent? } }
  return keyword

/-- The entry of a keyword that has to be registered. -/
def getEntry (id : Keyword.Id) : Action τ Entry := do
  match (← get).find? id with
  | some entry => return entry
  | none => throw (.invalidState (.unknownId id))

/-- Removes a keyword and purges its name. -/
def unregister (id : Keyword.Id) : Action τ Keyword := do
  let entry ← getEntry id
  modify fun registry => { registry with entries := registry.entries.filter (·.id != id) }
  purgeName entry.keyword.name
  return entry.keyword

/-- Removes all members of a language. If there are any, standalone keywords get their bindings
back. The answer is the number of members. -/
def removeDsl (dsl : String) : Action τ Nat := do
  let members := (← get).members dsl
  members.forM fun keyword => discard (unregister keyword.id)
  unless members.isEmpty do
    rebindStandalones
  return members.length

/-- Removes the first standalone keyword of a name, if there is one. -/
def removeStandalone (name : String) : Action τ Bool := do
  match (← get).standalone? name with
  | some keyword =>
    discard (unregister keyword.id)
    return true
  | none => return false

/-! ## Visibility -/

/-- Changes the entry of a keyword. -/
def modifyEntry (id : Keyword.Id) (change : Entry → Entry) : Action τ Unit :=
  modify fun registry =>
    { registry with entries := registry.entries.map fun entry =>
        if entry.id == id then change entry else entry }

/-- Makes a keyword visible and binds its name. -/
def reveal (id : Keyword.Id) : Action τ Unit := do
  let entry ← getEntry id
  modifyEntry id ({ · with visible := true })
  bindKeyword entry.keyword

/-- Hides a member and purges its name. -/
def hide (id : Keyword.Id) : Action τ Unit := do
  let entry ← getEntry id
  unless entry.isMember do
    throw (.invalidOperation (.hideStandalone entry.keyword.name))
  modifyEntry id ({ · with visible := false })
  purgeName entry.keyword.name

/-- Of the visible keywords of a name, the one that it stands for. -/
def choose (name : String) (visible : List Entry) : Except KeywordError Entry :=
  match visible with
  | [] => .error (.notFound name)
  | [entry] => .ok entry
  | _ =>
    match visible.filter Entry.isMember with
    | [entry] => .ok entry
    | [] => .error (.invalidState (.ambiguousStandalone name))
    | _ => .error (.invalidState (.ambiguousMember name))

/-- The keyword that a name stands for, with its name bound. -/
def loadVisible (name : String) : Action τ Entry := do
  let entry ← choose name ((← get).visibleNamed name)
  bindKeyword entry.keyword
  return entry

/-- Sets what runs before, or after, the body of the member of a language at a path. Without such
a member nothing changes, and the answer is `false`. -/
def setHook (dsl path : String) (change : Entry → Entry) : Action τ Bool := do
  match (← get).entryAt? dsl path with
  | some entry =>
    modifyEntry entry.id change
    return true
  | none => return false

end Registry
end KeywordScope
