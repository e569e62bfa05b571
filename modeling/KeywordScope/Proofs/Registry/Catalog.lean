import KeywordScope.Invocation.Event
import KeywordScope.Registry.Basic
import Mathlib.Data.List.Nodup

/-!
# The registry as two maps

The registry once more, as an embedder sees it stored: the keywords in one map, and the places of
the members of languages in another one. Each step changes one map after the other.

* `OrderedMap`: a map whose items stay in the order in which their keys came.
* `Catalog`: the two maps, with the scope stack and the table of bindings.
* `Catalog.insert`, `unregister`, `reveal`, …: the steps, each with the checks that it makes itself.
-/

namespace KeywordScope

/-! ## Maps -/

/-- A map whose items stay in the order in which their keys came. No key is there twice. -/
structure OrderedMap (κ β : Type) where
  items : List (κ × β)
  nodup : (items.map Prod.fst).Nodup

namespace OrderedMap

variable {κ β : Type} [DecidableEq κ]

/-- The map without items. -/
def empty : OrderedMap κ β where
  items := []
  nodup := List.nodup_nil

/-- What a key stands for. -/
def get? (map : OrderedMap κ β) (key : κ) : Option β :=
  (map.items.find? (·.1 == key)).map (·.2)

/-- The key is in the map. -/
def contains (map : OrderedMap κ β) (key : κ) : Bool :=
  (map.get? key).isSome

theorem contains_of_mem {map : OrderedMap κ β} {item : κ × β} (h : item ∈ map.items) :
    map.contains item.1 = true := by
  rw [contains, get?, Option.isSome_map, List.find?_isSome]
  exact ⟨item, h, beq_self_eq_true _⟩

theorem nodup_concat {map : OrderedMap κ β} {key : κ} (h : ¬ map.contains key = true) (value : β) :
    ((map.items ++ [(key, value)]).map Prod.fst).Nodup := by
  rw [List.map_append]
  refine List.nodup_append.2 ⟨map.nodup, List.nodup_singleton _, ?_⟩
  intro id hmem id' hnew same
  obtain ⟨item, hitem, rfl⟩ := List.mem_map.1 hmem
  have hkey : id' = key := List.mem_singleton.1 hnew
  exact h (hkey ▸ same ▸ contains_of_mem hitem)

/-- Changes what a key stands for, if it is in the map. -/
def adjust (map : OrderedMap κ β) (key : κ) (change : β → β) : OrderedMap κ β where
  items := map.items.map fun item => if item.1 == key then (item.1, change item.2) else item
  nodup := by
    have hkeys : (map.items.map fun item => if item.1 == key then (item.1, change item.2) else
        item).map Prod.fst = map.items.map Prod.fst := by
      rw [List.map_map]
      refine List.map_congr_left fun item _ => ?_
      simp only [Function.comp_apply]
      split <;> rfl
    rw [hkeys]
    exact map.nodup

/-- The map with an item at a key: in the place of the one that is there, or at the end. -/
def insert (map : OrderedMap κ β) (key : κ) (value : β) : OrderedMap κ β :=
  if h : map.contains key = true then map.adjust key fun _ => value
  else { items := map.items ++ [(key, value)], nodup := nodup_concat h value }

/-- The map without a key. The other items keep their order. -/
def remove (map : OrderedMap κ β) (key : κ) : OrderedMap κ β where
  items := map.items.filter (·.1 != key)
  nodup := map.nodup.sublist (List.filter_sublist.map _)

end OrderedMap

/-! ## Catalogs -/

/-- A keyword as it is stored. -/
structure Item where
  keyword : Keyword
  visible : Bool
  onInvoking? : Option ScriptBlock := none
  onInvoked? : Option ScriptBlock := none
  deriving DecidableEq, Repr

/-- The registered keywords, the places of members of languages, the entered members, and the
bindings. -/
structure Catalog (τ : Type) where
  entries : OrderedMap Keyword.Id Item := .empty
  places : OrderedMap Keyword.Id Membership := .empty
  /-- The entered members, the innermost one first. -/
  scope : List Keyword.Id := []
  nextId : Nat := 1
  bindings : τ
  target : String
  description : String
  separator : String

namespace Catalog

variable {τ : Type}

/-- A step on a catalog that may fail. -/
abbrev Action (τ α : Type) := ExceptT KeywordError (StateM (Catalog τ)) α

/-- The outcome of a step, with the state that it reached. -/
def attempt {α : Type} (action : Action τ α) : Action τ (Except KeywordError α) :=
  ExceptT.lift action.run

/-- The catalog without keywords over a table of bindings. -/
def ofConfig (config : Config) (bindings : τ) : Catalog τ where
  bindings
  target := config.dispatcher.command
  description := config.dispatcher.bindingDescription
  separator := config.grammar.pathSeparator

/-! ### Queries -/

/-- The keys of the places of which a property holds. -/
def idsWhere (catalog : Catalog τ) (p : Membership → Bool) : List Keyword.Id :=
  (catalog.places.items.filter (p ·.2)).map (·.1)

/-- The members of a language. -/
def members (catalog : Catalog τ) (dsl : String) : List Keyword.Id :=
  catalog.idsWhere fun place => sameName place.dsl dsl

/-- The member of a language at a path. -/
def idAt? (catalog : Catalog τ) (dsl path : String) : Option Keyword.Id :=
  (catalog.places.items.find? fun item =>
    sameName item.2.dsl dsl && sameName item.2.path path).map (·.1)

/-- The members right below a keyword. -/
def children (catalog : Catalog τ) (id : Keyword.Id) : List Keyword.Id :=
  catalog.idsWhere fun place => place.parent? == some id

/-- The members of the same language with the same parent. -/
def siblings (catalog : Catalog τ) (id : Keyword.Id) : List Keyword.Id :=
  match catalog.places.get? id with
  | none => []
  | some own =>
    catalog.idsWhere fun place => place.parent? == own.parent? && sameName place.dsl own.dsl

/-- The keywords without a place. -/
def standalones (catalog : Catalog τ) : List Keyword :=
  (catalog.entries.items.filter fun item => !catalog.places.contains item.1).map (·.2.keyword)

/-- The first keyword of a name without a place. -/
def standalone? (catalog : Catalog τ) (name : String) : Option Keyword :=
  catalog.standalones.find? (·.isNamed name)

/-- The visible keywords of a name. -/
def visibleNamed (catalog : Catalog τ) (name : String) : List Keyword :=
  (catalog.entries.items.filter fun item =>
    item.2.visible && item.2.keyword.isNamed name).map (·.2.keyword)

/-! ### Bindings -/

variable [BindingTable τ]

/-- The table after a change that may fail. -/
def changeBindings (change : τ → Except HostError Unit × τ) : Action τ Unit := do
  let catalog ← get
  let (result, bindings) := change catalog.bindings
  set { catalog with bindings }
  match result with
  | .ok () => return ()
  | .error e => throw (.host e)

/-- Binds the name of a keyword to the dispatching command, unless it is bound to it. -/
def bindKeyword (keyword : Keyword) : Action τ Unit := do
  let catalog ← get
  unless BindingTable.isBoundTo catalog.bindings keyword.name catalog.target do
    changeBindings fun bindings => BindingTable.bind bindings keyword.name
      { target := catalog.target
        description := catalog.description
        module? := keyword.module? }

/-- Removes the bindings of a name to the dispatching command. -/
def purgeName (name : String) : Action τ Unit :=
  modify fun catalog =>
    { catalog with bindings := BindingTable.purge catalog.bindings name catalog.target }

/-- Binds the names of keywords without a place that are not bound at all. -/
def rebindStandalones : Action τ Unit := do
  let catalog ← get
  (catalog.standalones.filter fun keyword =>
    (BindingTable.lookup catalog.bindings keyword.name).isNone).forM bindKeyword

/-- Publishes a name of a module. -/
def publish (module name : String) : Action τ Unit :=
  changeBindings fun bindings => BindingTable.publish bindings module name

/-! ### Registration -/

/-- Gives out a new identity. -/
def allocate : Action τ Keyword.Id := do
  let catalog ← get
  set { catalog with nextId := catalog.nextId + 1 }
  return ⟨catalog.nextId⟩

/-- Stores a keyword with a new identity. -/
def insert (keyword : Keyword) (visible : Bool) : Action τ Unit := do
  if (← get).entries.contains keyword.id then
    throw (.invalidState (.idTaken keyword.id))
  if visible then
    bindKeyword keyword
  modify fun catalog =>
    { catalog with entries := catalog.entries.insert keyword.id { keyword, visible } }

/-- Stores a keyword without a place. -/
def registerStandalone (keyword : Keyword) : Action τ Keyword := do
  insert keyword true
  return keyword

/-- Stores a keyword, and then its place. -/
def registerMember (dsl : String) (keyword : Keyword) (parent? : Option Keyword.Id)
    (path : String) : Action τ Keyword := do
  let catalog ← get
  if let some parent := parent? then
    unless catalog.places.contains parent do
      throw (.invalidState (.foreignParent parent path))
  if (catalog.idAt? dsl path).isSome then
    throw (.invalidState (.pathTaken path dsl))
  insert keyword (parent?.isNone && catalog.scope.isEmpty)
  modify fun catalog =>
    { catalog with places := catalog.places.insert keyword.id { dsl, path, parent? } }
  return keyword

/-- The keyword that is stored under an identity. -/
def getItem (id : Keyword.Id) : Action τ Item := do
  match (← get).entries.get? id with
  | some item => return item
  | none => throw (.invalidState (.unknownId id))

/-- Removes a keyword, and then its place if it has one. -/
def unregister (id : Keyword.Id) : Action τ Keyword := do
  let item ← getItem id
  modify fun catalog => { catalog with entries := catalog.entries.remove id }
  modify fun catalog => { catalog with places := catalog.places.remove id }
  purgeName item.keyword.name
  return item.keyword

/-- Removes all members of a language. If there are any, keywords without a place get their
bindings back. -/
def removeDsl (dsl : String) : Action τ Nat := do
  let ids := (← get).members dsl
  ids.forM fun id => discard (unregister id)
  unless ids.isEmpty do
    rebindStandalones
  return ids.length

/-- Removes the first keyword of a name without a place. -/
def removeStandalone (name : String) : Action τ Bool := do
  match (← get).standalone? name with
  | some keyword =>
    discard (unregister keyword.id)
    return true
  | none => return false

/-! ### Visibility -/

/-- Changes the keyword that is stored under an identity. -/
def adjust (id : Keyword.Id) (change : Item → Item) : Action τ Unit :=
  modify fun catalog => { catalog with entries := catalog.entries.adjust id change }

/-- Makes a keyword visible and binds its name. -/
def reveal (id : Keyword.Id) : Action τ Unit := do
  let item ← getItem id
  adjust id ({ · with visible := true })
  bindKeyword item.keyword

/-- Hides a keyword that has a place, and purges its name. -/
def hide (id : Keyword.Id) : Action τ Unit := do
  let item ← getItem id
  unless (← get).places.contains id do
    throw (.invalidOperation (.hideStandalone item.keyword.name))
  adjust id ({ · with visible := false })
  purgeName item.keyword.name

/-- Leaves the innermost scope. -/
def leaveScope : Action τ Keyword.Id := do
  match (← get).scope with
  | [] => throw (.invalidOperation .noScope)
  | id :: scope =>
    modify ({ · with scope })
    if (← get).places.contains id then
      ((← get).children id).forM hide
      ((← get).siblings id).forM reveal
    rebindStandalones
    return id

/-- Hides a member and its siblings and reveals its children. -/
def openScope (id : Keyword.Id) : Action τ Unit := do
  ((← get).siblings id).forM hide
  ((← get).children id).forM reveal

/-- Enters a member. If that fails, its scope is left again. -/
def enterScope (id : Keyword.Id) : Action τ Unit := do
  let item ← getItem id
  unless (← get).places.contains id do
    throw (.invalidOperation (.enterStandalone item.keyword.name))
  modify fun catalog => { catalog with scope := id :: catalog.scope }
  match ← attempt (openScope id) with
  | .ok () => return ()
  | .error e =>
    discard (attempt leaveScope)
    throw e

/-- Of the visible keywords of a name, the one that it stands for. -/
def choose (catalog : Catalog τ) (name : String) : Except KeywordError Keyword :=
  match catalog.visibleNamed name with
  | [] => .error (.notFound name)
  | [keyword] => .ok keyword
  | visible =>
    match visible.filter fun keyword => catalog.places.contains keyword.id with
    | [keyword] => .ok keyword
    | [] => .error (.invalidState (.ambiguousStandalone name))
    | _ => .error (.invalidState (.ambiguousMember name))

/-- The keyword that a name stands for, with its name bound. -/
def loadVisible (name : String) : Action τ Keyword := do
  let keyword ← (← get).choose name
  bindKeyword keyword
  return keyword

/-- Sets what runs at an event of the member of a language at a path. -/
def subscribe (dsl path : String) (event : Event) (handler : ScriptBlock) : Action τ Bool := do
  match (← get).idAt? dsl path with
  | some id =>
    if (← get).entries.contains id then
      adjust id fun item =>
        match event with
        | .invoking => { item with onInvoking? := some handler }
        | .invoked => { item with onInvoked? := some handler }
      return true
    else return false
  | none => return false

end Catalog
end KeywordScope
