import KeywordScope.Binding.Basic

/-!
# Layers of bindings

A table in memory with nested layers, as a host has for its own scopes. A name is looked up from
the innermost layer outwards; it is bound, or its binding removed, in the innermost layer that
holds it, and a new name is bound in the innermost layer.

* `Layer`: names with their bindings, in the order in which they were first bound. Names that
  differ only in case are one name.
* `LayeredTable`: the layers, and the names that modules publish.
* `LayeredTable.pushLayer`, `LayeredTable.popLayer`, `LayeredTable.bindLocal`: the host's own
  changes.
-/

namespace KeywordScope

/-- Names, as last spelled, with their bindings. -/
abbrev Layer := List (String × Binding)

namespace Layer

/-- The layer binds the name. -/
def holds (layer : Layer) (name : String) : Bool :=
  layer.any fun entry => sameName entry.1 name

/-- The binding of a name. -/
def find? (layer : Layer) (name : String) : Option Binding :=
  (List.find? (fun entry => sameName entry.1 name) layer).map (·.2)

/-- Binds a name. A name that is bound keeps its place and takes the new spelling. -/
def insert (layer : Layer) (name : String) (binding : Binding) : Layer :=
  if layer.holds name then
    layer.map fun entry => if sameName entry.1 name then (name, binding) else entry
  else layer ++ [(name, binding)]

/-- Removes the binding of a name. -/
def erase (layer : Layer) (name : String) : Layer :=
  layer.filter fun entry => !sameName entry.1 name

theorem length_erase_lt {layer : Layer} {name : String} (h : layer.holds name = true) :
    (layer.erase name).length < layer.length := by
  obtain ⟨entry, mem, same⟩ := List.any_eq_true.1 h
  exact List.length_filter_lt_length_iff_exists.2 ⟨entry, mem, by simp [same]⟩

end Layer

/-- Nested layers of bindings, and the names that modules publish. -/
structure LayeredTable where
  innermost : Layer := []
  /-- The other layers, from the innermost outwards. -/
  outer : List Layer := []
  /-- The modules with the names that they publish, in order of publication. -/
  published : List (String × List String) := []
  deriving DecidableEq, Repr

namespace LayeredTable

/-- All layers, from the innermost outwards. There is always one. -/
def layers (table : LayeredTable) : List Layer :=
  table.innermost :: table.outer

/-- The number of layers. -/
def depth (table : LayeredTable) : Nat :=
  table.layers.length

/-- Enters a nested layer. -/
def pushLayer (table : LayeredTable) : LayeredTable :=
  { table with innermost := [], outer := table.layers }

/-- Leaves the innermost layer with its bindings, unless it is the only one. -/
def popLayer (table : LayeredTable) : Bool × LayeredTable :=
  match table.outer with
  | [] => (false, table)
  | layer :: outer => (true, { table with innermost := layer, outer })

/-- Binds a name in the innermost layer; a binding further out is shadowed. -/
def bindLocal (table : LayeredTable) (name : String) (binding : Binding) : LayeredTable :=
  { table with innermost := table.innermost.insert name binding }

/-- Changes the innermost layer that holds the name; `none` if no layer does. -/
def changeHolder? (name : String) (change : Layer → Layer) : List Layer → Option (List Layer)
  | [] => none
  | layer :: outer =>
    if layer.holds name then some (change layer :: outer)
    else (changeHolder? name change outer).map (layer :: ·)

/-- The table with a change to the innermost layer that holds the name; `none` if no layer does. -/
def change? (table : LayeredTable) (name : String) (change : Layer → Layer) :
    Option LayeredTable :=
  if table.innermost.holds name then some { table with innermost := change table.innermost }
  else (changeHolder? name change table.outer).map fun outer => { table with outer }

/-- The binding of a name in the innermost layer that holds it. -/
def lookup (table : LayeredTable) (name : String) : Option Binding :=
  table.layers.findSome? (·.find? name)

/-- Binds a name where it is held, or else in the innermost layer. The empty name is refused. -/
def bind (table : LayeredTable) (name : String) (binding : Binding) :
    Except HostError Unit × LayeredTable :=
  if name = "" then (.error (.binding name .emptyName), table)
  else
    (.ok (), (table.change? name (·.insert name binding)).getD (table.bindLocal name binding))

/-- Removes the innermost binding of a name. -/
def unbind (table : LayeredTable) (name : String) : Bool × LayeredTable :=
  match table.change? name (·.erase name) with
  | some table => (true, table)
  | none => (false, table)

/-- The names that a module publishes. -/
def publishedBy (table : LayeredTable) (module : String) : List String :=
  ((table.published.find? fun entry => sameName entry.1 module).map (·.2)).getD []

/-- Publishes a name of a module, once. -/
def publish (table : LayeredTable) (module name : String) : LayeredTable :=
  if table.published.any fun entry => sameName entry.1 module then
    { table with published := table.published.map fun entry =>
        if sameName entry.1 module && !hasName entry.2 name then (entry.1, entry.2 ++ [name])
        else entry }
  else { table with published := table.published ++ [(module, [name])] }

/-- The bound names: outer layers first, each layer in order, and each name in its first
spelling. -/
def names (table : LayeredTable) : List String :=
  (table.layers.reverse.flatten.map (·.1)).foldl
    (fun names name => if hasName names name then names else names ++ [name]) []

/-- The number of bindings in all layers. -/
def size (table : LayeredTable) : Nat :=
  table.layers.flatten.length

theorem changeHolder?_erase_lt {name : String} {layers layers' : List Layer}
    (h : changeHolder? name (·.erase name) layers = some layers') :
    layers'.flatten.length < layers.flatten.length := by
  induction layers generalizing layers' with
  | nil => simp [changeHolder?] at h
  | cons layer outer ih =>
    unfold changeHolder? at h
    split at h
    · next holds =>
      obtain rfl := by simpa using h
      simpa using Layer.length_erase_lt holds
    · obtain ⟨outer', h', rfl⟩ := Option.map_eq_some_iff.1 h
      simpa using ih h'

theorem size_unbind (table : LayeredTable) (name : String) (h : (table.unbind name).1 = true) :
    (table.unbind name).2.size < table.size := by
  unfold unbind change? at *
  split at h
  · next table' changed =>
    simp only
    split at changed
    · next holds =>
      obtain rfl := by simpa using changed
      simpa [size, layers] using Layer.length_erase_lt holds
    · obtain ⟨outer', h', rfl⟩ := Option.map_eq_some_iff.1 changed
      simpa [size, layers] using changeHolder?_erase_lt h'
  · simp at h

instance : BindingTable LayeredTable where
  lookup := lookup
  bind := bind
  unbind := unbind
  publish table module name := (.ok (), table.publish module name)
  size := size
  size_unbind := size_unbind

end LayeredTable

end KeywordScope
