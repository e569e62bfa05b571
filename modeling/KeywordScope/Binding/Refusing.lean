import KeywordScope.Binding.Basic

/-!
# Tables that refuse changes

* `RefusingTable`: a table with lists of names that it refuses to bind, to publish or to let go.
-/

namespace KeywordScope

/-- A table behind three lists of names. -/
structure RefusingTable (τ : Type) where
  table : τ
  /-- Binding such a name fails. -/
  refusedBinds : List String := []
  /-- Publishing such a name fails. -/
  refusedPublications : List String := []
  /-- The binding of such a name is not removed. -/
  sticky : List String := []
  deriving Repr

namespace RefusingTable

variable {τ : Type} [BindingTable τ]

/-- Binds a name, unless the table refuses that. -/
def bind (table : RefusingTable τ) (name : String) (binding : Binding) :
    Except HostError Unit × RefusingTable τ :=
  if hasName table.refusedBinds name then (.error (.binding name .refused), table)
  else
    let (result, inner) := BindingTable.bind table.table name binding
    (result, { table with table := inner })

/-- Removes the binding of a name, unless it is sticky. -/
def unbind (table : RefusingTable τ) (name : String) : Bool × RefusingTable τ :=
  if hasName table.sticky name then (false, table)
  else
    let (removed, inner) := BindingTable.unbind table.table name
    (removed, { table with table := inner })

/-- Publishes a name of a module, unless the table refuses that. -/
def publish (table : RefusingTable τ) (module name : String) :
    Except HostError Unit × RefusingTable τ :=
  if hasName table.refusedPublications name then (.error (.binding name .refused), table)
  else
    let (result, inner) := BindingTable.publish table.table module name
    (result, { table with table := inner })

theorem size_unbind (table : RefusingTable τ) (name : String)
    (h : (table.unbind name).1 = true) :
    BindingTable.size (table.unbind name).2.table < BindingTable.size table.table := by
  unfold unbind at *
  split at h
  · simp at h
  · next free => simpa [free] using BindingTable.size_unbind table.table name h

instance : BindingTable (RefusingTable τ) where
  lookup table name := BindingTable.lookup table.table name
  bind := bind
  unbind := unbind
  publish := publish
  size table := BindingTable.size table.table
  size_unbind := size_unbind

end RefusingTable

end KeywordScope
