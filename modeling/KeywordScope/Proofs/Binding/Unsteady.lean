import KeywordScope.Proofs.Binding.Stacks

/-!
# Tables that refuse at times

* `UnsteadyTable`: a table with a plan of the attempts to bind a name that it refuses. Whatever is
  refused in the course of a run, there is a plan for it.
-/

namespace KeywordScope

/-- A table that refuses some attempts to bind a name. -/
structure UnsteadyTable (τ : Type) where
  table : τ
  /-- Of each of the next attempts, whether it is refused. No later one is. -/
  refusals : List Bool := []
  deriving Repr

namespace UnsteadyTable

variable {τ : Type} [BindingTable τ]

/-- Binds a name, unless the plan says no. -/
def bind (table : UnsteadyTable τ) (name : String) (binding : Binding) :
    Except HostError Unit × UnsteadyTable τ :=
  match table.refusals with
  | true :: refusals => (.error (.binding name .refused), { table with refusals })
  | refusals =>
    let (result, inner) := BindingTable.bind table.table name binding
    (result, { table := inner, refusals := refusals.tail })

/-- Removes the binding of a name. -/
def unbind (table : UnsteadyTable τ) (name : String) : Bool × UnsteadyTable τ :=
  let (removed, inner) := BindingTable.unbind table.table name
  (removed, { table with table := inner })

/-- Publishes a name of a module. -/
def publish (table : UnsteadyTable τ) (module name : String) :
    Except HostError Unit × UnsteadyTable τ :=
  let (result, inner) := BindingTable.publish table.table module name
  (result, { table with table := inner })

instance : BindingTable (UnsteadyTable τ) where
  lookup table name := BindingTable.lookup table.table name
  bind := bind
  unbind := unbind
  publish := publish
  size table := BindingTable.size table.table
  size_unbind table name h := BindingTable.size_unbind table.table name h

/-- An attempt is refused, or made on the table behind. -/
theorem bind_cases (table : UnsteadyTable τ) (name : String) (binding : Binding) :
    ((table.bind name binding).1 ≠ .ok () ∧ (table.bind name binding).2.table = table.table) ∨
      ((table.bind name binding).1 = (BindingTable.bind table.table name binding).1 ∧
        (table.bind name binding).2.table = (BindingTable.bind table.table name binding).2) := by
  unfold bind
  split
  · exact .inl ⟨nofun, rfl⟩
  · exact .inr ⟨rfl, rfl⟩

open BindingTable (Stacked)

instance [Stacked τ] : Stacked (UnsteadyTable τ) where
  held table := Stacked.held table.table
  held_congr table _ _ h := Stacked.held_congr table.table h
  lookup_eq table name := Stacked.lookup_eq table.table name
  held_bind table name binding hok other := by
    rcases table.bind_cases name binding with ⟨hno, -⟩ | ⟨hresult, hafter⟩
    · exact absurd hok hno
    · show Stacked.held (table.bind name binding).2.table other = _
      rw [hafter]
      exact Stacked.held_bind table.table name binding (hresult.symm.trans hok) other
  held_bind_refused table name binding hno other := by
    show Stacked.held (table.bind name binding).2.table other = _
    rcases table.bind_cases name binding with ⟨-, hafter⟩ | ⟨hresult, hafter⟩
    · rw [hafter]
    · rw [hafter]
      exact Stacked.held_bind_refused table.table name binding
        (fun hok => hno (hresult.trans hok)) other
  bind_empty table binding hok := by
    rcases table.bind_cases "" binding with ⟨hno, -⟩ | ⟨hresult, -⟩
    · exact hno hok
    · exact Stacked.bind_empty table.table binding (hresult.symm.trans hok)
  unbind_eq table name := Stacked.unbind_eq table.table name
  held_unbind table name other := Stacked.held_unbind table.table name other
  held_publish table module name other := Stacked.held_publish table.table module name other

end UnsteadyTable

end KeywordScope
