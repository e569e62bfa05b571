import KeywordScope.Binding.Layered
import KeywordScope.Binding.Refusing

/-!
# Names that a table grants

A table may refuse to bind some names and not others, and what it refuses may depend on what has
been bound before.

* `BindingTable.Later`: the tables that come about as names are bound and bindings removed.
* `BindingTable.Grants`: the name can be bound at any later time.
* `LayeredTable.grants_iff`: layers of bindings grant every name but the empty one.
* `RefusingTable.grants`: a table behind lists of refused names grants what the one behind them
  does, unless the name is on the list.
-/

namespace KeywordScope
namespace BindingTable

variable {τ : Type} [BindingTable τ] {table table' table'' : τ}

/-- The second table comes about from the first one as names are bound and bindings removed. Refused
attempts count, too. -/
inductive Later (table : τ) : τ → Prop where
  | refl : Later table table
  | bind {table' : τ} (h : Later table table') (name : String) (binding : Binding) :
      Later table (bind table' name binding).2
  | unbind {table' : τ} (h : Later table table') (name : String) :
      Later table (unbind table' name).2

theorem Later.trans (h : Later table table') (h' : Later table' table'') : Later table table'' := by
  induction h' with
  | refl => exact h
  | bind _ name binding ih => exact ih.bind name binding
  | unbind _ name ih => exact ih.unbind name

theorem Later.purge (table : τ) (name target : String) : Later table (purge table name target) := by
  fun_induction BindingTable.purge table name target with
  | case1 table _ table' hunbind _ ih =>
    have hfirst : Later table (BindingTable.unbind table name).2 := Later.refl.unbind name
    rw [hunbind] at hfirst
    exact hfirst.trans ih
  | case2 table _ table' hunbind =>
    have hfirst : Later table (BindingTable.unbind table name).2 := Later.refl.unbind name
    rwa [hunbind] at hfirst
  | case3 table _ => exact .refl

/-- The table binds the name whenever it is asked to, whatever it has been asked for before. -/
def Grants (table : τ) (name : String) : Prop :=
  ∀ table', Later table table' → ∀ binding, (bind table' name binding).1 = .ok ()

theorem Grants.later {name : String} (h : Grants table name) (hlater : Later table table') :
    Grants table' name :=
  fun table'' h' => h table'' (hlater.trans h')

end BindingTable

open BindingTable (Later Grants)

/-- Layers of bindings grant every name but the empty one. -/
theorem LayeredTable.grants_iff {table : LayeredTable} {name : String} :
    Grants table name ↔ name ≠ "" := by
  constructor
  · rintro h rfl
    cases h table .refl { target := "" }
  · intro h table' _ binding
    show (table'.bind name binding).1 = .ok ()
    rw [bind, if_neg h]

namespace RefusingTable

variable {τ : Type} [BindingTable τ] {table table' : RefusingTable τ}

/-- The lists of refused names stay. -/
theorem of_later (h : Later table table') :
    Later table.table table'.table ∧ table'.refusedBinds = table.refusedBinds := by
  induction h with
  | refl => exact ⟨.refl, rfl⟩
  | @bind table' _ name binding ih =>
    show Later table.table (table'.bind name binding).2.table ∧
      (table'.bind name binding).2.refusedBinds = table.refusedBinds
    unfold bind
    split
    · exact ih
    · exact ⟨ih.1.bind name binding, ih.2⟩
  | @unbind table' _ name ih =>
    show Later table.table (table'.unbind name).2.table ∧
      (table'.unbind name).2.refusedBinds = table.refusedBinds
    unfold unbind
    split
    · exact ih
    · exact ⟨ih.1.unbind name, ih.2⟩

/-- A name that is not refused is granted if the table behind grants it. -/
theorem grants {name : String} (h : hasName table.refusedBinds name = false)
    (hinner : Grants table.table name) : Grants table name := by
  intro table' hlater binding
  obtain ⟨hlater, hrefused⟩ := of_later hlater
  show (table'.bind name binding).1 = .ok ()
  rw [bind, hrefused, h, if_neg Bool.false_ne_true]
  exact hinner table'.table hlater binding

end RefusingTable
end KeywordScope
