import KeywordScope.Error

/-!
# Bindings

The host resolves the name of a command through a table of bindings. A visible keyword has its
name bound to the dispatching command.

* `Binding`: what a name stands for.
* `BindingTable`: what a table has to offer. A table may refuse changes.
* `BindingTable.purge`: removes all bindings of a name to one command that are on top of others.
-/

namespace KeywordScope

/-- What a name is bound to. -/
structure Binding where
  /-- The command that the name stands for. -/
  target : String
  description : String := ""
  /-- The module that the binding belongs to. -/
  module? : Option String := none
  deriving DecidableEq, Repr

/-- The binding stands for the command. -/
def Binding.pointsTo (binding : Binding) (target : String) : Bool :=
  sameName binding.target target

/-- A table of bindings. Each change answers with the table after it, also when it fails. -/
class BindingTable (τ : Type) where
  /-- What a name is bound to. -/
  lookup : τ → String → Option Binding
  /-- Binds a name. -/
  bind : τ → String → Binding → Except HostError Unit × τ
  /-- Removes the binding of a name that is looked up first; `false` if nothing was removed. -/
  unbind : τ → String → Bool × τ
  /-- Offers a name of a module to those who import it. -/
  publish : τ → String → String → Except HostError Unit × τ
  /-- A bound on the number of bindings. -/
  size : τ → Nat
  /-- A removal makes the table smaller. -/
  size_unbind : ∀ table name, (unbind table name).1 = true →
    size (unbind table name).2 < size table

namespace BindingTable

variable {τ : Type} [BindingTable τ]

/-- The name is bound to the command. -/
def isBoundTo (table : τ) (name target : String) : Bool :=
  (lookup table name).any fun binding => binding.pointsTo target

/-- Removes the bindings of a name for as long as it is bound to the command and the table lets
them go. -/
def purge (table : τ) (name target : String) : τ :=
  if isBoundTo table name target then
    match h : unbind table name with
    | (true, table') =>
      have : size table' < size table := by
        have := size_unbind table name
        simp_all
      purge table' name target
    | (false, table') => table'
  else table
termination_by size table

end BindingTable

end KeywordScope
