import KeywordScope.Binding.Layered
import KeywordScope.Registry.Scope
import KeywordScope.Session
import Mathlib.Logic.Relation

/-!
# Operations on the registry

* `EditStep`: one operation on a registry, with any arguments and any outcome.
* `OwnsTable`: the registries over a table that was empty at first and that nobody else changes.
* `Edit`: the operations of a registry itself as data, with their answers; `Edit.perform` carries
  one out, `Edit.runAll` several.
-/

namespace KeywordScope
namespace Registry

variable {τ : Type} [BindingTable τ]

/-- An operation on a registry. It counts whether it succeeds or not. -/
inductive EditStep : Registry τ → Registry τ → Prop where
  | allocate (r : Registry τ) : EditStep r (allocate.run r).2
  | registerStandalone (r : Registry τ) (keyword : Keyword) :
      EditStep r ((registerStandalone keyword).run r).2
  | registerMember (r : Registry τ) (dsl : String) (keyword : Keyword)
      (parent? : Option Keyword.Id) (path : String) :
      EditStep r ((registerMember dsl keyword parent? path).run r).2
  | unregister (r : Registry τ) (id : Keyword.Id) : EditStep r ((unregister id).run r).2
  | removeDsl (r : Registry τ) (dsl : String) : EditStep r ((removeDsl dsl).run r).2
  | removeStandalone (r : Registry τ) (name : String) : EditStep r ((removeStandalone name).run r).2
  | reveal (r : Registry τ) (id : Keyword.Id) : EditStep r ((reveal id).run r).2
  | hide (r : Registry τ) (id : Keyword.Id) : EditStep r ((hide id).run r).2
  | enterScope (r : Registry τ) (id : Keyword.Id) : EditStep r ((enterScope id).run r).2
  | leaveScope (r : Registry τ) : EditStep r (leaveScope.run r).2
  | loadVisible (r : Registry τ) (name : String) : EditStep r ((loadVisible name).run r).2
  | subscribe (r : Registry τ) (dsl path : String) (event : Event) (handler : ScriptBlock) :
      EditStep r ((Session.subscribe dsl path event handler).run r).2
  | publish (r : Registry τ) (module name : String) : EditStep r ((publish module name).run r).2
  | declare (r : Registry τ) (output : OutputConfig) (findType : String → Option HostType)
      (dsl : String) (tree : Script.Block) (module? : Option String) :
      EditStep r ((declare output findType dsl tree module?).run r).2
  | declareSource (r : Registry τ) (output : OutputConfig) (findType : String → Option HostType)
      (dsl source : String) (module? : Option String) :
      EditStep r ((declareSource output findType dsl source module?).run r).2

/-- The registry came about by operations over a table that was empty at first, and nobody else
has changed the table. -/
def OwnsTable (r : Registry τ) : Prop :=
  ∃ (config : Config) (bindings : τ), (∀ name, BindingTable.lookup bindings name = none) ∧
    Relation.ReflTransGen EditStep (.ofConfig config bindings) r

theorem OwnsTable.empty (config : Config) {bindings : τ}
    (h : ∀ name, BindingTable.lookup bindings name = none) :
    OwnsTable (.ofConfig config bindings) :=
  ⟨config, bindings, h, .refl⟩

theorem OwnsTable.layered (config : Config) :
    OwnsTable (.ofConfig config ({} : LayeredTable)) :=
  .empty config fun _ => rfl

theorem OwnsTable.edit {r r' : Registry τ} (hr : r.OwnsTable) (h : EditStep r r') :
    r'.OwnsTable := by
  obtain ⟨config, bindings, hempty, run⟩ := hr
  exact ⟨config, bindings, hempty, run.tail h⟩

end Registry

/-! ## Operations as data -/

/-- An operation that a registry offers, with its arguments. -/
inductive Edit (τ : Type) where
  | allocate
  | registerStandalone (keyword : Keyword)
  | registerMember (dsl : String) (keyword : Keyword) (parent? : Option Keyword.Id) (path : String)
  | unregister (id : Keyword.Id)
  | removeDsl (dsl : String)
  | removeStandalone (name : String)
  | reveal (id : Keyword.Id)
  | hide (id : Keyword.Id)
  | enterScope (id : Keyword.Id)
  | leaveScope
  | loadVisible (name : String)
  | subscribe (dsl path : String) (event : Event) (handler : ScriptBlock)
  | publish (module name : String)
  /-- The host puts another table of bindings in place. -/
  | rebind (bindings : τ)

namespace Edit

/-- The answer to an operation that succeeds. -/
inductive Answer where
  | done
  | id (id : Keyword.Id)
  | keyword (keyword : Keyword)
  | count (removed : Nat)
  | flag (changed : Bool)
  deriving DecidableEq, Repr

variable {τ : Type} [BindingTable τ]

/-- Carries the operation out. -/
def perform : Edit τ → Registry.Action τ Answer
  | allocate => .id <$> Registry.allocate
  | registerStandalone keyword => .keyword <$> Registry.registerStandalone keyword
  | registerMember dsl keyword parent? path =>
    .keyword <$> Registry.registerMember dsl keyword parent? path
  | unregister id => .keyword <$> Registry.unregister id
  | removeDsl dsl => .count <$> Registry.removeDsl dsl
  | removeStandalone name => .flag <$> Registry.removeStandalone name
  | reveal id => (fun _ => .done) <$> Registry.reveal id
  | hide id => (fun _ => .done) <$> Registry.hide id
  | enterScope id => (fun _ => .done) <$> Registry.enterScope id
  | leaveScope => .id <$> Registry.leaveScope
  | loadVisible name => (fun entry => .keyword entry.keyword) <$> Registry.loadVisible name
  | subscribe dsl path event handler => .flag <$> Session.subscribe dsl path event handler
  | publish module name => (fun _ => .done) <$> Registry.publish module name
  | rebind bindings => (fun _ => .done) <$> (modify ({ · with bindings }) : Registry.Action τ PUnit)

/-- Carries operations out one after the other, in a given way. The answers are those of all
operations, and the state after the last one. -/
def runAll {σ : Type} (perform : Edit τ → ExceptT KeywordError (StateM σ) Answer) :
    List (Edit τ) → σ → List (Except KeywordError Answer) × σ
  | [], s => ([], s)
  | edit :: edits, s =>
    let (answer, s') := (perform edit).run s
    let (answers, s'') := runAll perform edits s'
    (answer :: answers, s'')

end Edit
end KeywordScope
