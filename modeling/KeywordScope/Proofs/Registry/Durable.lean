import KeywordScope.Proofs.Registry.Edits
import KeywordScope.Proofs.Registry.Lasting

/-!
# Durable invariants

What every operation on a registry keeps, with any arguments and any outcome.

* `Durable`: the invariant is kept by all steps on one keyword, and does not depend on the scope
  stack.
* `EditStep.keeps`: then it is kept by every operation.
* `Lasting.durable`: a lasting invariant is durable if keywords may be registered under any free
  identity.
* `Loopless`: no member is registered right below itself (`durable_loopless`).
-/

namespace KeywordScope
namespace Registry

open Step

variable {τ : Type} {I : Registry τ → Prop} {r r' : Registry τ}

section Table

variable [BindingTable τ]

/-- The invariant is kept by the steps on one keyword, whatever they are asked for. -/
structure Durable (I : Registry τ → Prop) : Prop extends Steady I where
  scope : ∀ r scope, I r → I { r with scope }
  registerStandalone : ∀ keyword, Keeps I (registerStandalone keyword)
  registerMember : ∀ dsl keyword parent? path, Keeps I (registerMember dsl keyword parent? path)
  loadVisible : ∀ name, Keeps I (loadVisible name)
  subscribe : ∀ dsl path event handler, Keeps I (Session.subscribe dsl path event handler)

/-- What is durable is kept by every operation. -/
theorem EditStep.keeps (hI : Durable I) (h : EditStep r r') (hr : I r) : I r' := by
  cases h with
  | allocate => exact hI.nextId r hr
  | registerStandalone keyword => exact (hI.registerStandalone keyword).run hr
  | registerMember dsl keyword parent? path =>
    exact (hI.registerMember dsl keyword parent? path).run hr
  | unregister id => exact (hI.unregister id).run hr
  | removeDsl dsl => exact (hI.keeps_removeDsl dsl).run hr
  | removeStandalone name => exact (hI.keeps_removeStandalone name).run hr
  | reveal id => exact (hI.reveal id).run hr
  | hide id => exact (hI.hide id).run hr
  | enterScope id => exact (hI.keeps_enterScope hI.scope id).run hr
  | leaveScope => exact (hI.keeps_leaveScope hI.scope).run hr
  | loadVisible name => exact (hI.loadVisible name).run hr
  | subscribe dsl path event handler => exact (hI.subscribe dsl path event handler).run hr
  | publish module name => exact (hI.publish module name).run hr
  | declare output findType dsl tree module? =>
    exact (hI.keeps_declare output findType dsl tree module?).run hr
  | declareSource output findType dsl source module? =>
    exact (hI.keeps_declareSource output findType dsl source module?).run hr

/-- Keywords may be registered under identities that were never given out. -/
theorem Lasting.durable (hI : Lasting I) (hscope : ∀ r scope, I r → I { r with scope })
    (hconcat : ∀ r entry, I r → r.find? entry.id = none →
      (∀ parent, entry.parent? = some parent → r.isMember parent = true) → I (r.concat entry)) :
    Durable I where
  toSteady := hI.steady
  scope := hscope
  registerStandalone keyword := keeps_registerStandalone_of hI.bindings keyword fun r hr hfresh =>
    hconcat r _ hr hfresh fun _ h => by cases h
  registerMember dsl keyword parent? path := by
    refine Meets.conseq (Registry.meets_registerMember hI.bindings dsl keyword parent? path)
      (fun _ h => h) ?_ fun _ _ h => h
    rintro _ _ ⟨r, hr, hfresh, hparent, -, rfl⟩
    exact hconcat r _ hr hfresh hparent
  loadVisible := hI.keeps_loadVisible
  subscribe := hI.keeps_subscribe

end Table

/-! ## Members below themselves -/

/-- No member stands right below itself. -/
def Loopless (r : Registry τ) : Prop :=
  ∀ entry ∈ r.entries, entry.parent? ≠ some entry.id

theorem Loopless.concat (hr : r.Loopless) {entry : Entry} (hfresh : r.find? entry.id = none)
    (hparent : ∀ parent, entry.parent? = some parent → r.isMember parent = true) :
    (r.concat entry).Loopless := by
  intro other ho hself
  rcases mem_concat.1 ho with ho | rfl
  · exact hr other ho hself
  · obtain ⟨found, hfound, -⟩ := isMember_iff.1 (hparent _ hself)
    rw [hfresh] at hfound
    cases hfound

theorem durable_loopless [BindingTable τ] : Durable (τ := τ) Loopless := by
  have hlasting : Lasting (τ := τ) Loopless :=
    { bindings := fun _ _ hr => hr
      entries := fun r entries ho hr entry he => by
        obtain ⟨found, hf, same⟩ := exists_mem_of_outline (r := { r with entries }) ho he
        rw [← Entry.parent?_congr same, ← Entry.id_congr same]
        exact hr found hf
      without := fun _ _ hr entry he => hr entry (mem_without.1 he).1
      nextId := fun _ hr => hr
      concat := fun _ _ hr hfresh _ hparent => hr.concat hfresh hparent }
  exact hlasting.durable (fun _ _ hr => hr) fun _ _ hr => hr.concat

end Registry
end KeywordScope
