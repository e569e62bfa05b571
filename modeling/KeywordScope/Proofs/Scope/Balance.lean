import KeywordScope.Proofs.Registry.Failures
import KeywordScope.Proofs.Registry.Lasting

/-!
# The scope stack is balanced

Over any table, whatever it refuses, no step but entering and leaving touches the scope stack.
Entering pushes the keyword if it succeeds, and leaves the stack alone if it fails. Leaving pops the
innermost keyword in any case.

* `lasting_hasScope`: all other steps leave the stack alone.
* `meets_enterScope`, `meets_leaveScope`: what becomes of the stack otherwise.
* `KeywordError.InOrder`: the error is not that a scope was left out of order.
-/

namespace KeywordScope

/-- The error is not that a scope was left out of order. -/
def KeywordError.InOrder (e : KeywordError) : Prop :=
  ∀ expected left, e ≠ .invalidState (.outOfOrder expected left)

theorem KeywordError.usual_inOrder {τ : Type} [BindingTable τ] :
    KeywordError.Usual τ KeywordError.InOrder where
  bind _ _ _ _ _ _ _ := nofun
  publish _ _ _ _ _ _ _ := nofun
  state _ h expected left he := h expected left (KeywordError.invalidState.inj he)
  operation _ _ _ := nofun

namespace Registry

open Step

variable {τ : Type}

/-- The entered keywords are these. -/
def HasScope (scope : List Keyword.Id) (r : Registry τ) : Prop :=
  r.scope = scope

variable {S : List Keyword.Id}

theorem lasting_hasScope : Lasting (τ := τ) (HasScope S) where
  bindings _ _ h := h
  entries _ _ _ h := h
  without _ _ h := h
  nextId _ h := h
  concat _ _ h _ _ _ := h

/-! ## Entering and leaving -/

variable [BindingTable τ]

/-- Leaving pops the innermost keyword, also if it fails. -/
theorem meets_leaveScope (id : Keyword.Id) :
    Meets (HasScope (τ := τ) (id :: S)) leaveScope (fun left r => left = id ∧ HasScope S r)
      fun e r => e.InOrder ∧ HasScope S r := by
  have hend : Meets (HasScope S) (do rebindStandalones; return id : Action τ Keyword.Id)
      (fun left r => left = id ∧ HasScope S r) fun _ => HasScope S :=
    Meets.bind (keeps_rebindStandalones lasting_hasScope.bindings) fun _ =>
      Meets.pure fun _ hr => ⟨rfl, hr⟩
  have hscope : Meets (HasScope (τ := τ) (id :: S)) leaveScope
      (fun left r => left = id ∧ HasScope S r) fun _ => HasScope S := by
    refine Meets.get_bind fun r hr => ?_
    rw [hr]
    refine Meets.bind (Meets.modify (R := HasScope S) fun _ _ => rfl) fun _ => ?_
    refine Meets.bind Meets.get fun r => Meets.ite (fun _ => ?_) fun _ => hend
    refine Meets.bind Meets.get fun r => ?_
    refine Meets.bind (Keeps.forM lasting_hasScope.keeps_hide) fun _ => ?_
    refine Meets.bind Meets.get fun r => ?_
    exact Meets.bind (Keeps.forM lasting_hasScope.keeps_reveal) fun _ => hend
  exact ((fails_leaveScope KeywordError.usual_inOrder).and hscope).conseq
    (fun _ hr => ⟨trivial, hr⟩) (fun _ _ hr => hr.2) fun _ _ hr => hr

/-- Entering pushes the keyword, unless it fails. -/
theorem meets_enterScope (id : Keyword.Id) :
    Meets (HasScope (τ := τ) S) (enterScope id) (fun _ => HasScope (id :: S))
      fun _ => HasScope S :=
  meets_enterScope_of (fun _ hr => congrArg _ hr) (lasting_hasScope.steady.keeps_openScope id)
    ((meets_leaveScope id).conseq (fun _ hr => hr) (fun _ _ hr => hr.2) fun _ _ hr => hr.2)

end Registry
end KeywordScope
