import KeywordScope.Proofs.Invocation.Operations
import KeywordScope.Proofs.Scope.Balance
import KeywordScope.Proofs.Scope.Lifo

/-!
# Uses of keywords are balanced

Whatever the bodies and hooks of a host do with the operations of the session, and whatever the
table refuses: a use leaves the scope stack as it was, and each stage of it starts with the stack
that it should.

* `Operation.KeepsScope`: the operation is no step of the embedder's own that changes the stack.
* `Moment.Fits`: a moment of a use that began with a given stack is as it should be.
* `Session.keepsScope_perform`: all other operations leave the stack as it was.
* `Session.scope_balanced`: the stack before, during and after a use.
-/

namespace KeywordScope

variable {τ ω : Type}

/-- Steps of the embedder's own leave the scope stack alone. -/
def Operation.KeepsScope : Operation τ ω → Prop
  | .access step => ∀ S, Step.Keeps (Registry.HasScope S) step
  | .whileHeld _ operation => operation.KeepsScope
  | _ => True

theorem Operation.KeepsScope.upholds {operation : Operation τ ω} (h : operation.KeepsScope)
    (S : List Keyword.Id) : operation.Upholds (Registry.HasScope S) := by
  induction operation with
  | access step => exact h S
  | whileHeld _ _ ih => exact ih h
  | _ => trivial

/-- The moment belongs to a use that began with this scope stack. Hooks start with the same stack.
A body starts with the same stack, too, with the keyword on top if it is a member of a language.
The scope is not left out of order. -/
def Moment.Fits (scope : List Keyword.Id) : Moment τ → Prop
  | .started .invoking r => r.scope = scope
  | .started (.body entry) r => r.scope = if entry.isMember then entry.id :: scope else scope
  | .started .invoked r => r.scope = scope
  | .released answer =>
    ∀ expected left, answer ≠ .error (.invalidState (.outOfOrder expected left))

namespace Session

open Registry

variable {S : List Keyword.Id}

variable [BindingTable τ] (session : Session τ ω)

/-- An operation leaves the stack as it was if uses of keywords do. -/
theorem keepsScope_perform {invoke : Request → Run τ ω (List Value)}
    (hinvoke : ∀ request, Run.Keeps (HasScope S) (invoke request)) (operation : Operation τ ω)
    (h : operation.KeepsScope) (held : Hold) :
    Run.Keeps (HasScope S) (session.performWith invoke held operation) :=
  session.keeps_operation lasting_hasScope.kept hinvoke operation (h.upholds S) held

/-- The parts of a use that begins with a given stack. -/
theorem parts_scope (hhost : session.host.Asks Operation.KeepsScope)
    {invoke : Request → Run τ ω (List Value)}
    (hinvoke : ∀ S request, Run.Keeps (HasScope S) (invoke request)) (S : List Keyword.Id) :
    Invocation.Parts (session.runBlock invoke) (Moment.Fits S) (HasScope S) (fun _ => True)
      fun entry => HasScope (entry.id :: S) := by
  have hblock : ∀ S block args, Run.Keeps (HasScope S) (session.runBlock invoke block args) :=
    fun S block args => Program.keeps_run
      (fun operation h => session.keepsScope_perform (hinvoke S) operation h .free) _
      (hhost block args)
  exact {
    load := fun name => Step.Meets.conseq (lasting_hasScope.keeps_loadVisible name) (fun _ h => h)
      (fun _ _ h => ⟨trivial, h⟩) fun _ _ h => h
    enter := fun entry _ _ => meets_enterScope entry.id
    leave := fun entry _ _ => Step.Meets.conseq (meets_leaveScope entry.id) (fun _ h => h)
      (fun _ _ h => ⟨.inl h.1, h.2⟩) fun e _ h => ⟨fun expected left same =>
        h.1 expected left (Except.error.inj same), h.2⟩
    block := hblock S
    body := fun entry _ _ block => hblock (entry.id :: S) block []
    started_hook := fun _ h => ⟨h, h⟩
    started_body := fun _ _ _ hm h => by simpa [Moment.Fits, HasScope, hm] using h
    started_within := fun _ _ _ hm h => by simpa [Moment.Fits, HasScope, hm] using h
    released := fun _ _ _ => by simp }

/-- A use leaves the stack as it was. -/
theorem keepsScope_invoke (hhost : session.host.Asks Operation.KeepsScope) (depth : Nat) :
    ∀ S request, Run.Keeps (HasScope S) (session.invoke depth request) :=
  session.keeps_invoke_of_parts (fun _ => session.parts_scope hhost) depth

/-- The moments of a use fit the stack with which it begins, and if it comes to an end, it ends
with the same stack, whether it fails or not. -/
theorem scope_balanced (hhost : session.host.Asks Operation.KeepsScope) (depth : Nat)
    (request : Request) (state : State τ ω) :
    (∀ moment ∈ session.moments depth request state, moment.Fits state.registry.scope) ∧
      ∀ outcome state', (session.invoke depth request).run state = some (outcome, state') →
        state'.registry.scope = state.registry.scope := by
  constructor
  · exact session.moments_of_parts (fun _ => session.parts_scope hhost) depth request
      state.registry.scope state rfl
  · intro outcome state' hrun
    have h := session.keepsScope_invoke hhost depth state.registry.scope request state rfl
    rw [hrun] at h
    cases outcome <;> exact h

/-- A host whose bodies remove the language `web`. -/
def removingHost : Host LayeredTable Unit where
  resolveType token := .ok ⟨token⟩
  execute _ _ := .perform (.removeDsl "web") fun _ => .finish (.ok [])

theorem scope_balanced_sample :
    let session : Session LayeredTable Unit := { host := removingHost }
    let request := Request.ofKeyword "Site" (.script ⟨""⟩)
    let state : State LayeredTable Unit := { registry := sample }
    session.host.Asks Operation.KeepsScope ∧
      (∀ moment ∈ session.moments 1 request state, moment.Fits sample.scope) ∧
      ∀ outcome state', (session.invoke 1 request).run state = some (outcome, state') →
        state'.registry.scope = sample.scope := by
  intro session request state
  have hhost : session.host.Asks Operation.KeepsScope :=
    fun _ _ => ⟨trivial, fun _ => trivial⟩
  exact ⟨hhost, session.scope_balanced hhost 1 request state⟩

end Session
end KeywordScope
