import KeywordScope.Proofs.Invocation.Use
import KeywordScope.Proofs.Registry.Sound

/-!
# Operations of a session

What the operations of a session keep of the registry, and the states that they reach.

* `Registry.Kept`: the invariant is kept by the operations that languages and standalone keywords
  come from.
* `Operation.Upholds`: a step of the embedder's own keeps the invariant.
* `Session.keeps_operation`: an operation keeps the invariant if uses of keywords do.
* `Session.Reaches`: the states that are reached from one by operations of a kind, those at the
  stages of a use included.
* `Session.Reaches.edited`: whatever is done in a session, its registry comes about by operations on
  registries.
-/

namespace KeywordScope

variable {τ ω : Type}

/-- The embedder's own steps keep the invariant. -/
def Operation.Upholds (I : Registry τ → Prop) : Operation τ ω → Prop
  | .access step => Step.Keeps I step
  | .whileHeld _ operation => operation.Upholds I
  | _ => True

/-- The registry at each stage of a use satisfies the condition. -/
def Moment.Satisfies (I : Registry τ → Prop) : Moment τ → Prop
  | .started _ r => I r
  | .released _ => True

namespace Registry

variable [BindingTable τ] {I : Registry τ → Prop}

/-- The invariant is kept when languages are declared and removed, and when standalone keywords and
hooks are. -/
structure Kept (I : Registry τ → Prop) : Prop where
  declare : ∀ output findType dsl tree module?,
    Step.Keeps I (declare output findType dsl tree module?)
  removeDsl : ∀ dsl, Step.Keeps I (removeDsl dsl)
  addStandalone : ∀ name nameMode body module?,
    Step.Keeps I (Session.addStandalone name nameMode body module?)
  removeStandalone : ∀ name, Step.Keeps I (removeStandalone name)
  subscribe : ∀ dsl path event handler, Step.Keeps I (Session.subscribe dsl path event handler)

theorem Lasting.kept (hI : Lasting I) : Kept I where
  declare := hI.steady.keeps_declare
  removeDsl := hI.steady.keeps_removeDsl
  addStandalone := hI.keeps_addStandalone
  removeStandalone := hI.steady.keeps_removeStandalone
  subscribe := hI.keeps_subscribe

theorem keeps_edited {α : Type} {action : Action τ α} (h : ∀ r, EditStep r (action.run r).2) :
    Step.Keeps Edited action :=
  Step.Keeps.of_run fun r hr => hr.edit (h r)

theorem kept_edited : Kept (τ := τ) Edited where
  declare output findType dsl tree module? :=
    keeps_edited fun r => .declare r output findType dsl tree module?
  removeDsl dsl := keeps_edited fun r => .removeDsl r dsl
  addStandalone _ _ _ _ :=
    (keeps_edited fun r => .allocate r).bind fun _ =>
      keeps_edited fun r => .registerStandalone r _
  removeStandalone name := keeps_edited fun r => .removeStandalone r name
  subscribe dsl path event handler :=
    keeps_edited fun r => .subscribe r dsl path event handler

end Registry

namespace Session

open Registry

section Operations

variable {I : Registry τ → Prop}

theorem keeps_change {α : Type} (held : Hold) {action : Registry.Action τ α}
    (h : Step.Keeps I action) : Run.Keeps (ω := ω) I (change held action) := by
  cases held with
  | free => exact Run.Keeps.onRegistry h
  | shared => exact Run.Keeps.throw _
  | exclusive => exact Run.Keeps.throw _

variable [BindingTable τ] (session : Session τ ω) {invoke : Request → Run τ ω (List Value)}

section Declare

variable (hI : ∀ output findType dsl tree module?,
  Step.Keeps I (Registry.declare output findType dsl tree module?))

include hI

theorem keeps_declareTree (held : Hold) (dsl : String) (tree : Script.Block)
    (module? : Option String) : Run.Keeps I (session.declareTree held dsl tree module?) := by
  unfold declareTree
  split
  · exact Run.Keeps.throw _
  · exact keeps_change held (hI _ _ dsl tree module?)

theorem keeps_declare (held : Hold) (dsl source : String) (module? : Option String) :
    Run.Keeps I (session.declare held dsl source module?) := by
  unfold declare
  split
  · exact Run.Keeps.throw _
  · exact keeps_change held ((hI _ _ dsl _ module?).locatedIn source)

end Declare

/-- An operation keeps what uses of keywords keep. -/
theorem keeps_operation (hI : Kept I) (hinvoke : ∀ request, Run.Keeps I (invoke request))
    (operation : Operation τ ω) (h : operation.Upholds I) (held : Hold) :
    Run.Keeps I (session.performWith invoke held operation) := by
  induction operation generalizing held with
  | declare dsl source module? => exact (session.keeps_declare hI.declare held dsl source module?).map
  | declareTree dsl tree module? =>
    exact (session.keeps_declareTree hI.declare held dsl tree module?).map
  | removeDsl dsl => exact (keeps_change held (hI.removeDsl dsl)).map
  | addStandalone name nameMode body module? =>
    exact (keeps_change held (hI.addStandalone name nameMode body module?)).map
  | removeStandalone name => exact (keeps_change held (hI.removeStandalone name)).map
  | subscribe dsl path word handler =>
    unfold performWith
    cases Event.ofWord word with
    | error e => exact Run.Keeps.throw e
    | ok event => exact (keeps_change held (hI.subscribe dsl path event _)).map
  | invoke request =>
    cases held with
    | free => exact (hinvoke request).map
    | shared => exact Run.Keeps.throw _
    | exclusive => exact Run.Keeps.throw _
  | resolveType token => exact Run.Keeps.pure _
  | configuration => exact Run.Keeps.pure _
  | access step => exact (keeps_change held h).map
  | whileHeld hold operation ih =>
    unfold performWith
    split
    · exact ih h held
    · exact Run.Keeps.throw _
    · exact ih h .shared
    · exact ih h .exclusive
    · exact Run.Keeps.throw _

/-- Blocks keep what uses of keywords keep. -/
theorem keeps_runBlock (hI : Kept I) (hhost : session.host.Asks (Operation.Upholds I))
    (hinvoke : ∀ request, Run.Keeps I (invoke request)) (block : ScriptBlock) (args : Fields) :
    Run.Keeps I (session.runBlock invoke block args) :=
  Program.keeps_run (fun operation h => session.keeps_operation hI hinvoke operation h .free) _
    (hhost block args)

end Operations

variable [BindingTable τ]

/-! ## States that are reached -/

/-- The states that are reached by operations of a kind: those after an operation, whether it fails
or not, and those at each stage of a use. The journal of the session may change at any time. -/
inductive Reaches (session : Session τ ω) (P : Operation τ ω → Prop) (first : State τ ω) :
    State τ ω → Prop where
  | refl : Reaches session P first first
  | noted {state : State τ ω} (h : Reaches session P first state)
      (journal : List (Observation τ ω)) : Reaches session P first { state with journal }
  | performed {state state' : State τ ω} (h : Reaches session P first state) (depth : Nat)
      (operation : Operation τ ω) (hop : P operation) (outcome : Except KeywordError (Reply ω))
      (hrun : (session.perform depth operation).run state = some (outcome, state')) :
      Reaches session P first state'
  | started {state state' : State τ ω} (h : Reaches session P first state) (depth : Nat)
      (request : Request) (hop : P (.invoke request)) (stage : Stage)
      (hmoment : .started stage state'.registry ∈ session.moments depth request state) :
      Reaches session P first state'

/-- What operations and the stages of uses keep holds of all states that they reach. -/
theorem Reaches.keeps {session : Session τ ω} {P : Operation τ ω → Prop} {I : Registry τ → Prop}
    {first state : State τ ω} (h : session.Reaches P first state) (hfirst : I first.registry)
    (hperform : ∀ depth operation, P operation → Run.Keeps I (session.perform depth operation))
    (hmoments : ∀ depth request state, P (.invoke request) → I state.registry →
      ∀ moment ∈ session.moments depth request state, moment.Satisfies I) :
    I state.registry := by
  induction h with
  | refl => exact hfirst
  | noted _ _ ih => exact ih
  | performed _ depth operation hop outcome hrun ih =>
    have hend := hperform depth operation hop _ ih
    rw [hrun] at hend
    cases outcome <;> exact hend
  | started _ depth request hop stage hmoment ih =>
    exact hmoments depth request _ hop ih _ hmoment

variable (session : Session τ ω)

/-- The parts of a use are operations on the registry. -/
theorem parts_edited {invoke : Request → Run τ ω (List Value)}
    (hhost : session.host.Asks (Operation.Upholds Edited))
    (hinvoke : ∀ request, Run.Keeps Edited (invoke request)) :
    Invocation.Parts (session.runBlock invoke) (Moment.Satisfies Edited) Edited (fun _ => True)
      fun _ => Edited where
  load name := Step.Meets.conseq (keeps_edited fun r => .loadVisible r name) (fun _ h => h)
    (fun _ _ h => ⟨trivial, h⟩) fun _ _ h => h
  enter entry _ _ := keeps_edited fun r => .enterScope r entry.id
  leave _ _ _ := (keeps_edited fun r => .leaveScope r).conseq (fun _ h => h)
    (fun _ _ h => ⟨.inr trivial, h⟩) fun _ _ h => ⟨trivial, h⟩
  block := session.keeps_runBlock kept_edited hhost hinvoke
  body _ _ _ block := session.keeps_runBlock kept_edited hhost hinvoke block []
  started_hook _ h := ⟨h, h⟩
  started_body _ _ _ _ h := h
  started_within _ _ _ _ h := h
  released _ := trivial

/-- Whatever is done in a session, also by bodies and hooks, the registry comes about by operations
on registries. -/
theorem Reaches.edited {session : Session τ ω} {bindings : τ} {state : State τ ω}
    (hhost : session.host.Asks (Operation.Upholds Edited))
    (h : session.Reaches (Operation.Upholds Edited) (session.start bindings) state) :
    state.registry.Edited := by
  -- All uses begin in the same condition.
  have hparts : ∀ invoke : Request → Run τ ω (List Value),
      (∀ (_ : Unit) request, Run.Keeps Edited (invoke request)) → ∀ _ : Unit,
        Invocation.Parts (session.runBlock invoke) (Moment.Satisfies Edited) Edited (fun _ => True)
          fun _ => Edited :=
    fun _ hinvoke _ => session.parts_edited hhost (hinvoke ())
  refine h.keeps (.empty session.config bindings) ?_ ?_
  · intro depth operation hop
    exact session.keeps_operation kept_edited (session.keeps_invoke_of_parts hparts depth ())
      operation hop .free
  · exact fun depth request state _ => session.moments_of_parts hparts depth request () state

end Session
end KeywordScope
