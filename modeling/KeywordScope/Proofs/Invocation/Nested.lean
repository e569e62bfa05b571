import KeywordScope.Proofs.Invocation.Record
import Mathlib.Logic.Relation

/-!
# Nested uses that fail

A use may fail since the body or a hook of its keyword used another keyword, which failed, and
handed that error on.

* `Program.Leads`: a program comes from one point to another.
* `Invocation.Starts`: the blocks that are started during a use.
* `Invocation.dispatch_of_starts`: a use fails as such a block does.
* `Session.HandsOn`: a use starts a block that hands on the error of another use.
* `Session.outcome_of_chain`: along a chain of such uses, all fail with the innermost error.
-/

namespace KeywordScope

variable {τ ω : Type}

/-! ## Programs -/

/-- A program comes from one point to another. Operations on the way may fail. -/
inductive Program.Leads (perform : Operation τ ω → Run τ ω (Reply ω)) :
    Program τ ω → State τ ω → Program τ ω → State τ ω → Prop where
  | refl (program : Program τ ω) (s : State τ ω) : Leads perform program s program s
  | performed {operation : Operation τ ω} {next : Except KeywordError (Reply ω) → Program τ ω}
      {answer : Except KeywordError (Reply ω)} {target : Program τ ω} {s s' t : State τ ω}
      (h : (perform operation).run s = some (answer, s'))
      (rest : Leads perform (next answer) s' target t) :
      Leads perform (.perform operation next) s target t
  | noted {observe : Registry τ → Observation τ ω} {next target : Program τ ω} {s t : State τ ω}
      (rest : Leads perform next { s with journal := s.journal ++ [observe s.registry] } target t) :
      Leads perform (.note observe next) s target t

/-- What a program comes to from one point on is what it comes to from a later one on. -/
theorem Program.Leads.run_eq {perform : Operation τ ω → Run τ ω (Reply ω)}
    {program target : Program τ ω} {s t : State τ ω} (h : Leads perform program s target t) :
    (program.run perform).run s = (target.run perform).run t := by
  induction h with
  | refl => rfl
  | performed h _ ih =>
    rw [← ih, Program.run, Run.run_bind, Run.run_attempt, h]
    rfl
  | noted _ ih =>
    rw [← ih, Program.run, Run.run_bind]
    rfl

namespace Invocation

variable [BindingTable τ]

/-! ## The blocks of a use -/

/-- What a use has put together for its record once the body is over. -/
inductive Yields (output : OutputConfig)
    (runBlock : ScriptBlock → Fields → Run τ ω (List Value)) (request : Request) (entry : Entry)
    (s : State τ ω) : Fields → State τ ω → Prop where
  | executable {block : ScriptBlock} {items : List Value} {s' : State τ ω}
      (script : request.body = .script block) (executable : entry.keyword.body = .executable)
      (returns : Returns runBlock entry block s items (.ok ()) s') :
      Yields output runBlock request entry s (collect output items) s'
  | map {fields : Fields} {properties : List Property} (fields_eq : request.body = .map fields)
      (map : entry.keyword.body = .map properties) :
      Yields output runBlock request entry s fields s

/-- The blocks that are started in a use of a keyword, with their arguments and the states in which
they start. The request has been accepted. -/
inductive StartsOf (config : Config) (runBlock : ScriptBlock → Fields → Run τ ω (List Value))
    (request : Request) (entry : Entry) (s : State τ ω) :
    ScriptBlock → Fields → State τ ω → Prop where
  | invoking {hook : ScriptBlock} (hook_eq : entry.onInvoking? = some hook) :
      StartsOf config runBlock request entry s hook
        [("Name", (request.name?.map Value.string).getD .null)] s
  | standalone {before : List Value} {block : ScriptBlock} {s₁ : State τ ω}
      (hookYields : HookYields runBlock request entry.onInvoking? s before s₁)
      (script : request.body = .script block) (executable : entry.keyword.body = .executable)
      (noMember : entry.isMember = false) :
      StartsOf config runBlock request entry s block [] s₁
  | member {before : List Value} {block : ScriptBlock} {s₁ : State τ ω} {r : Registry τ}
      (hookYields : HookYields runBlock request entry.onInvoking? s before s₁)
      (script : request.body = .script block) (executable : entry.keyword.body = .executable)
      (isMember : entry.isMember = true)
      (entered : (Registry.enterScope entry.id).run s₁.registry = (.ok (), r)) :
      StartsOf config runBlock request entry s block [] { s₁ with registry := r }
  | invoked {before : List Value} {fields : Fields} {record : Record} {hook : ScriptBlock}
      {s₁ s₂ : State τ ω} (hookYields : HookYields runBlock request entry.onInvoking? s before s₁)
      (yields : Yields config.output runBlock request entry s₁ fields s₂)
      (assembled : assemble config.output entry (request.name?.getD entry.keyword.name) fields =
        .ok record)
      (hook_eq : entry.onInvoked? = some hook) :
      StartsOf config runBlock request entry s hook [("InputObject", record.toValue)] s₂

/-- The blocks that are started in the use for a request. -/
def Starts (config : Config) (runBlock : ScriptBlock → Fields → Run τ ω (List Value))
    (request : Request) (s : State τ ω) (block : ScriptBlock) (args : Fields) (s' : State τ ω) :
    Prop :=
  ∃ entry r, (Registry.loadVisible request.keyword).run s.registry = (.ok entry, r) ∧
    checkRequest config.dispatcher (r.isVisible entry.keyword.id) entry.keyword request = .ok () ∧
    StartsOf config runBlock request entry { s with registry := r } block args s'

variable {runBlock : ScriptBlock → Fields → Run τ ω (List Value)} {entry : Entry}
  {s s' t : State τ ω} {e : KeywordError} {block : ScriptBlock}

theorem Yields.endsIn {output : OutputConfig} {request : Request} {fields : Fields}
    (h : Yields output runBlock request entry s fields s') :
    (bodyFields output runBlock request entry).EndsIn s (.ok fields) s' := by
  cases h with
  | executable script executable returns =>
    rw [bodyFields, script, executable]
    exact returns.endsIn.map
  | map fields_eq map =>
    rw [bodyFields, fields_eq, map]
    exact .pure _

theorem endsIn_bodyFields_error {output : OutputConfig} {request : Request}
    (script : request.body = .script block) (executable : entry.keyword.body = .executable)
    (h : (runBody runBlock entry block).EndsIn s (.error e) t) :
    (bodyFields output runBlock request entry).EndsIn s (.error e) t := by
  rw [bodyFields, script, executable]
  exact h.map_error

/-- A use fails as a block does that is started in it. -/
theorem endsIn_of_starts {config : Config} {request : Request} {args : Fields}
    (h : Starts config runBlock request s block args s')
    (hfails : (runBlock block args).run s' = some (.error e, t)) :
    ∃ t', (use config runBlock request).EndsIn s (.error e) t' := by
  obtain ⟨entry, r, hload, hcheck, h⟩ := h
  cases h with
  | invoking hook_eq =>
    refine ⟨t, endsIn_use_of hload hcheck ?_⟩
    rw [firstHook, hook_eq]
    exact (Course.EndsIn.runStage hfails _).bind_error
  | standalone hookYields script executable noMember =>
    have hbody := endsIn_runBody_standalone noMember hfails
    exact ⟨_, endsIn_use_of hload hcheck
      (hookYields.endsIn.bind (endsIn_bodyFields_error script executable hbody).bind_error)⟩
  | member hookYields script executable isMember entered =>
    have hbody := endsIn_runBody_member isMember entered hfails rfl
    exact ⟨_, endsIn_use_of hload hcheck
      (hookYields.endsIn.bind (endsIn_bodyFields_error script executable hbody).bind_error)⟩
  | invoked hookYields yields assembled hook_eq =>
    refine ⟨t, endsIn_use_of hload hcheck (hookYields.endsIn.bind (yields.endsIn.bind ?_))⟩
    rw [finish, assembled, hook_eq]
    exact (Course.EndsIn.lift (.ok _)).bind (Course.EndsIn.runStage hfails _).bind_error

theorem dispatch_of_starts {config : Config} {request : Request} {args : Fields}
    (h : Starts config runBlock request s block args s')
    (hfails : (runBlock block args).run s' = some (.error e, t)) :
    ∃ t', (dispatch config runBlock request).run s = some (.error e, t') := by
  obtain ⟨t', hends⟩ := endsIn_of_starts h hfails
  exact ⟨t', hends.toRun⟩

end Invocation

/-! ## Chains of uses -/

/-- A use of a keyword from a state on. Uses within it may nest up to the depth. -/
structure Use (τ ω : Type) where
  depth : Nat
  request : Request
  state : State τ ω

namespace Session

variable [BindingTable τ]

/-- How a use ends, if it comes to an end. -/
def outcome (session : Session τ ω) (use : Use τ ω) :
    Option (Except KeywordError (List Value) × State τ ω) :=
  (session.invoke use.depth use.request).run use.state

/-- The outer use starts a block whose program asks for the inner one, after whatever else it has
done. If that fails, the program ends with its error as one of the host. -/
structure HandsOn (session : Session τ ω) (outer inner : Use τ ω) : Prop where
  depth_eq : outer.depth = inner.depth + 1
  asks : ∃ block args s next,
    Invocation.Starts session.config (session.runBlock (session.invoke inner.depth)) outer.request
      outer.state block args s ∧
    Program.Leads (session.performWith (session.invoke inner.depth) .free)
      (session.host.execute block args) s (.invoke inner.request next) inner.state ∧
    ∀ e t, session.outcome inner = some (.error e, t) → ∃ t',
      Program.Leads (session.performWith (session.invoke inner.depth) .free) (next (.error e)) t
        (.finish (.error (.keyword e))) t'

variable {session : Session τ ω} {outer inner : Use τ ω} {e : KeywordError} {t : State τ ω}

/-- The outer use fails with the error that is handed on. -/
theorem HandsOn.outcome_eq (h : session.HandsOn outer inner)
    (he : session.outcome inner = some (.error e, t)) :
    ∃ t', session.outcome outer = some (.error e, t') := by
  obtain ⟨block, args, s, next, hstarts, hleads, hnext⟩ := h.asks
  obtain ⟨t', hnext⟩ := hnext e t he
  have hasks : ((Program.invoke inner.request next).run
      (session.performWith (session.invoke inner.depth) .free)).run inner.state =
        ((next (.error e)).run (session.performWith (session.invoke inner.depth) .free)).run t := by
    have hperform : (session.performWith (session.invoke inner.depth) .free
        (.invoke inner.request)).run inner.state = some (.error e, t) := by
      rw [performWith, map_eq_pure_bind, Run.run_bind]
      unfold outcome at he
      rw [he]
    rw [Program.invoke, Program.run, Run.run_bind, Run.run_attempt, hperform]
    rfl
  have hfails : (session.runBlock (session.invoke inner.depth) block args).run s =
      some (.error e, t') := by
    rw [runBlock, hleads.run_eq, hasks, hnext.run_eq]
    rfl
  unfold outcome
  rw [h.depth_eq]
  exact Invocation.dispatch_of_starts hstarts hfails

/-- Along a chain of uses, of which each hands on the error of the next one, all fail with the error
of the last one. -/
theorem outcome_of_chain (chain : Relation.ReflTransGen session.HandsOn outer inner)
    (he : session.outcome inner = some (.error e, t)) :
    ∃ t', session.outcome outer = some (.error e, t') := by
  induction chain using Relation.ReflTransGen.head_induction_on with
  | refl => exact ⟨t, he⟩
  | head hstep _ ih =>
    obtain ⟨t', h⟩ := ih
    exact hstep.outcome_eq h

end Session
end KeywordScope
