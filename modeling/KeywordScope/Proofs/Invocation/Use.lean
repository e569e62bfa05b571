import KeywordScope.Proofs.Invocation.Conditions
import KeywordScope.Proofs.Scope.Guards

/-!
# The steps of a use

What a use keeps of the registry, from what its parts keep: finding the keyword, the blocks that the
host runs, and entering and leaving the scope of the keyword.

* `firstHook`, `bodyFields`, `finish`: what a use does once its request is accepted.
* `Invocation.Parts`: what is known of the parts.
* `Parts.meets_use`: what follows for the whole use and its moments.
* `Session.keeps_invoke_of_parts`, `Session.moments_of_parts`: the same for uses that nest.
-/

namespace KeywordScope
namespace Invocation

open Registry

variable {τ ω : Type} [BindingTable τ]

/-! ## The parts of a use -/

/-- The hook before the body, if the keyword has one. -/
def firstHook (runBlock : ScriptBlock → Fields → Run τ ω (List Value)) (request : Request)
    (entry : Entry) : Course τ ω (List Value) :=
  match entry.onInvoking? with
  | some hook =>
    runStage runBlock .invoking hook [("Name", (request.name?.map Value.string).getD .null)]
  | none => pure []

/-- The body, if it is of the kind that is declared. -/
def bodyFields (output : OutputConfig)
    (runBlock : ScriptBlock → Fields → Run τ ω (List Value)) (request : Request)
    (entry : Entry) : Course τ ω Fields :=
  match request.body, entry.keyword.body with
  | .script block, .executable => collect output <$> runBody runBlock entry block
  | .map fields, .map _ => pure fields
  | _, _ => throw (.unsupportedBody entry.keyword.name (.mismatch entry.keyword.body))

/-- The record, and the hook after the body if the keyword has one. -/
def finish (output : OutputConfig)
    (runBlock : ScriptBlock → Fields → Run τ ω (List Value)) (request : Request)
    (entry : Entry) (before : List Value) (fields : Fields) : Course τ ω (List Value) := do
  let record ← assemble output entry (request.name?.getD entry.keyword.name) fields
  match entry.onInvoked? with
  | some hook =>
    return before ++ (← runStage runBlock .invoked hook [("InputObject", record.toValue)])
  | none => return before ++ [record.toValue]

/-- A use is made of these parts. -/
theorem use_eq (config : Config) (runBlock : ScriptBlock → Fields → Run τ ω (List Value))
    (request : Request) :
    use config runBlock request = (do
      let entry ← Course.ofRun (Run.onRegistry (Registry.loadVisible request.keyword))
      let state ← get
      checkRequest config.dispatcher (state.registry.isVisible entry.keyword.id) entry.keyword
        request
      let before ← firstHook runBlock request entry
      let fields ← bodyFields config.output runBlock request entry
      finish config.output runBlock request entry before fields) := by
  unfold use firstHook
  refine bind_congr fun entry => bind_congr fun state => bind_congr fun _ => ?_
  have hrest : ∀ before, (match request.body, entry.keyword.body with
      | .script block, .executable => do
        let fields ← collect config.output <$> runBody runBlock entry block
        finish config.output runBlock request entry before fields
      | .map fields, .map _ => do
        let fields ← pure fields
        finish config.output runBlock request entry before fields
      | _, _ => do
        let fields ← throw (.unsupportedBody entry.keyword.name (.mismatch entry.keyword.body))
        finish config.output runBlock request entry before fields) =
      bodyFields config.output runBlock request entry >>=
        finish config.output runBlock request entry before := by
    intro before
    unfold bodyFields
    split <;> rfl
  cases entry.onInvoking? with
  | none => exact bind_congr hrest
  | some hook => exact bind_congr hrest

/-- A guard that is released leaves a scope, and complains if it is not its own. -/
theorem run_release (id : Keyword.Id) (r : Registry τ) :
    (ExceptT.mk (Prod.fst <$> Guard.release { keyword := id } false) :
      Action τ Keyword.Id).run r =
      match leaveScope.run r with
      | (.error e, s) => (.error e, s)
      | (.ok left, s) =>
        if left = id then (.ok left, s) else (.error (.invalidState (.outOfOrder id left)), s) := by
  show (((Guard.release { keyword := id } false).run r).1.1,
    ((Guard.release { keyword := id } false).run r).2) = _
  rw [Guard.run_release_free rfl]
  rcases (leaveScope.run r : Except KeywordError Keyword.Id × Registry τ) with ⟨_ | left, s⟩
  · rfl
  · by_cases hl : left = id
    · simp only [hl, Guard.answer, ↓reduceIte]
    · simp only [hl, Guard.answer, ↓reduceIte]

/-- What is known of the parts of a use: outside of the scope of its keyword `outside` holds of the
registry, within it `within`. Moments satisfy `M`, and the keyword that is found satisfies
`found`. -/
structure Parts (runBlock : ScriptBlock → Fields → Run τ ω (List Value)) (M : Moment τ → Prop)
    (outside : Registry τ → Prop) (found : Entry → Prop) (within : Entry → Registry τ → Prop) :
    Prop where
  load : ∀ name, Step.Meets outside (loadVisible name)
    (fun entry r => found entry ∧ outside r) fun _ => outside
  enter : ∀ entry, found entry → entry.isMember = true →
    Step.Meets outside (enterScope entry.id) (fun _ => within entry) fun _ => outside
  /-- The scope that is left is that of the keyword, unless its body left scopes of others. -/
  leave : ∀ entry, found entry → entry.isMember = true →
    Step.Meets (within entry) leaveScope
      (fun id r => (id = entry.id ∨
        M (.released (.error (.invalidState (.outOfOrder entry.id id))))) ∧ outside r)
      fun e r => M (.released (.error e)) ∧ outside r
  block : ∀ block args, Run.Keeps outside (runBlock block args)
  body : ∀ entry, found entry → entry.isMember = true →
    ∀ block, Run.Keeps (within entry) (runBlock block [])
  started_hook : ∀ r, outside r → M (.started .invoking r) ∧ M (.started .invoked r)
  started_body : ∀ entry r, found entry → entry.isMember = false → outside r →
    M (.started (.body entry) r)
  started_within : ∀ entry r, found entry → entry.isMember = true → within entry r →
    M (.started (.body entry) r)
  released : ∀ id, M (.released (.ok id))

namespace Parts

variable {runBlock : ScriptBlock → Fields → Run τ ω (List Value)} {M : Moment τ → Prop}
  {outside : Registry τ → Prop} {found : Entry → Prop} {within : Entry → Registry τ → Prop}
  {entry : Entry}

theorem meets_enter (h : Parts runBlock M outside found within) (hf : found entry)
    (hm : entry.isMember = true) :
    Step.Meets outside (Guard.enter entry.id)
      (fun guard r => guard = { keyword := entry.id } ∧ within entry r) fun _ => outside :=
  (h.enter entry hf hm).bind fun _ => Step.Meets.pure fun _ hr => ⟨rfl, hr⟩

/-- A scope that was entered is left again, in any case. -/
theorem meets_release (h : Parts runBlock M outside found within) (hf : found entry)
    (hm : entry.isMember = true) :
    Step.Meets (within entry)
      (ExceptT.mk (Prod.fst <$> Guard.release { keyword := entry.id } false))
      (fun id r => M (.released (.ok id)) ∧ outside r)
      fun e r => M (.released (.error e)) ∧ outside r := by
  intro r hr
  have hleave := h.leave entry hf hm r hr
  rw [run_release]
  rcases hrun : leaveScope.run r with ⟨e | id, s⟩ <;> rw [hrun] at hleave
  · exact hleave
  · obtain ⟨hleft, hs⟩ := hleave
    by_cases hid : id = entry.id
    · simp only [hid, ↓reduceIte]
      exact ⟨h.released _, hs⟩
    · simp only [hid, ↓reduceIte]
      exact ⟨hleft.resolve_left hid, hs⟩

theorem meets_runStage (h : Parts runBlock M outside found within) {stage : Stage}
    (hstage : ∀ r, outside r → M (.started stage r)) (block : ScriptBlock) (args : Fields) :
    Course.Meets M outside (runStage runBlock stage block args) (fun _ => outside)
      fun _ => outside :=
  (Course.Meets.note hstage).bind fun _ => Course.Meets.ofRun (h.block block args)

theorem meets_runBody (h : Parts runBlock M outside found within) (hf : found entry)
    (block : ScriptBlock) :
    Course.Meets M outside (runBody runBlock entry block) (fun _ => outside)
      fun _ => outside := by
  unfold runBody
  cases hm : entry.isMember with
  | false => exact h.meets_runStage (fun r hr => h.started_body entry r hf hm hr) block []
  | true =>
    refine (Course.Meets.ofRun (Run.Meets.onRegistry (h.meets_enter hf hm))).bind fun guard =>
      Course.Meets.of_imp ?_
    rintro rfl
    refine (Course.Meets.note fun r hr => h.started_within entry r hf hm hr).bind fun _ => ?_
    refine (Course.Meets.ofRun (Run.Meets.attempt (h.body entry hf hm block)
      (R := fun _ => within entry) (fun _ _ hr => hr) fun _ _ hr => hr)).bind fun result => ?_
    refine (Course.Meets.ofRun ((Run.Meets.onRegistry (h.meets_release hf hm)).attempt
      (R := fun answer r => M (.released answer) ∧ outside r) (fun _ _ hr => hr)
      fun _ _ hr => hr)).bind fun answer => Course.Meets.of_imp fun hanswer => ?_
    refine (Course.Meets.note fun _ _ => hanswer).bind fun _ => ?_
    refine (Course.Meets.lift result (fun _ _ _ hr => hr) fun _ _ _ hr => hr).bind fun items => ?_
    refine (Course.Meets.lift answer (fun _ _ _ hr => hr) fun _ _ _ hr => hr).bind fun _ => ?_
    exact Course.Meets.pure fun _ hr => hr

omit [BindingTable τ] in
theorem meets_lift {β : Type} (x : Except KeywordError β) :
    Course.Meets (ω := ω) M outside (liftM x) (fun _ => outside) fun _ => outside :=
  Course.Meets.lift x (fun _ _ _ hr => hr) fun _ _ _ hr => hr

theorem meets_firstHook (h : Parts runBlock M outside found within) (request : Request) :
    Course.Meets M outside (firstHook runBlock request entry) (fun _ => outside)
      fun _ => outside := by
  unfold firstHook
  cases entry.onInvoking? with
  | none => exact Course.Meets.pure fun _ hr => hr
  | some hook => exact h.meets_runStage (fun r hr => (h.started_hook r hr).1) hook _

theorem meets_bodyFields (h : Parts runBlock M outside found within) (hf : found entry)
    (output : OutputConfig) (request : Request) :
    Course.Meets M outside (bodyFields output runBlock request entry) (fun _ => outside)
      fun _ => outside := by
  unfold bodyFields
  split
  · exact (h.meets_runBody hf _).map fun _ _ hr => hr
  · exact Course.Meets.pure fun _ hr => hr
  · exact Course.Meets.throw fun _ hr => hr

theorem meets_finish (h : Parts runBlock M outside found within) (output : OutputConfig)
    (request : Request) (before : List Value) (fields : Fields) :
    Course.Meets M outside (finish output runBlock request entry before fields)
      (fun _ => outside) fun _ => outside := by
  refine (meets_lift _).bind fun record => ?_
  cases entry.onInvoked? with
  | none => exact Course.Meets.pure fun _ hr => hr
  | some hook =>
    exact (h.meets_runStage (fun r hr => (h.started_hook r hr).2) hook _).bind fun _ =>
      Course.Meets.pure fun _ hr => hr

/-- A use keeps what holds outside of the scope of its keyword, and its moments are as they should
be. -/
theorem meets_use (h : Parts runBlock M outside found within) (config : Config)
    (request : Request) :
    Course.Meets M outside (use config runBlock request) (fun _ => outside) fun _ => outside := by
  rw [use_eq]
  refine (Course.Meets.ofRun (Run.Meets.onRegistry (h.load request.keyword))).bind fun entry =>
    Course.Meets.of_imp fun hf => ?_
  refine Course.Meets.get.bind fun _ => (meets_lift _).bind fun _ => ?_
  exact (h.meets_firstHook request).bind fun before =>
    (h.meets_bodyFields hf config.output request).bind fun fields =>
      h.meets_finish config.output request before fields

end Parts

end Invocation

/-! ## Nested uses -/

namespace Session

variable {τ ω ι : Type} [BindingTable τ] (session : Session τ ω) {M : ι → Moment τ → Prop}
  {outside : ι → Registry τ → Prop} {found : ι → Entry → Prop}
  {within : ι → Entry → Registry τ → Prop}
  (hparts : ∀ invoke : Request → Run τ ω (List Value),
    (∀ i request, Run.Keeps (outside i) (invoke request)) →
      ∀ i, Invocation.Parts (session.runBlock invoke) (M i) (outside i) (found i) (within i))

include hparts

/-- Uses keep what their parts keep, given that the uses within their bodies do. The induction is on
the depth to which uses may nest. -/
theorem keeps_invoke_of_parts (depth : Nat) :
    ∀ i request, Run.Keeps (outside i) (session.invoke depth request) := by
  induction depth with
  | zero => exact fun _ _ => Run.Meets.exhausted
  | succ depth ih =>
    exact fun i request => ((hparts _ ih i).meets_use session.config request).toRun

theorem moments_of_parts (depth : Nat) (request : Request) (i : ι) (state : State τ ω)
    (h : outside i state.registry) :
    ∀ moment ∈ session.moments depth request state, M i moment := by
  cases depth with
  | zero => exact fun _ hm => absurd hm List.not_mem_nil
  | succ depth =>
    have hinvoke := session.keeps_invoke_of_parts hparts depth
    exact ((hparts _ hinvoke i).meets_use session.config request).moments state h

end Session
end KeywordScope
