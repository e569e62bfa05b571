import KeywordScope.Binding.Refusing
import KeywordScope.Proofs.Invocation.Nested

/-!
# Errors of nested uses at their root

The error of a keyword that a body used surfaces as it is. So a use fails with a host error that
carries the error of a keyword only if a body, a hook or the table made one on its own.

* `KeywordError.IsOwn`: the error is not such a host error.
* `BindingTable.Plain`: a table that makes no such error.
* `Program.OnlyHandsOn`: a program that makes such errors of those only with which uses failed.
* `Invocation.fails_use`: the errors of a use, from those of its blocks.
* `Session.nested_failure`: how uses fail that nest.
-/

namespace KeywordScope

variable {τ ω α β : Type}

/-! ## Errors that carry no other -/

/-- The error is not one of the host that carries the error of a keyword. -/
def KeywordError.IsOwn (e : KeywordError) : Prop :=
  ∀ inner, e ≠ .host (.keyword inner)

/-- Such an error is its own root. -/
theorem KeywordError.IsOwn.rootCause_eq {e : KeywordError} (h : e.IsOwn) : e.rootCause = e := by
  cases e with
  | host cause =>
    cases cause with
    | keyword inner => exact absurd rfl (h inner)
    | _ => rfl
  | _ => rfl

/-- No change of the table fails with the error of a keyword. -/
class BindingTable.Plain (τ : Type) [BindingTable τ] : Prop where
  bind (table : τ) (name : String) (binding : Binding) (inner : KeywordError) :
    (BindingTable.bind table name binding).1 ≠ .error (.keyword inner)
  publish (table : τ) (module name : String) (inner : KeywordError) :
    (BindingTable.publish table module name).1 ≠ .error (.keyword inner)

instance : BindingTable.Plain LayeredTable where
  bind table name binding inner := by
    show (LayeredTable.bind table name binding).1 ≠ _
    unfold LayeredTable.bind
    split <;> nofun
  publish _ _ _ _ := nofun

instance [BindingTable τ] [BindingTable.Plain τ] : BindingTable.Plain (RefusingTable τ) where
  bind table name binding inner := by
    show (RefusingTable.bind table name binding).1 ≠ _
    unfold RefusingTable.bind
    split
    · nofun
    · exact BindingTable.Plain.bind table.table name binding inner
  publish table module name inner := by
    show (RefusingTable.publish table module name).1 ≠ _
    unfold RefusingTable.publish
    split
    · nofun
    · exact BindingTable.Plain.publish table.table module name inner

theorem KeywordError.usual_isOwn [BindingTable τ] [BindingTable.Plain τ] : Usual τ IsOwn where
  bind table name binding e h inner he := by
    cases he
    exact BindingTable.Plain.bind table name binding inner h
  publish table module name e h inner he := by
    cases he
    exact BindingTable.Plain.publish table module name inner h
  state _ _ := nofun
  operation _ := nofun

/-! ## Runs and courses -/

/-- If the run fails, then with an error that satisfies `F`. -/
def Run.Fails (F : KeywordError → Prop) (run : Run τ ω α) : Prop :=
  Run.Meets (fun _ => True) run (fun _ _ => True) fun e _ => F e

/-- If the course fails, then with an error that satisfies `F`. -/
def Course.Fails (F : KeywordError → Prop) (course : Course τ ω α) : Prop :=
  Course.Meets (fun _ => True) (fun _ => True) course (fun _ _ => True) fun e _ => F e

variable {F : KeywordError → Prop}

theorem Run.Fails.onRegistry {action : Registry.Action τ α} (h : Step.Fails F action) :
    Run.Fails (ω := ω) F (Run.onRegistry action) :=
  Run.Meets.onRegistry h

/-- The outcome of a run is looked at. -/
theorem Run.Fails.meets_attempt {run : Run τ ω α} (h : Run.Fails F run) :
    Run.Meets (fun _ => True) (Run.attempt run) (fun answer _ => ∀ e, answer = .error e → F e)
      fun e _ => F e :=
  Run.Meets.attempt h (fun _ _ _ => nofun) fun e _ he => by rintro _ ⟨⟩; exact he

namespace Course.Fails

theorem pure (a : α) : Course.Fails (τ := τ) (ω := ω) F (Pure.pure a) :=
  Course.Meets.pure fun _ _ => trivial

theorem throw {e : KeywordError} (h : F e) : Course.Fails (τ := τ) (ω := ω) (α := α) F (throw e) :=
  Course.Meets.throw fun _ _ => h

theorem lift {x : Except KeywordError α} (h : ∀ e, x = .error e → F e) :
    Course.Fails (τ := τ) (ω := ω) F (liftM x) :=
  Course.Meets.lift x (fun _ _ _ _ => trivial) fun e he _ _ => h e he

theorem bind {x : Course τ ω β} {f : β → Course τ ω α} (hx : Course.Fails F x)
    (hf : ∀ b, Course.Fails F (f b)) : Course.Fails F (x >>= f) :=
  Course.Meets.bind hx hf

theorem map {f : β → α} {x : Course τ ω β} (hx : Course.Fails F x) : Course.Fails F (f <$> x) :=
  Course.Meets.map hx fun _ _ _ => trivial

theorem note (observe : Registry τ → Moment τ) : Course.Fails (ω := ω) F (Course.note observe) :=
  Course.Meets.note fun _ _ => trivial

theorem get : Course.Fails F (MonadState.get : Course τ ω (State τ ω)) :=
  Course.Meets.get

theorem ofRun {x : Run τ ω α} (hx : Run.Fails F x) : Course.Fails F (Course.ofRun x) :=
  Course.Meets.ofRun hx

/-- What does not depend on the state is known for all of the course. -/
theorem of_imp {p : Prop} {x : Course τ ω α} (h : p → Course.Fails F x) :
    Course.Meets (fun _ => True) (fun _ => p) x (fun _ _ => True) fun e _ => F e :=
  fun state log hp hlog => h hp state log trivial hlog

end Course.Fails

/-! ## Programs -/

/-- The operation is a use of a keyword. -/
def Operation.IsUse : Operation τ ω → Prop
  | .invoke _ => True
  | .whileHeld _ operation => operation.IsUse
  | _ => False

/-- Of the errors of keywords, the program ends with those only that are known, or with which a use
has failed that it asked for. -/
def Program.OnlyHandsOn : Program τ ω → (KeywordError → Prop) → Prop
  | .finish (.ok _), _ => True
  | .finish (.error e), known => ∀ inner, e = .keyword inner → known inner
  | .perform operation next, known =>
    ∀ answer, (next answer).OnlyHandsOn fun e => known e ∨ operation.IsUse ∧ answer = .error e
  | .note _ next, known => next.OnlyHandsOn known

/-- A program fails with errors that carry no other if the uses do for which it asks. -/
theorem Program.fails_run {perform : Operation τ ω → Run τ ω (Reply ω)}
    (hperform : ∀ operation : Operation τ ω, operation.IsUse →
      Run.Fails KeywordError.IsOwn (perform operation))
    (program : Program τ ω) {known : KeywordError → Prop} (hknown : ∀ e, known e → e.IsOwn)
    (h : program.OnlyHandsOn known) : Run.Fails KeywordError.IsOwn (program.run perform) := by
  induction program generalizing known with
  | finish outcome =>
    cases outcome with
    | ok items => exact Run.Meets.pure fun _ _ => trivial
    | error e =>
      refine Run.Meets.throw fun _ _ => ?_
      cases e with
      | keyword inner => exact hknown inner (h inner rfl)
      | _ => nofun
  | perform operation next ih =>
    have hanswer : Run.Meets (fun _ => True) (Run.attempt (perform operation))
        (fun answer _ => operation.IsUse → ∀ e, answer = .error e → e.IsOwn)
        fun e _ => e.IsOwn := by
      by_cases huse : operation.IsUse
      · exact (hperform operation huse).meets_attempt.conseq (fun _ hr => hr)
          (fun _ _ hr _ => hr) fun _ _ hr => hr
      · intro state _
        rw [Run.run_attempt]
        cases (perform operation).run state with
        | none => trivial
        | some p => exact fun h => absurd h huse
    refine Run.Meets.bind hanswer fun answer state hanswer => ?_
    refine ih answer (fun e he => ?_) (h answer) state trivial
    rcases he with he | ⟨huse, rfl⟩
    · exact hknown e he
    · exact hanswer huse e rfl
  | note observe next ih =>
    exact Run.Meets.bind (R := fun _ _ => True) (fun _ _ => trivial) fun _ => ih hknown h

/-! ## Uses -/

namespace Invocation

theorem isOwn_of_checkBody {keyword : Keyword} {body : Value} {e : KeywordError}
    (h : checkBody keyword body = .error e) : e.IsOwn := by
  unfold checkBody at h
  split at h <;> cases h <;> exact nofun

theorem isOwn_of_checkName {keyword : Keyword} {request : Request} {e : KeywordError}
    (h : checkName keyword request = .error e) : e.IsOwn := by
  unfold checkName at h
  split at h <;> cases h <;> exact nofun

theorem isOwn_of_checkProperties {keyword : Keyword} {fields : Fields} {e : KeywordError}
    (h : checkProperties keyword fields = .error e) : e.IsOwn := by
  unfold checkProperties at h
  split at h
  · cases h
    exact nofun
  · split at h <;> cases h
    exact nofun

theorem isOwn_of_checkRequest {dispatcher : DispatcherConfig} {isVisible : Bool}
    {keyword : Keyword} {request : Request} {e : KeywordError}
    (h : checkRequest dispatcher isVisible keyword request = .error e) : e.IsOwn := by
  unfold checkRequest at h
  by_cases hdirect : isDirectCall dispatcher request.invocationName = true
  · rw [if_pos hdirect] at h
    cases h
    exact nofun
  by_cases hinput : request.expectsInput = true
  · rw [if_neg hdirect, if_pos hinput] at h
    cases h
    exact nofun
  rw [if_neg hdirect, if_neg hinput] at h
  cases hbody : checkBody keyword request.body with
  | error e' =>
    rw [hbody] at h
    cases h
    exact isOwn_of_checkBody hbody
  | ok _ =>
    rw [hbody] at h
    cases isVisible with
    | false =>
      cases h
      exact nofun
    | true =>
      cases hname : checkName keyword request with
      | error e' =>
        rw [hname] at h
        cases h
        exact isOwn_of_checkName hname
      | ok _ =>
        rw [hname] at h
        cases hmap : request.body with
        | map fields =>
          rw [hmap] at h
          exact isOwn_of_checkProperties h
        | _ =>
          rw [hmap] at h
          cases h

theorem isOwn_of_assemble {output : OutputConfig} {entry : Entry} {name : String} {fields : Fields}
    {e : KeywordError} (h : assemble output entry name fields = .error e) : e.IsOwn := by
  unfold assemble at h
  split at h
  · cases h
    exact nofun
  · cases h

section Blocks

variable {runBlock : ScriptBlock → Fields → Run τ ω (List Value)}
  (hblock : ∀ block args, Run.Fails KeywordError.IsOwn (runBlock block args))

include hblock in
theorem fails_runStage (stage : Stage) (block : ScriptBlock) (args : Fields) :
    Course.Fails KeywordError.IsOwn (runStage runBlock stage block args) :=
  (Course.Fails.note _).bind fun _ => .ofRun (hblock block args)

include hblock in
theorem fails_firstHook (request : Request) (entry : Entry) :
    Course.Fails KeywordError.IsOwn (firstHook runBlock request entry) := by
  unfold firstHook
  split
  · exact fails_runStage hblock _ _ _
  · exact .pure _

include hblock in
theorem fails_finish (output : OutputConfig) (request : Request) (entry : Entry)
    (before : List Value) (fields : Fields) :
    Course.Fails KeywordError.IsOwn (finish output runBlock request entry before fields) := by
  refine (Course.Fails.lift fun e => isOwn_of_assemble).bind fun record => ?_
  split
  · exact (fails_runStage hblock _ _ _).bind fun _ => .pure _
  · exact .pure _

variable [BindingTable τ] [BindingTable.Plain τ]

theorem fails_release (id : Keyword.Id) :
    Step.Fails KeywordError.IsOwn (ExceptT.mk (Prod.fst <$> Guard.release { keyword := id } false) :
      Registry.Action τ Keyword.Id) := by
  intro r hr
  have hleave := Registry.fails_leaveScope (τ := τ) KeywordError.usual_isOwn r hr
  rw [run_release]
  rcases hrun : Registry.leaveScope.run r with ⟨e | left, s⟩ <;> rw [hrun] at hleave
  · exact hleave
  · by_cases hleft : left = id
    · simp only [hleft, ↓reduceIte]
    · simp only [hleft, ↓reduceIte]
      exact nofun

include hblock

theorem fails_runBody (entry : Entry) (block : ScriptBlock) :
    Course.Fails KeywordError.IsOwn (runBody runBlock entry block) := by
  unfold runBody
  split
  · have henter : Step.Meets (fun _ => True) (Guard.enter (τ := τ) entry.id)
        (fun guard _ => guard = { keyword := entry.id }) fun e _ => e.IsOwn :=
      Step.Meets.bind (Registry.fails_enterScope KeywordError.usual_isOwn entry.id) fun _ =>
        Step.Meets.pure fun _ _ => rfl
    have hrelease := Run.Fails.onRegistry (ω := ω) (fails_release (τ := τ) entry.id)
    refine Course.Meets.bind (.ofRun (.onRegistry henter)) fun guard => Course.Fails.of_imp ?_
    rintro rfl
    refine (Course.Fails.note _).bind fun _ => ?_
    refine Course.Meets.bind (.ofRun (hblock block []).meets_attempt) fun result =>
      Course.Fails.of_imp fun hresult => ?_
    refine Course.Meets.bind (.ofRun hrelease.meets_attempt) fun released =>
      Course.Fails.of_imp fun hreleased => ?_
    exact (Course.Fails.note _).bind fun _ => (Course.Fails.lift hresult).bind fun items =>
      (Course.Fails.lift hreleased).bind fun _ => .pure _
  · exact fails_runStage hblock _ _ _

theorem fails_bodyFields (output : OutputConfig) (request : Request) (entry : Entry) :
    Course.Fails KeywordError.IsOwn (bodyFields output runBlock request entry) := by
  unfold bodyFields
  split
  · exact (fails_runBody hblock entry _).map
  · exact .pure _
  · exact .throw nofun

theorem fails_use (config : Config) (request : Request) :
    Course.Fails KeywordError.IsOwn (use config runBlock request) := by
  rw [use_eq]
  have hload := Registry.fails_loadVisible (τ := τ) KeywordError.usual_isOwn (fun _ => nofun)
    request.keyword
  refine (Course.Fails.ofRun (.onRegistry hload)).bind fun entry => ?_
  refine Course.Fails.get.bind fun s => (Course.Fails.lift fun e => isOwn_of_checkRequest).bind ?_
  intro _
  exact (fails_firstHook hblock request entry).bind fun before =>
    (fails_bodyFields hblock config.output request entry).bind fun fields =>
      fails_finish hblock config.output request entry before fields

end Blocks

end Invocation

namespace Session

variable [BindingTable τ] (session : Session τ ω)

/-- A use fails as `invoke` does, or since the registry is held. -/
theorem fails_performWith {invoke : Request → Run τ ω (List Value)}
    (hinvoke : ∀ request, Run.Fails KeywordError.IsOwn (invoke request))
    (operation : Operation τ ω) (h : operation.IsUse) (held : Hold) :
    Run.Fails KeywordError.IsOwn (session.performWith invoke held operation) := by
  induction operation generalizing held with
  | invoke request =>
    unfold performWith
    split
    · exact (hinvoke request).map fun _ _ _ => trivial
    · exact Run.Meets.throw fun _ _ _ h => by cases h
  | whileHeld hold operation ih =>
    unfold performWith
    split
    · exact ih h _
    · exact Run.Meets.throw fun _ _ _ h => by cases h
    · exact ih h _
    · exact ih h _
    · exact Run.Meets.throw fun _ _ _ h => by cases h
  | _ => exact h.elim

/-- The induction is on the depth to which uses may nest. -/
theorem fails_invoke [BindingTable.Plain τ]
    (hhost : ∀ block args, (session.host.execute block args).OnlyHandsOn fun _ => False)
    (depth : Nat) (request : Request) :
    Run.Fails KeywordError.IsOwn (session.invoke depth request) := by
  induction depth generalizing request with
  | zero => exact Run.Meets.exhausted
  | succ depth ih =>
    have hblock : ∀ block args,
        Run.Fails KeywordError.IsOwn (session.runBlock (session.invoke depth) block args) :=
      fun block args => Program.fails_run
        (fun operation huse => session.fails_performWith ih operation huse .free)
        (session.host.execute block args) (fun _ h => h.elim) (hhost block args)
    exact (Invocation.fails_use hblock session.config request).toRun

/-- Along a chain of uses, in each of which the body or a hook of the keyword hands on the error of
the next use, the outermost one fails with the error of the innermost one. If bodies and hooks make
host errors of those errors of keywords only with which their uses failed, then no use fails with
such a host error, and each error is its own root. -/
theorem nested_failure :
    (∀ outer inner e t, Relation.ReflTransGen session.HandsOn outer inner →
      session.outcome inner = some (.error e, t) →
        ∃ t', session.outcome outer = some (.error e, t')) ∧
    (BindingTable.Plain τ →
      (∀ block args, (session.host.execute block args).OnlyHandsOn fun _ => False) →
        ∀ use e t, session.outcome use = some (.error e, t) →
          (∀ inner, e ≠ .host (.keyword inner)) ∧ e.rootCause = e) := by
  refine ⟨fun outer inner e t chain he => outcome_of_chain chain he, ?_⟩
  intro hplain hhost use e t he
  have hown := session.fails_invoke hhost use.depth use.request use.state trivial
  unfold outcome at he
  rw [he] at hown
  exact ⟨hown, KeywordError.IsOwn.rootCause_eq hown⟩

/-- How a body ends that has used a keyword and hands its error on. -/
def handOn : Except KeywordError (List Value) → Program LayeredTable Unit
  | .ok items => .finish (.ok items)
  | .error e => .finish (.error (.keyword e))

/-- A session whose bodies use a keyword that does not exist. -/
def handingSession : Session LayeredTable Unit where
  host.resolveType token := .ok ⟨token⟩
  host.execute _ _ := .invoke (.ofKeyword "Page" (.script ⟨""⟩)) handOn

/-- The use of a root, and the use in its body. -/
def outerUse : Use LayeredTable Unit := ⟨2, Invocation.sampleRequest, ⟨Invocation.sampleRooted, []⟩⟩

def innerUse : Use LayeredTable Unit :=
  ⟨1, .ofKeyword "Page" (.script ⟨""⟩), ⟨Invocation.sampleStarted, []⟩⟩

theorem outcome_innerUse :
    ∃ t, handingSession.outcome innerUse = some (.error (.notFound "Page"), t) := by
  have hload : (Registry.loadVisible "Page").run Invocation.sampleStarted =
      (.error (.notFound "Page"), Invocation.sampleStarted) := by
    have hnone : Invocation.sampleStarted.visibleNamed "Page" = [] := by decide +kernel
    rw [Registry.loadVisible, Step.run_bind_ok (Step.run_get _), hnone]
    rfl
  have hends : (Invocation.use handingSession.config
      (handingSession.runBlock (handingSession.invoke 0)) innerUse.request).EndsIn innerUse.state
        (.error (.notFound "Page")) innerUse.state :=
    (Course.EndsIn.onRegistry hload).bind_error
  exact ⟨_, hends.toRun⟩

theorem nested_failure_sample :
    Relation.ReflTransGen handingSession.HandsOn outerUse innerUse ∧
      (∀ block args, (handingSession.host.execute block args).OnlyHandsOn fun _ => False) ∧
      ∃ t, handingSession.outcome outerUse = some (.error (.notFound "Page"), t) ∧
        (KeywordError.notFound "Page").rootCause = .notFound "Page" := by
  have hchain : handingSession.HandsOn outerUse innerUse := by
    have hhook : Invocation.HookYields (handingSession.runBlock (handingSession.invoke 1))
        Invocation.sampleRequest Invocation.sampleRoot.onInvoking? ⟨Invocation.sampleFound, []⟩ []
          ⟨Invocation.sampleFound, []⟩ :=
      ⟨rfl, rfl⟩
    have hstarts : Invocation.StartsOf {} _ Invocation.sampleRequest Invocation.sampleRoot _ ⟨""⟩ []
        ⟨Invocation.sampleStarted, []⟩ :=
      .member hhook rfl rfl rfl Invocation.sampleStarted_eq
    refine ⟨rfl, ⟨""⟩, [], innerUse.state, handOn, ?_, .refl _ _, fun e t _ => ⟨t, .refl _ _⟩⟩
    exact ⟨Invocation.sampleRoot, Invocation.sampleFound, Invocation.sampleFound_eq,
      Invocation.sampleRequest_accepted, hstarts⟩
  have hhost : ∀ block args,
      (handingSession.host.execute block args).OnlyHandsOn fun _ => False := by
    rintro block args (e | answer)
    · rintro inner ⟨⟩
      exact .inr ⟨trivial, rfl⟩
    · cases answer <;> trivial
  obtain ⟨t, hinner⟩ := outcome_innerUse
  obtain ⟨t', houter⟩ := (nested_failure handingSession).1 _ _ _ _ (.single hchain) hinner
  have hroot := (nested_failure handingSession).2 inferInstance hhost _ _ _ houter
  exact ⟨.single hchain, hhost, t', houter, hroot.2⟩

end Session
end KeywordScope
