import KeywordScope.Proofs.Step
import KeywordScope.Session

/-!
# Conditions on runs and courses

What holds of the registry after a run, if it comes to an end, and what holds of the moments of a
course, also if it does not.

* `Run.Meets P run Q E`: from a registry that satisfies `P` the run ends as `Q` says, or fails as
  `E` says.
* `Course.Meets M P course Q E`: the same for a course; `M` holds of its moments.
* `Run.Keeps I run`: the run keeps the invariant `I` of the registry, whether it fails or not.
* `Program.Asks P program`: `P` holds of all operations for which the program may ask.
* `Program.keeps_run`: the run of a program keeps what the operations keep for which it asks.
-/

namespace KeywordScope

variable {τ ω α β : Type}

namespace Run

/-- The outcome of a run satisfies `Q`, or `E` if the run failed. -/
def Ends (Q : α → Registry τ → Prop) (E : KeywordError → Registry τ → Prop) :
    Option (Except KeywordError α × State τ ω) → Prop
  | none => True
  | some (.ok a, state) => Q a state.registry
  | some (.error e, state) => E e state.registry

/-- From a registry that satisfies `P` the run ends as `Q` says, or fails as `E` says. -/
def Meets (P : Registry τ → Prop) (run : Run τ ω α) (Q : α → Registry τ → Prop)
    (E : KeywordError → Registry τ → Prop) : Prop :=
  ∀ state, P state.registry → Ends Q E (run.run state)

theorem run_bind (x : Run τ ω α) (f : α → Run τ ω β) (state : State τ ω) :
    (x >>= f).run state =
      match x.run state with
      | none => none
      | some (.ok a, state') => (f a).run state'
      | some (.error e, state') => some (.error e, state') := by
  show (x.run state).bind (fun p => (ExceptT.bindCont f p.1).run p.2) = _
  rcases x.run state with _ | ⟨_ | _, _⟩ <;> rfl

theorem run_onRegistry (action : Registry.Action τ α) (state : State τ ω) :
    (onRegistry action).run state =
      some ((action.run state.registry).1,
        { state with registry := (action.run state.registry).2 }) := by
  unfold onRegistry
  rw [run_bind]
  show (do
    set { state with registry := (action.run state.registry).2 }
    liftM (action.run state.registry).1 : Run τ ω α).run state = _
  rcases action.run state.registry with ⟨_ | _, _⟩ <;> rfl

theorem run_attempt (run : Run τ ω α) (state : State τ ω) :
    (attempt run).run state = (run.run state).map fun p => (.ok p.1, p.2) := by
  have e : (attempt run).run state =
      (run.run state).bind fun p => some (Except.ok p.1, p.2) := rfl
  rw [e]
  cases run.run state <;> rfl

namespace Meets

variable {P : Registry τ → Prop} {Q : α → Registry τ → Prop} {E : KeywordError → Registry τ → Prop}

theorem pure {a : α} (h : ∀ r, P r → Q a r) : Meets (ω := ω) P (pure a) Q E :=
  fun state hs => h state.registry hs

theorem throw {e : KeywordError} (h : ∀ r, P r → E e r) :
    Meets (ω := ω) P (throw e) Q E :=
  fun state hs => h state.registry hs

theorem exhausted : Meets (ω := ω) P exhausted Q E := fun _ _ => trivial

theorem bind {R : β → Registry τ → Prop} {x : Run τ ω β} {f : β → Run τ ω α}
    (hx : Meets P x R E) (hf : ∀ b, Meets (R b) (f b) Q E) : Meets P (x >>= f) Q E := by
  intro state hs
  have h := hx state hs
  rw [run_bind]
  rcases hr : x.run state with _ | ⟨_ | b, state'⟩ <;> rw [hr] at h
  · trivial
  · exact h
  · exact hf b state' h

theorem conseq {P' : Registry τ → Prop} {Q' : α → Registry τ → Prop}
    {E' : KeywordError → Registry τ → Prop} {x : Run τ ω α} (hx : Meets P x Q E)
    (hP : ∀ r, P' r → P r) (hQ : ∀ a r, Q a r → Q' a r) (hE : ∀ e r, E e r → E' e r) :
    Meets P' x Q' E' := by
  intro state hs
  have h := hx state (hP _ hs)
  rcases hr : x.run state with _ | ⟨_ | a, state'⟩ <;> rw [hr] at h
  · trivial
  · exact hE _ _ h
  · exact hQ _ _ h

/-- A step on the registry alone. -/
theorem onRegistry {action : Registry.Action τ α} (h : Step.Meets P action Q E) :
    Meets (ω := ω) P (onRegistry action) Q E := by
  intro state hs
  have h := h state.registry hs
  rw [run_onRegistry]
  rcases hr : action.run state.registry with ⟨_ | _, _⟩ <;> rw [hr] at h <;> exact h

/-- The outcome is looked at instead. -/
theorem attempt {x : Run τ ω α} (hx : Meets P x Q E)
    {R : Except KeywordError α → Registry τ → Prop} (hok : ∀ a r, Q a r → R (.ok a) r)
    (herror : ∀ e r, E e r → R (.error e) r) {E' : KeywordError → Registry τ → Prop} :
    Meets P (attempt x) R E' := by
  intro state hs
  have h := hx state hs
  rw [run_attempt]
  rcases hr : x.run state with _ | ⟨_ | _, _⟩ <;> rw [hr] at h
  · trivial
  · exact herror _ _ h
  · exact hok _ _ h

theorem map {R : β → Registry τ → Prop} {f : β → α} {x : Run τ ω β} (hx : Meets P x R E)
    (h : ∀ b r, R b r → Q (f b) r) : Meets P (f <$> x) Q E := by
  rw [map_eq_pure_bind]
  exact hx.bind fun b => Meets.pure (h b)

end Meets

/-- The run keeps the invariant of the registry, whether it fails or not. -/
def Keeps (I : Registry τ → Prop) (run : Run τ ω α) : Prop :=
  Meets I run (fun _ => I) fun _ => I

namespace Keeps

variable {I : Registry τ → Prop}

theorem pure (a : α) : Keeps (ω := ω) I (pure a) := Meets.pure fun _ h => h

theorem throw (e : KeywordError) : Keeps (α := α) (ω := ω) I (throw e) := Meets.throw fun _ h => h

theorem bind {x : Run τ ω β} {f : β → Run τ ω α} (hx : Keeps I x) (hf : ∀ b, Keeps I (f b)) :
    Keeps I (x >>= f) :=
  Meets.bind hx hf

theorem map {f : β → α} {x : Run τ ω β} (hx : Keeps I x) : Keeps I (f <$> x) :=
  Meets.map hx fun _ _ h => h

theorem attempt {x : Run τ ω α} (hx : Keeps I x) : Keeps I (attempt x) :=
  Meets.attempt hx (fun _ _ h => h) fun _ _ h => h

theorem onRegistry {action : Registry.Action τ α} (h : Step.Keeps I action) :
    Keeps (ω := ω) I (onRegistry action) :=
  Meets.onRegistry h

/-- A run keeps one of several invariants if it keeps each of them. -/
theorem of_forall {ι : Type} {I : ι → Registry τ → Prop} {x : Run τ ω α} (h : ∀ i, Keeps (I i) x) :
    Keeps (fun r => ∃ i, I i r) x := by
  rintro state ⟨i, hs⟩
  exact (h i).conseq (fun _ h => h) (fun _ _ h => ⟨i, h⟩) (fun _ _ h => ⟨i, h⟩) state hs

end Keeps

end Run

/-! ## Programs -/

namespace Program

/-- All operations for which the program may ask satisfy `P`. -/
def Asks (P : Operation τ ω → Prop) : Program τ ω → Prop
  | finish _ => True
  | perform operation next => P operation ∧ ∀ answer, (next answer).Asks P
  | note _ next => next.Asks P

/-- A program keeps what the operations keep for which it asks. -/
theorem keeps_run {P : Operation τ ω → Prop} {I : Registry τ → Prop}
    {perform : Operation τ ω → Run τ ω (Reply ω)}
    (hI : ∀ operation, P operation → Run.Keeps I (perform operation)) (program : Program τ ω)
    (h : program.Asks P) : Run.Keeps I (program.run perform) := by
  induction program with
  | finish outcome =>
    cases outcome with
    | ok items => exact Run.Keeps.pure _
    | error e => exact Run.Keeps.throw _
  | perform operation next ih =>
    exact (hI operation h.1).attempt.bind fun answer => ih answer (h.2 answer)
  | note observe next ih =>
    refine Run.Keeps.bind ?_ fun _ => ih h
    intro state hs
    exact hs

end Program

/-- All operations satisfy `P` for which the bodies and hooks of a host may ask. -/
def Host.Asks (host : Host τ ω) (P : Operation τ ω → Prop) : Prop :=
  ∀ block args, (host.execute block args).Asks P

/-! ## Courses -/

namespace Course

/-- How a course ends that goes on from a state and from earlier moments, and all moments. -/
def runFrom (course : Course τ ω α) (state : State τ ω) (log : List (Moment τ)) :
    Option (Except KeywordError α × State τ ω) × List (Moment τ) :=
  (course.run.run state).run.run log

/-- From a registry that satisfies `P` the course ends as `Q` says, or fails as `E` says. In either
case, and also if it does not come to an end, its moments satisfy `M`. -/
def Meets (M : Moment τ → Prop) (P : Registry τ → Prop) (course : Course τ ω α)
    (Q : α → Registry τ → Prop) (E : KeywordError → Registry τ → Prop) : Prop :=
  ∀ state log, P state.registry → (∀ moment ∈ log, M moment) →
    Run.Ends Q E (course.runFrom state log).1 ∧ ∀ moment ∈ (course.runFrom state log).2, M moment

theorem runFrom_bind (x : Course τ ω α) (f : α → Course τ ω β) (state : State τ ω)
    (log : List (Moment τ)) :
    (x >>= f).runFrom state log =
      match x.runFrom state log with
      | (none, log') => (none, log')
      | (some (.ok a, state'), log') => (f a).runFrom state' log'
      | (some (.error e, state'), log') => (some (.error e, state'), log') := by
  unfold runFrom
  rw [ExceptT.run_bind, StateT.run_bind, OptionT.run_bind, Option.elimM, StateT.run_bind]
  rcases h : (x.run.run state).run.run log with ⟨_ | ⟨_ | a, s⟩, log'⟩ <;> rfl

namespace Meets

variable {M : Moment τ → Prop} {P : Registry τ → Prop} {Q : α → Registry τ → Prop}
  {E : KeywordError → Registry τ → Prop}

theorem pure {a : α} (h : ∀ r, P r → Q a r) : Meets (ω := ω) M P (pure a) Q E :=
  fun state _ hs hlog => ⟨h state.registry hs, hlog⟩

theorem throw {e : KeywordError} (h : ∀ r, P r → E e r) : Meets (ω := ω) M P (throw e) Q E :=
  fun state _ hs hlog => ⟨h state.registry hs, hlog⟩

/-- A computation that does not touch the state. -/
theorem lift (x : Except KeywordError α) (hok : ∀ a, x = .ok a → ∀ r, P r → Q a r)
    (herror : ∀ e, x = .error e → ∀ r, P r → E e r) :
    Meets (ω := ω) M P (liftM x) Q E := by
  cases x with
  | ok a => exact fun state _ hs hlog => ⟨hok a rfl state.registry hs, hlog⟩
  | error e => exact fun state _ hs hlog => ⟨herror e rfl state.registry hs, hlog⟩

theorem bind {R : β → Registry τ → Prop} {x : Course τ ω β} {f : β → Course τ ω α}
    (hx : Meets M P x R E) (hf : ∀ b, Meets M (R b) (f b) Q E) : Meets M P (x >>= f) Q E := by
  intro state log hs hlog
  obtain ⟨hend, hlog'⟩ := hx state log hs hlog
  rw [runFrom_bind]
  rcases hr : x.runFrom state log with ⟨_ | ⟨_ | b, state'⟩, log'⟩ <;> rw [hr] at hend hlog'
  · exact ⟨trivial, hlog'⟩
  · exact ⟨hend, hlog'⟩
  · exact hf b state' log' hend hlog'

theorem map {R : β → Registry τ → Prop} {f : β → α} {x : Course τ ω β} (hx : Meets M P x R E)
    (h : ∀ b r, R b r → Q (f b) r) : Meets M P (f <$> x) Q E := by
  rw [map_eq_pure_bind]
  exact hx.bind fun b => Meets.pure (h b)

/-- What does not depend on the state is known for all of the course. -/
theorem of_imp {p : Prop} {x : Course τ ω α} (h : p → Meets M P x Q E) :
    Meets M (fun r => p ∧ P r) x Q E :=
  fun state log hs hlog => h hs.1 state log hs.2 hlog

/-- The state may be looked at. -/
theorem get {E : KeywordError → Registry τ → Prop} :
    Meets (ω := ω) M P get (fun _ => P) E :=
  fun _ _ hs hlog => ⟨hs, hlog⟩

theorem note {observe : Registry τ → Moment τ} {E : KeywordError → Registry τ → Prop}
    (h : ∀ r, P r → M (observe r)) : Meets (ω := ω) M P (note observe) (fun _ => P) E := by
  intro state log hs hlog
  refine ⟨hs, fun moment hm => ?_⟩
  have hm : moment ∈ log ++ [observe state.registry] := hm
  rcases List.mem_append.1 hm with hm | hm
  · exact hlog moment hm
  · rw [List.mem_singleton.1 hm]
    exact h state.registry hs

/-- A run without moments of its own. -/
theorem ofRun {x : Run τ ω α} (hx : Run.Meets P x Q E) : Meets M P (ofRun x) Q E :=
  fun state _ hs hlog => ⟨hx state hs, hlog⟩

/-- The run of a course. -/
theorem toRun {x : Course τ ω α} (hx : Meets M P x Q E) : Run.Meets P x.toRun Q E :=
  fun state hs => (hx state [] hs fun _ h => absurd h List.not_mem_nil).1

/-- The moments of a course. -/
theorem moments {x : Course τ ω α} (hx : Meets M P x Q E) (state : State τ ω)
    (hs : P state.registry) : ∀ moment ∈ x.moments state, M moment :=
  (hx state [] hs fun _ h => absurd h List.not_mem_nil).2

end Meets

end Course

end KeywordScope
