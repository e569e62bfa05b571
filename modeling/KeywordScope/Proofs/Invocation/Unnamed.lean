import KeywordScope.Proofs.Invocation.Record
import Mathlib.Data.List.ModifyLast

/-!
# Uses with an empty name

A request whose name is empty is accepted just where one without a name is. But the name goes on as
it is: the hook before the body is handed the empty name, where it would be handed null, and the
record has the empty name, where it would have that of the keyword.

* `OutputConfig.emptyNamed`: a value with the empty name in place of none.
* `Invocation.dispatch_empty_name`: an empty name makes no other difference than these.
* `Invocation.dispatch_empty_name_eq_iff`: without hooks the two uses are the same exactly if they
  fail or do not come to an end.
-/

namespace KeywordScope

variable {τ ω α β : Type}

/-- A value with the empty name in place of none. The record of a use at a path has its name field
set, and that of its path, which might be the same. -/
def OutputConfig.emptyNamed (output : OutputConfig) (path : String) : Value → Value
  | .null => .string ""
  | .record typeNames fields =>
    (({ typeNames, fields : Record }.insert output.nameField (.string "")).insert
      output.producedByField (.string path)).toValue
  | value => value

/-! ## Courses -/

namespace Course

theorem toRun_run (x : Course τ ω α) (s : State τ ω) : x.toRun.run s = (x.runFrom s []).1 := rfl

/-- A step on the registry that comes first. -/
theorem toRun_onRegistry_bind (action : Registry.Action τ α) (f : α → Course τ ω β)
    (s : State τ ω) :
    (Course.ofRun (Run.onRegistry action) >>= f).toRun.run s =
      match action.run s.registry with
      | (.ok a, r) => (f a).toRun.run { s with registry := r }
      | (.error e, r) => some (.error e, { s with registry := r }) := by
  rw [toRun_run, runFrom_bind]
  have hstep : (Course.ofRun (Run.onRegistry action)).runFrom s [] =
      (some ((action.run s.registry).1, { s with registry := (action.run s.registry).2 }), []) :=
    congrArg (·, []) (Run.run_onRegistry action s)
  rw [hstep]
  rcases action.run s.registry with ⟨_ | a, r⟩ <;> rfl

/-- The items of a course are changed at its end. -/
theorem toRun_map (f : α → β) (x : Course τ ω α) (s : State τ ω) :
    (f <$> x).toRun.run s = (x.toRun.run s).map (Prod.map (Except.map f) id) := by
  rw [map_eq_pure_bind, toRun_run, runFrom_bind, toRun_run]
  rcases x.runFrom s [] with ⟨_ | ⟨_ | a, s'⟩, log⟩ <;> rfl

theorem meets_true (x : Course τ ω α) :
    Meets (fun _ => True) (fun _ => True) x (fun _ _ => True) fun _ _ => True := by
  intro s log _ _
  refine ⟨?_, fun _ _ => trivial⟩
  rcases (x.runFrom s log).1 with _ | ⟨_ | _, _⟩ <;> exact trivial

end Course

namespace Invocation

variable {output : OutputConfig} {entry : Entry}

/-! ## The record -/

/-- The record for the empty name is that for any other name, with the empty one in its place. -/
theorem assemble_empty (output : OutputConfig) (entry : Entry) (name : String) (fields : Fields) :
    (assemble output entry "" fields).map Record.toValue =
      (assemble output entry name fields).map fun record =>
        output.emptyNamed entry.path record.toValue := by
  rw [assemble_eq_set, assemble_eq_set]
  cases fields.names.find? (hasName output.reserved) with
  | some field => rfl
  | none =>
    simp only [Except.map, Record.toValue, OutputConfig.emptyNamed, Record.insert]
    congr 2
    by_cases hsame : sameName output.nameField output.producedByField = true
    · simp only [Fields.set, hsame, sameName_refl, ↓reduceIte]
    · simp only [Fields.set, hsame, sameName_refl, ↓reduceIte, Bool.false_eq_true, Fields.set_set]

/-! ## The parts of a use -/

/-- Blocks that are handed the empty name in place of none. -/
def handEmpty (output : OutputConfig) (path : String)
    (runBlock : ScriptBlock → Fields → Run τ ω (List Value)) :
    ScriptBlock → Fields → Run τ ω (List Value) :=
  fun block args => runBlock block (args.map fun arg => (arg.1, output.emptyNamed path arg.2))

/-- The output with the empty name in its record, which comes last. If there is a hook after the
body, the output has no record of its own. -/
def outputEmpty (output : OutputConfig) (entry : Entry) (items : List Value) : List Value :=
  match entry.onInvoked? with
  | some _ => items
  | none => items.modifyLast (output.emptyNamed entry.path)

/-- The check of a request takes an empty name for none. -/
theorem checkRequest_empty (dispatcher : DispatcherConfig) (isVisible : Bool) (keyword : Keyword)
    (request : Request) :
    checkRequest dispatcher isVisible keyword { request with name? := some "" } =
      checkRequest dispatcher isVisible keyword { request with name? := none } := rfl

variable [BindingTable τ] (runBlock : ScriptBlock → Fields → Run τ ω (List Value))
  (request : Request)

omit [BindingTable τ] in
theorem firstHook_empty (output : OutputConfig) :
    firstHook runBlock { request with name? := some "" } entry =
      firstHook (handEmpty output entry.path runBlock) { request with name? := none } entry := by
  unfold firstHook
  cases entry.onInvoking? <;> rfl

/-- A body is handed no name. -/
theorem bodyFields_empty :
    bodyFields output runBlock { request with name? := some "" } entry =
      bodyFields output (handEmpty output entry.path runBlock) { request with name? := none }
        entry := rfl

omit [BindingTable τ] in
theorem finish_empty (before : List Value) (fields : Fields) :
    finish output runBlock { request with name? := some "" } entry before fields =
      outputEmpty output entry <$> finish output (handEmpty output entry.path runBlock)
        { request with name? := none } entry before fields := by
  have hrecord := assemble_empty output entry entry.keyword.name fields
  unfold finish outputEmpty
  rw [Option.getD_some, Option.getD_none, map_bind]
  rcases hempty : assemble output entry "" fields with e | record <;>
    rcases hown : assemble output entry entry.keyword.name fields with e' | record' <;>
    rw [hempty, hown] at hrecord
  · cases hrecord
    rfl
  · cases hrecord
  · cases hrecord
  · have hvalue : record.toValue = output.emptyNamed entry.path record'.toValue := by
      injection hrecord
    cases entry.onInvoked? with
    | none =>
      show (pure (before ++ [record.toValue]) : Course τ ω (List Value)) =
        pure ((before ++ [record'.toValue]).modifyLast (output.emptyNamed entry.path))
      rw [List.modifyLast_concat, hvalue]
    | some hook =>
      show (do return before ++ (← runStage runBlock .invoked hook
        [("InputObject", record.toValue)]) : Course τ ω (List Value)) = _
      rw [hvalue]
      simp only [id_map']
      rfl

/-! ## The use -/

/-- What a use does once its keyword is found. -/
def useFound (config : Config) (entry : Entry) : Course τ ω (List Value) := do
  let state ← get
  checkRequest config.dispatcher (state.registry.isVisible entry.keyword.id) entry.keyword request
  let before ← firstHook runBlock request entry
  let fields ← bodyFields config.output runBlock request entry
  finish config.output runBlock request entry before fields

theorem dispatch_run (config : Config) (s : State τ ω) :
    (dispatch config runBlock request).run s =
      match (Registry.loadVisible request.keyword).run s.registry with
      | (.ok entry, r) =>
        (useFound runBlock request config entry).toRun.run { s with registry := r }
      | (.error e, r) => some (.error e, { s with registry := r }) := by
  rw [dispatch, use_eq]
  show (Course.ofRun _ >>= useFound runBlock request config).toRun.run s = _
  rw [Course.toRun_onRegistry_bind]
  rcases (Registry.loadVisible request.keyword).run s.registry with ⟨_ | _, _⟩ <;> rfl

theorem useFound_empty (config : Config) :
    useFound runBlock { request with name? := some "" } config entry =
      outputEmpty config.output entry <$> useFound (handEmpty config.output entry.path runBlock)
        { request with name? := none } config entry := by
  unfold useFound
  simp only [map_bind, checkRequest_empty, firstHook_empty runBlock request config.output,
    bodyFields_empty, ← finish_empty]

/-- A request with an empty name has the outcome and the final state that one without a name has
from the same state, if the hooks are handed the empty name in place of none and the record has it,
in the output or as it is handed to the hook after the body. -/
theorem dispatch_empty_name (config : Config) (s : State τ ω) :
    let dispatched := fun runBlock name? =>
      (dispatch config runBlock { request with name? }).run s
    match ((Registry.loadVisible request.keyword).run s.registry).1 with
    | .error _ => dispatched runBlock (some "") = dispatched runBlock none
    | .ok entry =>
      dispatched runBlock (some "") =
        (dispatched (handEmpty config.output entry.path runBlock) none).map
          (Prod.map (Except.map (outputEmpty config.output entry)) id) := by
  dsimp only
  rw [dispatch_run, dispatch_run]
  rcases hload : (Registry.loadVisible request.keyword).run s.registry with ⟨e | entry, r⟩
  · rfl
  · dsimp only
    rw [dispatch_run, hload, useFound_empty, Course.toRun_map]

/-! ## Keywords without hooks -/

/-- What a use without a hook after the body yields ends with the record. -/
theorem meets_useFound (config : Config) (hinvoked : entry.onInvoked? = none) :
    Course.Meets (fun _ => True) (fun _ => True) (useFound runBlock request config entry)
      (fun items _ => ∃ before fields record, assemble config.output entry
        (request.name?.getD entry.keyword.name) fields = .ok record ∧
          items = before ++ [record.toValue])
      fun _ _ => True := by
  unfold useFound
  refine (Course.meets_true _).bind fun _ => (Course.meets_true _).bind fun _ =>
    (Course.meets_true _).bind fun before => (Course.meets_true _).bind fun fields => ?_
  unfold finish
  rw [hinvoked]
  refine (Course.Meets.lift (Q := fun record _ => assemble config.output entry
    (request.name?.getD entry.keyword.name) fields = .ok record) _
    (fun _ h _ _ => h) fun _ _ _ _ => trivial).bind fun record => ?_
  exact Course.Meets.pure fun _ h => ⟨before, fields, record, h, rfl⟩

omit [BindingTable τ] in
/-- The name of a record can be told from the empty one. -/
theorem emptyNamed_ne {name : String} {fields : Fields} {record : Record} (hname : name ≠ "")
    (hdiffer : sameName output.nameField output.producedByField = false)
    (h : assemble output entry name fields = .ok record) :
    output.emptyNamed entry.path record.toValue ≠ record.toValue := by
  have hrecord := assemble_empty output entry name fields
  rw [h, assemble_eq hdiffer] at hrecord
  rw [assemble_eq hdiffer] at h
  cases hfind : fields.names.find? (hasName output.reserved) with
  | some field =>
    rw [hfind] at h
    cases h
  | none =>
    rw [hfind] at h hrecord
    cases h
    have hvalue : (Record.ofUse output entry.path "" fields).toValue =
        output.emptyNamed entry.path (Record.ofUse output entry.path name fields).toValue := by
      injection hrecord
    rw [← hvalue]
    intro hsame
    simp only [Record.toValue, Record.ofUse, List.cons_append, Value.record.injEq,
      List.cons.injEq, Prod.mk.injEq, Value.string.injEq] at hsame
    exact hname hsame.2.1.2.symm

/-- A keyword without hooks tells an empty name from none whenever its use succeeds. -/
theorem dispatch_empty_name_eq_iff {config : Config} {s : State τ ω} {r : Registry τ}
    (hdiffer : sameName config.output.nameField config.output.producedByField = false)
    (hload : (Registry.loadVisible request.keyword).run s.registry = (.ok entry, r))
    (hinvoking : entry.onInvoking? = none) (hinvoked : entry.onInvoked? = none)
    (hname : entry.keyword.name ≠ "") :
    let dispatched := fun name? => (dispatch config runBlock { request with name? }).run s
    dispatched (some "") = dispatched none ↔
      ∀ items s', dispatched none ≠ some (.ok items, s') := by
  have hblind : useFound (handEmpty config.output entry.path runBlock)
      { request with name? := none } config entry =
        useFound runBlock { request with name? := none } config entry := by
    unfold useFound firstHook finish
    rw [hinvoking, hinvoked]
    rfl
  have hempty : ∀ name?, (dispatch config runBlock { request with name? }).run s =
      (useFound runBlock { request with name? } config entry).toRun.run
        { s with registry := r } := by
    intro name?
    rw [dispatch_run, hload]
  dsimp only
  rw [hempty, hempty, useFound_empty, hblind, Course.toRun_map]
  have hmeets := (meets_useFound runBlock { request with name? := none } config hinvoked).toRun
    { s with registry := r } trivial
  rcases hrun : (useFound runBlock { request with name? := none } config entry).toRun.run
    { s with registry := r } with _ | ⟨e | items, s'⟩
  · exact iff_of_true rfl nofun
  · exact iff_of_true rfl nofun
  · rw [hrun] at hmeets
    obtain ⟨before, fields, record, hrecord, rfl⟩ := hmeets
    refine iff_of_false (fun hsame => ?_) fun h => h _ _ rfl
    have hitems : (before ++ [record.toValue]).modifyLast (config.output.emptyNamed entry.path) =
        before ++ [record.toValue] := by
      simpa [Except.map, outputEmpty, hinvoked] using hsame
    rw [List.modifyLast_concat] at hitems
    exact emptyNamed_ne hname hdiffer hrecord (by simpa using hitems)

/-- The root `Site` takes no name, and its body yields nothing. Its record has the empty name if the
request has it, and else its own. -/
theorem dispatch_tells_empty_name :
    let runBlock : ScriptBlock → Fields → Run LayeredTable Unit (List Value) := fun _ _ => pure []
    let dispatched := fun name? =>
      (dispatch {} runBlock { sampleRequest with name? }).run { registry := sampleRooted }
    dispatched (some "") ≠ dispatched none := by
  intro runBlock dispatched hsame
  have hreleased : (ExceptT.mk (Prod.fst <$> Guard.release { keyword := sampleRoot.id } false) :
      Registry.Action LayeredTable Keyword.Id).run sampleStarted = (.ok ⟨1⟩, sampleLeft) := by
    rw [run_release, sampleLeft_eq]
    rfl
  have hreturns : Returns runBlock sampleRoot ⟨""⟩ { registry := sampleFound } [] (.ok ())
      { registry := sampleLeft } :=
    @Returns.member _ _ _ runBlock sampleRoot ⟨""⟩ { registry := sampleFound } [] sampleStarted
      sampleLeft { registry := sampleStarted } (.ok ⟨1⟩) rfl sampleStarted_eq rfl hreleased
  have hhook : HookYields runBlock sampleRequest sampleRoot.onInvoking? { registry := sampleFound }
      [] { registry := sampleFound } :=
    ⟨rfl, rfl⟩
  have hends := @endsIn_use _ _ _ runBlock sampleRoot { registry := sampleRooted } [] _ {}
    sampleRequest sampleFound [] { registry := sampleFound } { registry := sampleLeft } ⟨""⟩
    sampleFound_eq sampleRequest_accepted rfl rfl rfl hhook hreturns
  have hiff := @dispatch_empty_name_eq_iff _ _ sampleRoot _ runBlock sampleRequest {}
    { registry := sampleRooted } _ (by decide +kernel) sampleFound_eq rfl rfl (by decide +kernel)
  exact hiff.1 hsame _ _ hends.toRun

end Invocation
end KeywordScope
