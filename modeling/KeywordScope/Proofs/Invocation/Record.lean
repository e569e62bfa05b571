import KeywordScope.Binding.Layered
import KeywordScope.Proofs.Invocation.Use
import KeywordScope.Proofs.Value.Classes

/-!
# The record of a use

What a use of a keyword yields once its request is accepted.

* `Course.EndsIn`: how a course ends that comes to an end.
* `Record.ofUse`: the record for the fields of a body, and `Invocation.assemble_eq`: the record that
  is assembled is this one, unless a field is reserved.
* `Invocation.Returns`: the body of a keyword returns items, and its scope is left with an answer.
* `Invocation.dispatch_executable`: what follows for the use of a keyword with an executable body.
-/

namespace KeywordScope

variable {τ ω α β : Type}

/-! ## How a course ends -/

namespace Course

/-- The course ends with an outcome in a state, whatever its earlier moments are. -/
def EndsIn (course : Course τ ω α) (s : State τ ω) (outcome : Except KeywordError α)
    (s' : State τ ω) : Prop :=
  ∀ log, (course.runFrom s log).1 = some (outcome, s')

namespace EndsIn

variable {s s' s'' : State τ ω}

theorem pure (a : α) : (Pure.pure a : Course τ ω α).EndsIn s (.ok a) s := fun _ => rfl

theorem get : (MonadState.get : Course τ ω (State τ ω)).EndsIn s (.ok s) s := fun _ => rfl

theorem note (observe : Registry τ → Moment τ) :
    (Course.note (ω := ω) observe).EndsIn s (.ok ()) s := fun _ => rfl

/-- A computation that does not touch the state. -/
theorem lift (x : Except KeywordError α) : (liftM x : Course τ ω α).EndsIn s x s := by
  cases x <;> exact fun _ => rfl

theorem lift_ok {x : Except KeywordError α} {a : α} (h : x = .ok a) :
    (liftM x : Course τ ω α).EndsIn s (.ok a) s :=
  h ▸ lift x

theorem ofRun {x : Run τ ω α} {outcome : Except KeywordError α}
    (h : x.run s = some (outcome, s')) : (Course.ofRun x).EndsIn s outcome s' :=
  fun _ => h

theorem bind {x : Course τ ω α} {f : α → Course τ ω β} {a : α} {outcome : Except KeywordError β}
    (hx : x.EndsIn s (.ok a) s') (hf : (f a).EndsIn s' outcome s'') :
    (x >>= f).EndsIn s outcome s'' := by
  intro log
  have h := hx log
  rw [runFrom_bind]
  rcases hrun : x.runFrom s log with ⟨_, log'⟩
  rw [hrun] at h
  obtain rfl := h
  exact hf log'

theorem bind_error {x : Course τ ω α} {f : α → Course τ ω β} {e : KeywordError}
    (hx : x.EndsIn s (.error e) s') : (x >>= f).EndsIn s (.error e) s' := by
  intro log
  have h := hx log
  rw [runFrom_bind]
  rcases hrun : x.runFrom s log with ⟨_, log'⟩
  rw [hrun] at h
  obtain rfl := h
  rfl

theorem map {x : Course τ ω α} {f : α → β} {a : α} (hx : x.EndsIn s (.ok a) s') :
    (f <$> x).EndsIn s (.ok (f a)) s' := by
  rw [map_eq_pure_bind]
  exact hx.bind (pure (f a))

theorem map_error {x : Course τ ω α} {f : α → β} {e : KeywordError}
    (hx : x.EndsIn s (.error e) s') : (f <$> x).EndsIn s (.error e) s' := by
  rw [map_eq_pure_bind]
  exact hx.bind_error

/-- A step on the registry alone. -/
theorem onRegistry {action : Registry.Action τ α} {outcome : Except KeywordError α}
    {r : Registry τ} (h : action.run s.registry = (outcome, r)) :
    (Course.ofRun (Run.onRegistry action)).EndsIn s outcome { s with registry := r } := by
  apply ofRun
  rw [Run.run_onRegistry, h]

/-- The outcome of a run is looked at. -/
theorem attempt {run : Run τ ω α} {outcome : Except KeywordError α}
    (h : run.run s = some (outcome, s')) :
    (Course.ofRun (Run.attempt run)).EndsIn s (.ok outcome) s' := by
  apply ofRun
  rw [Run.run_attempt, h]
  rfl

theorem runStage {runBlock : ScriptBlock → Fields → Run τ ω (List Value)} {block : ScriptBlock}
    {args : Fields} {outcome : Except KeywordError (List Value)}
    (h : (runBlock block args).run s = some (outcome, s')) (stage : Stage) :
    (Invocation.runStage runBlock stage block args).EndsIn s outcome s' :=
  (note _).bind (ofRun h)

theorem toRun {x : Course τ ω α} {outcome : Except KeywordError α} (hx : x.EndsIn s outcome s') :
    x.toRun.run s = some (outcome, s') :=
  hx []

end EndsIn

end Course

/-! ## Records -/

/-- The record for the fields of a body: the name, the classes of the fields, and the path. -/
def Record.ofUse (output : OutputConfig) (path name : String) (fields : Fields) : Record where
  typeNames := [output.typeName path]
  fields := (output.nameField, .string name) :: fields.classes ++
    [(output.producedByField, .string path)]

namespace Invocation

variable {output : OutputConfig}

theorem hasName_reserved (output : OutputConfig) (name : String) :
    hasName output.reserved name =
      (sameName output.nameField name || sameName output.producedByField name) := by
  simp [OutputConfig.reserved, hasName, sameName_comm]

theorem foldl_insert (record : Record) (fields : Fields) :
    fields.foldl (fun record field => record.insert field.1 field.2) record =
      { record with
        fields := fields.foldl (fun all field => Fields.set all field.1 field.2) record.fields } := by
  induction fields generalizing record with
  | nil => rfl
  | cons field fields ih => rw [List.foldl_cons, List.foldl_cons, ih, Record.insert]

/-- What is assembled is the name, the classes of the fields, and the path, which takes the place of
the name if the two fields of a record are one. -/
theorem assemble_eq_set (entry : Entry) (name : String) (fields : Fields) :
    assemble output entry name fields =
      match fields.names.find? (hasName output.reserved) with
      | some field => .error (.invalidArgument entry.keyword.name (.reservedField field))
      | none => .ok {
          typeNames := [output.typeName entry.path]
          fields := Fields.set ((output.nameField, .string name) :: fields.classes)
            output.producedByField (.string entry.path) } := by
  unfold assemble
  cases hfind : fields.names.find? (hasName output.reserved) with
  | some field => rfl
  | none =>
    have hname : ∀ key ∈ fields.names,
        hasName (Fields.names [(output.nameField, .string name)]) key = false := by
      intro key hkey
      have h : ¬hasName output.reserved key = true := List.find?_eq_none.1 hfind key hkey
      rw [hasName_reserved, Bool.not_eq_true, Bool.or_eq_false_iff] at h
      simpa [Fields.names, hasName, sameName_comm] using h.1
    dsimp only
    rw [foldl_insert, Record.insert, Record.insert, Record.ofType, Fields.set,
      Fields.foldl_set hname]
    rfl

section Distinct

variable (hdiffer : sameName output.nameField output.producedByField = false)

include hdiffer

/-- The names of the record are all different, if no field of the body is reserved. -/
theorem namesDiffer_ofUse (path name : String) {fields : Fields}
    (h : ∀ key ∈ fields.names, hasName output.reserved key = false) :
    NamesDiffer (Record.ofUse output path name fields).fields.names := by
  have hkey : ∀ key ∈ firstSpellings fields.names, sameName output.nameField key = false ∧
      sameName key output.producedByField = false := by
    intro key hkey
    have h := h key (firstSpellings_subset _ hkey)
    rw [hasName_reserved, Bool.or_eq_false_iff] at h
    exact ⟨h.1, sameName_comm key _ ▸ h.2⟩
  have hclasses : (fields.classes.map fun field => field.1) = firstSpellings fields.names :=
    Fields.names_classes fields
  simp only [Record.ofUse, Fields.names, List.map_append, List.map_cons, List.map_nil, hclasses,
    NamesDiffer]
  apply List.pairwise_append.2
  refine ⟨?_, List.pairwise_singleton _ _, ?_⟩
  · exact List.pairwise_cons.2 ⟨fun key h => (hkey key h).1, namesDiffer_firstSpellings _⟩
  · intro key hmem last hlast
    rw [List.mem_singleton.1 hlast]
    rcases List.mem_cons.1 hmem with rfl | hmem
    · exact hdiffer
    · exact (hkey key hmem).2

/-- What is assembled is the record for the fields, unless one of them is reserved. -/
theorem assemble_eq (entry : Entry) (name : String) (fields : Fields) :
    assemble output entry name fields =
      match fields.names.find? (hasName output.reserved) with
      | some field => .error (.invalidArgument entry.keyword.name (.reservedField field))
      | none => .ok (.ofUse output entry.path name fields) := by
  rw [assemble_eq_set]
  cases hfind : fields.names.find? (hasName output.reserved) with
  | some field => rfl
  | none =>
    have hfree : ∀ key ∈ fields.names, hasName output.reserved key = false := by
      simpa using List.find?_eq_none.1 hfind
    have hlast : hasName (Fields.names ((output.nameField, .string name) :: fields.classes))
        output.producedByField = false := by
      have h := namesDiffer_ofUse hdiffer entry.path name hfree
      rw [Record.ofUse, Fields.names_concat, NamesDiffer, List.pairwise_append] at h
      apply List.any_eq_false.2
      intro key hkey
      rw [sameName_comm, h.2.2 key hkey _ (List.mem_singleton_self _)]
      exact Bool.false_ne_true
    dsimp only
    rw [Fields.set_new hlast]
    rfl

end Distinct

/-! ## Keys -/

/-- The items of a body with their keys. -/
def keyed (output : OutputConfig) (items : List Value) : Fields :=
  items.map fun item => (itemName output item, item)

/-- What is collected are the classes of the keyed items. -/
theorem collect_eq (output : OutputConfig) (items : List Value) :
    collect output items = (keyed output items).classes := by
  rw [← Fields.foldl_set_nil, keyed, List.foldl_map, collect]

/-- The record of the collected items is that of the items. -/
theorem assemble_collect (hdiffer : sameName output.nameField output.producedByField = false)
    (entry : Entry) (name : String) (items : List Value) :
    assemble output entry name (collect output items) =
      match (keyed output items).names.find? (hasName output.reserved) with
      | some field => .error (.invalidArgument entry.keyword.name (.reservedField field))
      | none => .ok (.ofUse output entry.path name (keyed output items)) := by
  have hnames : NamesDiffer (keyed output items).classes.names := by
    rw [Fields.names_classes]
    exact namesDiffer_firstSpellings _
  rw [assemble_eq hdiffer, collect_eq, Fields.names_classes,
    find?_firstSpellings fun a b h => hasName_congr h output.reserved]
  cases (keyed output items).names.find? (hasName output.reserved) with
  | some field => rfl
  | none => rw [Record.ofUse, Record.ofUse, Fields.classes_of_namesDiffer hnames]

/-! ## Uses with an executable body -/

variable [BindingTable τ]

/-- The hook before the body, if the keyword has one, yields items. -/
def HookYields (runBlock : ScriptBlock → Fields → Run τ ω (List Value)) (request : Request) :
    Option ScriptBlock → State τ ω → List Value → State τ ω → Prop
  | none, s, items, s' => items = [] ∧ s' = s
  | some hook, s, items, s' =>
    (runBlock hook [("Name", (request.name?.map Value.string).getD .null)]).run s =
      some (.ok items, s')

/-- The body of a keyword returns items; then the scope in which it ran, if the keyword has one, is
left with an answer. -/
inductive Returns (runBlock : ScriptBlock → Fields → Run τ ω (List Value)) (entry : Entry)
    (block : ScriptBlock) (s : State τ ω) (items : List Value) :
    Except KeywordError Unit → State τ ω → Prop where
  | standalone {s' : State τ ω} (noMember : entry.isMember = false)
      (returned : (runBlock block []).run s = some (.ok items, s')) :
      Returns runBlock entry block s items (.ok ()) s'
  | member {r r' : Registry τ} {s' : State τ ω} {left : Except KeywordError Keyword.Id}
      (isMember : entry.isMember = true)
      (entered : (Registry.enterScope entry.id).run s.registry = (.ok (), r))
      (returned : (runBlock block []).run { s with registry := r } = some (.ok items, s'))
      (released : (ExceptT.mk (Prod.fst <$> Guard.release { keyword := entry.id } false) :
        Registry.Action τ Keyword.Id).run s'.registry = (left, r')) :
      Returns runBlock entry block s items (left.map fun _ => ()) { s' with registry := r' }

variable {runBlock : ScriptBlock → Fields → Run τ ω (List Value)} {entry : Entry}
  {s s' : State τ ω} {items : List Value} {left : Except KeywordError Unit}

theorem endsIn_runBody_standalone {block : ScriptBlock} {result : Except KeywordError (List Value)}
    (noMember : entry.isMember = false) (ran : (runBlock block []).run s = some (result, s')) :
    (runBody runBlock entry block).EndsIn s result s' := by
  unfold runBody
  rw [if_neg (by simp [noMember])]
  exact .runStage ran _

/-- The scope of a member is left in any case, but an error of the body comes first. -/
theorem endsIn_runBody_member {block : ScriptBlock} {result : Except KeywordError (List Value)}
    {r r' : Registry τ} {left : Except KeywordError Keyword.Id} (isMember : entry.isMember = true)
    (entered : (Registry.enterScope entry.id).run s.registry = (.ok (), r))
    (ran : (runBlock block []).run { s with registry := r } = some (result, s'))
    (released : (ExceptT.mk (Prod.fst <$> Guard.release { keyword := entry.id } false) :
      Registry.Action τ Keyword.Id).run s'.registry = (left, r')) :
    (runBody runBlock entry block).EndsIn s (result >>= fun items => left.map fun _ => items)
      { s' with registry := r' } := by
  unfold runBody
  rw [if_pos isMember]
  have henter : (Guard.enter entry.id).run s.registry = (.ok { keyword := entry.id }, r) :=
    Step.run_bind_ok entered
  apply (Course.EndsIn.onRegistry henter).bind
  apply (Course.EndsIn.note _).bind
  apply (Course.EndsIn.attempt ran).bind
  have hleave : (Run.onRegistry (ω := ω) (ExceptT.mk (Prod.fst <$>
      Guard.release { keyword := entry.id } false))).run s' =
      some (left, { s' with registry := r' }) := by
    rw [Run.run_onRegistry, released]
  apply (Course.EndsIn.attempt hleave).bind
  apply (Course.EndsIn.note _).bind
  cases result with
  | error e => exact (Course.EndsIn.lift (.error e)).bind_error
  | ok items =>
    apply (Course.EndsIn.lift (.ok items)).bind
    cases left with
    | ok id => exact (Course.EndsIn.lift (.ok id)).bind (.pure items)
    | error e => exact (Course.EndsIn.lift (.error e)).bind_error

/-- A body that returns yields its items, unless its scope cannot be left. -/
theorem Returns.endsIn {block : ScriptBlock} (h : Returns runBlock entry block s items left s') :
    (runBody runBlock entry block).EndsIn s (left.map fun _ => items) s' := by
  cases h with
  | standalone noMember returned => exact endsIn_runBody_standalone noMember returned
  | @member _ _ _ left isMember entered returned released =>
    cases left <;> exact endsIn_runBody_member isMember entered returned released

theorem checkBody_of_checkRequest {dispatcher : DispatcherConfig} {isVisible : Bool}
    {keyword : Keyword} {request : Request}
    (h : checkRequest dispatcher isVisible keyword request = .ok ()) :
    checkBody keyword request.body = .ok () := by
  unfold checkRequest at h
  by_cases hdirect : isDirectCall dispatcher request.invocationName = true
  · rw [if_pos hdirect] at h
    cases h
  by_cases hinput : request.expectsInput = true
  · rw [if_neg hdirect, if_pos hinput] at h
    cases h
  rw [if_neg hdirect, if_neg hinput] at h
  cases hbody : checkBody keyword request.body with
  | ok => rfl
  | error e =>
    rw [hbody] at h
    cases h

/-- A body fits if it is of the kind that is declared. -/
theorem checkBody_iff {keyword : Keyword} {body : Value} :
    checkBody keyword body = .ok () ↔
      (∃ block, body = .script block ∧ keyword.body = .executable) ∨
        ∃ fields properties, body = .map fields ∧ keyword.body = .map properties := by
  unfold checkBody
  split <;> simp_all

/-- Once the request is accepted, the parts of a use decide how it ends. -/
theorem endsIn_use_of {config : Config} {request : Request} {r : Registry τ}
    {outcome : Except KeywordError (List Value)}
    (hload : (Registry.loadVisible request.keyword).run s.registry = (.ok entry, r))
    (hcheck : checkRequest config.dispatcher (r.isVisible entry.keyword.id) entry.keyword request =
      .ok ())
    (hrest : (firstHook runBlock request entry >>= fun before =>
      bodyFields config.output runBlock request entry >>=
        finish config.output runBlock request entry before).EndsIn { s with registry := r }
          outcome s') :
    (use config runBlock request).EndsIn s outcome s' := by
  rw [use_eq]
  exact (Course.EndsIn.onRegistry hload).bind
    (Course.EndsIn.get.bind ((Course.EndsIn.lift_ok hcheck).bind hrest))

omit [BindingTable τ] in
theorem HookYields.endsIn {request : Request}
    (h : HookYields runBlock request entry.onInvoking? s items s') :
    (firstHook runBlock request entry).EndsIn s (.ok items) s' := by
  unfold firstHook
  cases hhook : entry.onInvoking? with
  | none =>
    rw [hhook] at h
    obtain ⟨rfl, rfl⟩ := h
    exact .pure _
  | some hook =>
    rw [hhook] at h
    exact .runStage h _

/-- How a use ends whose body has returned: by the answer of its scope, and else by the record. -/
theorem endsIn_use {config : Config} {request : Request} {r : Registry τ} {before : List Value}
    {s₁ s₂ : State τ ω} {block : ScriptBlock}
    (hload : (Registry.loadVisible request.keyword).run s.registry = (.ok entry, r))
    (hcheck : checkRequest config.dispatcher (r.isVisible entry.keyword.id) entry.keyword request =
      .ok ())
    (hbody : entry.keyword.body = .executable) (hscript : request.body = .script block)
    (hinvoked : entry.onInvoked? = none)
    (hhook : HookYields runBlock request entry.onInvoking? { s with registry := r } before s₁)
    (hreturns : Returns runBlock entry block s₁ items left s₂) :
    (use config runBlock request).EndsIn s
      (left >>= fun _ => (fun record => before ++ [record.toValue]) <$>
        assemble config.output entry (request.name?.getD entry.keyword.name)
          (collect config.output items)) s₂ := by
  refine endsIn_use_of hload hcheck (hhook.endsIn.bind ?_)
  rw [bodyFields, hscript, hbody]
  have hrun := hreturns.endsIn
  cases left with
  | error e => exact hrun.map_error.bind_error
  | ok _ =>
    refine hrun.map.bind ?_
    rw [finish, hinvoked]
    cases hrecord : assemble config.output entry (request.name?.getD entry.keyword.name)
      (collect config.output items) with
    | error e => exact (Course.EndsIn.lift (.error e)).bind_error
    | ok record => exact (Course.EndsIn.lift (.ok record)).bind (.pure _)

/-- The use of a keyword with an executable body, and without a hook after it, on a request that is
accepted. Once its body has returned, the use fails if the scope of the keyword cannot be left, or
if the key of an item is a reserved field. Otherwise its output are the items of the first hook and
the record of the keyed items, in which no name comes twice. -/
theorem dispatch_executable {config : Config} {request : Request} {r : Registry τ}
    {before : List Value} {s₁ : State τ ω}
    (hdiffer : sameName config.output.nameField config.output.producedByField = false)
    (hload : (Registry.loadVisible request.keyword).run s.registry = (.ok entry, r))
    (hcheck : checkRequest config.dispatcher (r.isVisible entry.keyword.id) entry.keyword request =
      .ok ())
    (hbody : entry.keyword.body = .executable) (hinvoked : entry.onInvoked? = none)
    (hhook : HookYields runBlock request entry.onInvoking? { s with registry := r } before s₁) :
    ∃ block, request.body = .script block ∧
      ∀ items left s₂, Returns runBlock entry block s₁ items left s₂ →
        let keys := (keyed config.output items).names
        let record := Record.ofUse config.output entry.path
          (request.name?.getD entry.keyword.name) (keyed config.output items)
        (∀ e, left = .error e →
          (dispatch config runBlock request).run s = some (.error e, s₂)) ∧
        (left = .ok () → ∀ key ∈ keys, hasName config.output.reserved key = true →
          ∃ field ∈ keys, hasName config.output.reserved field = true ∧
            (dispatch config runBlock request).run s =
              some (.error (.invalidArgument entry.keyword.name (.reservedField field)), s₂)) ∧
        (left = .ok () → (∀ key ∈ keys, hasName config.output.reserved key = false) →
          (dispatch config runBlock request).run s =
            some (.ok (before ++ [record.toValue]), s₂) ∧
          NamesDiffer record.fields.names) := by
  obtain ⟨block, hscript, -⟩ | ⟨_, _, -, hmap⟩ := checkBody_iff.1 (checkBody_of_checkRequest hcheck)
  swap
  · rw [hbody] at hmap
    cases hmap
  refine ⟨block, hscript, fun items left s₂ hreturns => ?_⟩
  have hrun := (endsIn_use hload hcheck hbody hscript hinvoked hhook hreturns).toRun
  rw [assemble_collect hdiffer] at hrun
  refine ⟨?_, ?_, ?_⟩
  · rintro e rfl
    exact hrun
  · rintro rfl key hkey hreserved
    obtain ⟨field, hfield⟩ :=
      Option.isSome_iff_exists.1 (List.find?_isSome.2 ⟨key, hkey, hreserved⟩)
    rw [hfield] at hrun
    exact ⟨field, List.mem_of_find?_eq_some hfield, List.find?_some hfield, hrun⟩
  · rintro rfl hfree
    have hnone : (keyed config.output items).names.find? (hasName config.output.reserved) = none :=
      List.find?_eq_none.2 fun key hkey => by simp [hfree key hkey]
    rw [hnone] at hrun
    exact ⟨hrun, namesDiffer_ofUse hdiffer _ _ hfree⟩

/-! ## A body that yields items, and one that leaves a scope -/

open Registry

/-- A registry with one root. -/
def sampleRooted : Registry LayeredTable :=
  ((registerMember "web" { id := ⟨1⟩, name := "Site" } none "Site").run (.ofConfig {} {})).2

/-- The root. -/
def sampleRoot : Entry where
  keyword := { id := ⟨1⟩, name := "Site" }
  visible := true
  membership? := some { dsl := "web", path := "Site" }

def sampleRequest : Request := .ofKeyword "Site" (.script ⟨""⟩)

/-- Two items of one key, up to case, and one without a name. -/
def sampleItems : List Value :=
  [.map [("name", .string "Home")], .int 3, .map [("Name", .string "HOME")]]

/-- The registry when the root is found. -/
def sampleFound : Registry LayeredTable := ((loadVisible "Site").run sampleRooted).2

/-- The registry when its body starts. -/
def sampleStarted : Registry LayeredTable := ((enterScope ⟨1⟩).run sampleFound).2

/-- The registry when its scope is left. -/
def sampleLeft : Registry LayeredTable := (leaveScope.run sampleStarted).2

theorem sampleFound_eq : (loadVisible "Site").run sampleRooted = (.ok sampleRoot, sampleFound) :=
  Step.run_of_toOption (by decide +kernel)

theorem sampleStarted_eq : (enterScope ⟨1⟩).run sampleFound = (.ok (), sampleStarted) :=
  Step.run_of_toOption (by decide +kernel)

theorem sampleLeft_eq : leaveScope.run sampleStarted = (.ok ⟨1⟩, sampleLeft) :=
  Step.run_of_toOption (by decide +kernel)

/-- There is no second scope to be left. -/
theorem sampleLeft_leave :
    leaveScope.run sampleLeft = (.error (.invalidOperation .noScope), sampleLeft) := by
  have hscope : sampleLeft.scope = [] := by decide +kernel
  rw [leaveScope, Step.run_bind_ok (Step.run_get _), hscope]
  rfl

theorem sampleRequest_accepted :
    checkRequest {} (sampleFound.isVisible ⟨1⟩) sampleRoot.keyword sampleRequest = .ok () := by
  rw [show sampleFound.isVisible ⟨1⟩ = true by decide +kernel]
  rfl

theorem sampleItems_free : ∀ key ∈ (keyed {} sampleItems).names,
    hasName ({} : OutputConfig).reserved key = false := by
  decide +kernel

theorem dispatch_executable_sample :
    let runBlock : ScriptBlock → Fields → Run LayeredTable Unit (List Value) :=
      fun _ _ => pure sampleItems
    ∃ s, (dispatch {} runBlock sampleRequest).run { registry := sampleRooted } =
      some (.ok [.record ["KeywordDsl.DslAutomaticOutput#Site"]
        [("Name", .string "Site"), ("Home", .map [("Name", .string "HOME")]), ("Int", .int 3),
          ("ProducedByKeyword", .string "Site")]], s) := by
  intro runBlock
  have hdiffer : sameName ({} : Config).output.nameField ({} : Config).output.producedByField =
      false := by
    decide +kernel
  have hhook : HookYields runBlock sampleRequest sampleRoot.onInvoking? { registry := sampleFound }
      [] { registry := sampleFound } :=
    ⟨rfl, rfl⟩
  obtain ⟨block, hscript, h⟩ := @dispatch_executable _ _ _ runBlock sampleRoot
    { registry := sampleRooted } {} sampleRequest sampleFound [] { registry := sampleFound } hdiffer
    sampleFound_eq sampleRequest_accepted rfl rfl hhook
  have hreleased : (ExceptT.mk (Prod.fst <$> Guard.release { keyword := sampleRoot.id } false) :
      Registry.Action LayeredTable Keyword.Id).run sampleStarted = (.ok ⟨1⟩, sampleLeft) := by
    rw [run_release, sampleLeft_eq]
    rfl
  have hreturns : Returns runBlock sampleRoot block { registry := sampleFound } sampleItems (.ok ())
      { registry := sampleLeft } :=
    @Returns.member _ _ _ runBlock sampleRoot block { registry := sampleFound } sampleItems
      sampleStarted sampleLeft { registry := sampleStarted } (.ok ⟨1⟩) rfl sampleStarted_eq rfl
      hreleased
  exact ⟨_, ((h _ _ _ hreturns).2.2 rfl sampleItems_free).1⟩

/-- A session whose bodies leave a scope before they return. -/
def leavingSession : Session LayeredTable Keyword.Id where
  host.resolveType token := .ok ⟨token⟩
  host.execute _ _ := .perform (.access leaveScope) fun _ => .finish (.ok sampleItems)

theorem run_leaving (invoke : Request → Run LayeredTable Keyword.Id (List Value)) :
    (leavingSession.runBlock invoke ⟨""⟩ []).run { registry := sampleStarted } =
      some (.ok sampleItems, { registry := sampleLeft }) := by
  show (Run.attempt (Reply.own <$> Run.onRegistry leaveScope) >>= fun _ => pure sampleItems :
    Run LayeredTable Keyword.Id (List Value)).run _ = _
  rw [Run.run_bind, Run.run_attempt, map_eq_pure_bind, Run.run_bind, Run.run_onRegistry,
    sampleLeft_eq]
  rfl

/-- The body of a keyword returns items without reserved keys, but the use fails, since the body has
left the scope of its keyword. -/
theorem dispatch_unscoped :
    let runBlock := leavingSession.runBlock (leavingSession.invoke 0)
    let s : State LayeredTable Keyword.Id := { registry := sampleRooted }
    ∃ r block s₁ left, (loadVisible "Site").run sampleRooted = (.ok sampleRoot, r) ∧
      checkRequest {} (r.isVisible ⟨1⟩) sampleRoot.keyword sampleRequest = .ok () ∧
      sampleRequest.body = .script block ∧
      Returns runBlock sampleRoot block { registry := r } sampleItems left s₁ ∧
      (∀ key ∈ (keyed {} sampleItems).names, hasName ({} : OutputConfig).reserved key = false) ∧
      (leavingSession.invoke 1 sampleRequest).run s =
        some (.error (.invalidOperation .noScope), s₁) := by
  intro runBlock s
  have hreleased : (ExceptT.mk (Prod.fst <$> Guard.release { keyword := sampleRoot.id } false) :
      Registry.Action LayeredTable Keyword.Id).run sampleLeft =
        (.error (.invalidOperation .noScope), sampleLeft) := by
    rw [run_release, sampleLeft_leave]
  have hreturns : Returns runBlock sampleRoot ⟨""⟩ { registry := sampleFound } sampleItems
      (.error (.invalidOperation .noScope)) { registry := sampleLeft } :=
    @Returns.member _ _ _ runBlock sampleRoot ⟨""⟩ { registry := sampleFound } sampleItems
      sampleStarted sampleLeft { registry := sampleLeft } (.error (.invalidOperation .noScope)) rfl
      sampleStarted_eq (run_leaving _) hreleased
  have hhook : HookYields runBlock sampleRequest sampleRoot.onInvoking? { registry := sampleFound }
      [] { registry := sampleFound } :=
    ⟨rfl, rfl⟩
  have hends := @endsIn_use _ _ _ runBlock sampleRoot s sampleItems _ {} sampleRequest sampleFound []
    { registry := sampleFound } { registry := sampleLeft } ⟨""⟩ sampleFound_eq sampleRequest_accepted
    rfl rfl rfl hhook hreturns
  exact ⟨sampleFound, ⟨""⟩, _, _, sampleFound_eq, sampleRequest_accepted, rfl, hreturns,
    sampleItems_free, hends.toRun⟩

end Invocation

end KeywordScope
