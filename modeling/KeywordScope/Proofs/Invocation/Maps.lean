import KeywordScope.Proofs.Declaration.Bodies
import KeywordScope.Proofs.Invocation.Operations
import KeywordScope.Proofs.Invocation.Record
import KeywordScope.Proofs.Invocation.Transparency

/-!
# Uses with a map body

A map body is checked against the declared properties before the record is assembled. Since no
property that is declared by a source has the name of a reserved field, a map that passes the check
is never turned down by the assembly.

* `Invocation.checkName_iff`, `Invocation.checkProperties_cases`: when a name and a map are accepted.
* `Invocation.endsIn_use_map`: how the use of a keyword with a map body ends.
* `Session.invoke_map`: the use of a keyword of a language that was declared by a source.
-/

namespace KeywordScope

namespace Invocation

/-- The request has a name if the keyword needs one, and none if it takes none. -/
def MeetsNameMode (keyword : Keyword) (request : Request) : Prop :=
  (keyword.nameMode = .nameRequired → request.givenName? ≠ none) ∧
    (keyword.nameMode = .noName → request.givenName? = none)

theorem checkName_iff {keyword : Keyword} {request : Request} :
    checkName keyword request = .ok () ↔ MeetsNameMode keyword request := by
  unfold checkName MeetsNameMode
  cases keyword.nameMode <;> cases request.givenName? <;> simp

/-- The names in a map are those of declared properties, and all required ones are there. -/
def Sets (properties : List Property) (fields : Fields) : Prop :=
  (∀ key ∈ fields.names, ∃ property ∈ properties, sameName property.name key = true) ∧
    ∀ property ∈ properties, property.required = true →
      ∃ key ∈ fields.names, sameName key property.name = true

/-- The check of a map that does not fit names a key that is no property, or a required property
that is not there. -/
inductive Misset (keyword : Keyword) (fields : Fields) : KeywordError → Prop where
  | unknown {key : String} (hkey : key ∈ fields.names)
      (hnone : ∀ property ∈ keyword.body.properties, sameName property.name key = false) :
      Misset keyword fields (.invalidArgument keyword.name (.unknownProperty key))
  | missing {property : Property} (hproperty : property ∈ keyword.body.properties)
      (hrequired : property.required = true)
      (hnone : ∀ key ∈ fields.names, sameName key property.name = false) :
      Misset keyword fields (.invalidArgument keyword.name (.missingProperty property.name))

theorem Misset.not_sets {keyword : Keyword} {fields : Fields} {e : KeywordError}
    (h : Misset keyword fields e) : ¬ Sets keyword.body.properties fields := by
  rintro ⟨hknown, hthere⟩
  cases h with
  | unknown hkey hnone =>
    obtain ⟨property, hproperty, hsame⟩ := hknown _ hkey
    rw [hnone property hproperty] at hsame
    cases hsame
  | missing hproperty hrequired hnone =>
    obtain ⟨key, hkey, hsame⟩ := hthere _ hproperty hrequired
    rw [hnone key hkey] at hsame
    cases hsame

/-- A map passes the check if it fits, and else the error tells why it does not. -/
theorem checkProperties_cases (keyword : Keyword) (fields : Fields) :
    (checkProperties keyword fields = .ok () ∧ Sets keyword.body.properties fields) ∨
      ∃ e, checkProperties keyword fields = .error e ∧ Misset keyword fields e := by
  unfold checkProperties
  cases hunknown : fields.names.find? fun name => (keyword.property? name).isNone with
  | some key =>
    have hnone := List.find?_some hunknown
    rw [Option.isNone_iff_eq_none, Keyword.property?, List.find?_eq_none] at hnone
    refine .inr ⟨_, rfl, .unknown (List.mem_of_find?_eq_some hunknown) fun property hproperty => ?_⟩
    simpa using hnone property hproperty
  | none =>
  dsimp only
  cases hmissing : keyword.body.properties.find? fun property =>
      property.required && !hasName fields.names property.name with
  | some property =>
    have hlacks := List.find?_some hmissing
    simp only [Bool.and_eq_true, Bool.not_eq_true', hasName, List.any_eq_false] at hlacks
    refine .inr ⟨_, rfl, .missing (List.mem_of_find?_eq_some hmissing) hlacks.1 fun key hkey => ?_⟩
    rw [sameName_comm]
    simpa using hlacks.2 key hkey
  | none =>
    refine .inl ⟨rfl, fun key hkey => ?_, fun property hproperty hrequired => ?_⟩
    · have hsome := List.find?_eq_none.1 hunknown key hkey
      rw [Keyword.property?, Option.isNone_iff_eq_none, List.find?_eq_none] at hsome
      simpa using hsome
    · have hthere := List.find?_eq_none.1 hmissing property hproperty
      simp only [hrequired, Bool.true_and, Bool.not_eq_true', hasName, Bool.not_eq_false,
        List.any_eq_true] at hthere
      obtain ⟨key, hkey, hsame⟩ := hthere
      exact ⟨key, hkey, sameName_comm key _ ▸ hsame⟩

theorem checkRequest_map {dispatcher : DispatcherConfig} {keyword : Keyword} {request : Request}
    {properties : List Property} {fields : Fields}
    (hdirect : isDirectCall dispatcher request.invocationName = false)
    (hinput : request.expectsInput = false) (hmap : request.body = .map fields)
    (hbody : keyword.body = .map properties) (hname : MeetsNameMode keyword request) :
    checkRequest dispatcher true keyword request = checkProperties keyword fields := by
  have hfits : checkBody keyword request.body = .ok () :=
    checkBody_iff.2 (.inr ⟨fields, properties, hmap, hbody⟩)
  unfold checkRequest
  rw [if_neg (by simp [hdirect]), if_neg (by simp [hinput]), hfits, checkName_iff.2 hname, hmap]
  rfl

/-- A map that sets free properties only sets no reserved field. -/
theorem Sets.find?_reserved {reserved : List String} {body : Keyword.Body} {fields : Fields}
    (h : Sets body.properties fields) (hfree : body.Free reserved) :
    fields.names.find? (hasName reserved) = none := by
  apply List.find?_eq_none.2
  intro key hkey
  obtain ⟨property, hproperty, hsame⟩ := h.1 key hkey
  rw [← hasName_congr hsame, hfree property hproperty]
  exact Bool.false_ne_true

variable {τ ω : Type} [BindingTable τ] {s : State τ ω} {entry : Entry}

/-- How the use of a keyword with a map body and without hooks ends. -/
theorem endsIn_use_map (runBlock : ScriptBlock → Fields → Run τ ω (List Value)) {config : Config}
    {request : Request} {r : Registry τ} {properties : List Property} {fields : Fields}
    (hload : (Registry.loadVisible request.keyword).run s.registry = (.ok entry, r))
    (hvisible : r.isVisible entry.keyword.id = true)
    (hdirect : isDirectCall config.dispatcher request.invocationName = false)
    (hinput : request.expectsInput = false) (hname : MeetsNameMode entry.keyword request)
    (hmap : request.body = .map fields) (hbody : entry.keyword.body = .map properties)
    (hinvoking : entry.onInvoking? = none) (hinvoked : entry.onInvoked? = none) :
    (use config runBlock request).EndsIn s
      (checkProperties entry.keyword fields >>= fun _ => (fun record => [record.toValue]) <$>
        assemble config.output entry (request.name?.getD entry.keyword.name) fields)
      { s with registry := r } := by
  unfold use
  apply (Course.EndsIn.onRegistry hload).bind
  apply Course.EndsIn.get.bind
  have hcheck : checkRequest config.dispatcher (r.isVisible entry.keyword.id) entry.keyword request
      = checkProperties entry.keyword fields := by
    rw [hvisible]
    exact checkRequest_map hdirect hinput hmap hbody hname
  dsimp only
  rw [hcheck, hinvoking, hmap, hbody, hinvoked]
  cases checkProperties entry.keyword fields with
  | error e => exact (Course.EndsIn.lift (.error e)).bind_error
  | ok _ =>
    apply (Course.EndsIn.lift_ok rfl).bind
    apply (Course.EndsIn.pure _).bind
    apply (Course.EndsIn.pure _).bind
    cases assemble config.output entry (request.name?.getD entry.keyword.name) fields with
    | error e => exact (Course.EndsIn.lift (.error e)).bind_error
    | ok record => exact (Course.EndsIn.lift (.ok record)).bind (.pure _)

end Invocation

namespace Session

open Registry Invocation

variable {τ ω : Type} [BindingTable τ] (session : Session τ ω)

/-- The use of a keyword with a map body, of a language that was declared by a source. It succeeds
if, and only if, the map sets declared properties only, and all required ones; the record then has
the name, the classes of the fields of the map, and the path. Otherwise the error names a key that
is no property, or a property that is missing, and never a reserved field. -/
theorem invoke_map {state₀ state₁ state : State τ ω} {held : Hold} {dsl source : String}
    {module? : Option String} {roots : List Keyword} {entry : Entry} {r : Registry τ}
    {request : Request} {properties : List Property} {fields : Fields}
    (hdiffer : sameName session.config.output.nameField session.config.output.producedByField =
      false)
    (hstart : state₀.registry.Edited)
    (hdeclare : (session.declare held dsl source module?).run state₀ = some (.ok roots, state₁))
    (hkeyword : entry.keyword ∈ state₁.registry.members dsl)
    (hbody : entry.keyword.body = .map properties) (hstate : state.registry.Edited)
    (hload : (loadVisible request.keyword).run state.registry = (.ok entry, r))
    (hinvoking : entry.onInvoking? = none) (hinvoked : entry.onInvoked? = none)
    (hdirect : isDirectCall session.config.dispatcher request.invocationName = false)
    (hinput : request.expectsInput = false) (hname : MeetsNameMode entry.keyword request)
    (hmap : request.body = .map fields) (depth : Nat) :
    ∃ outcome, (session.invoke (depth + 1) request).run state =
        some (outcome, { state with registry := r }) ∧
      (outcome.isOk = true ↔ Sets properties fields) ∧
      (∀ e, outcome = .error e → Misset entry.keyword fields e) ∧
      ∀ output, outcome = .ok output →
        output = [(Record.ofUse session.config.output entry.path
          (request.name?.getD entry.keyword.name) fields).toValue] := by
  -- The keyword that is found is visible, since its identity is that of no other one.
  have hfound := meets_loadVisible request.keyword state.registry (Rebound.refl _)
  rw [hload] at hfound
  obtain ⟨⟨hentry, hshown⟩, t, rfl⟩ := hfound
  have hvisible : (state.registry.withBindings t).isVisible entry.keyword.id = true :=
    (hstate.sound.distinct.isVisible_eq hentry).trans hshown
  have hrun := (endsIn_use_map (session.runBlock (session.invoke depth)) hload hvisible hdirect
    hinput hname hmap hbody hinvoking hinvoked).toRun
  have hfree := session.free_of_declare hstart hdeclare hkeyword
  have hproperties : entry.keyword.body.properties = properties := by
    rw [hbody, Keyword.Body.properties]
  rcases checkProperties_cases entry.keyword fields with ⟨hcheck, hsets⟩ | ⟨e, hcheck, hmisset⟩
  · rw [hcheck, assemble_eq hdiffer, hsets.find?_reserved hfree] at hrun
    refine ⟨_, hrun, ⟨fun _ => hproperties ▸ hsets, fun _ => rfl⟩, nofun, ?_⟩
    rintro output hout
    exact (Except.ok.inj hout).symm
  · rw [hcheck] at hrun
    refine ⟨_, hrun, ⟨nofun, fun hsets => ?_⟩, ?_, nofun⟩
    · exact absurd (hproperties ▸ hsets) hmisset.not_sets
    · rintro e' he
      obtain rfl := Except.error.inj he
      exact hmisset

/-- The root of a language with a required and an optional property. -/
def samplePage : Entry where
  keyword :=
    { id := ⟨1⟩, name := "Page", body := .map [⟨"Title", true, ⟨"string"⟩⟩, ⟨"Text", false, ⟨"string"⟩⟩] }
  visible := true
  membership? := some { dsl := "web", path := "Page" }

theorem samplePage_declared :
    let session : Session LayeredTable Unit :=
      { host := { resolveType := fun token => .ok ⟨token⟩, execute := fun _ _ => .finish (.ok []) } }
    ((session.declare .free "web" "Page { string Title; string [Text] }" none).run
      (session.start {})).any (fun answer => answer.1.isOk &&
        decide (((loadVisible "Page").run answer.2.registry).1.toOption = some samplePage) &&
        decide (answer.2.registry.members "web" = [samplePage.keyword])) = true := by
  decide +kernel

/-- A map that spells the names of properties in its own way, and gives one of them twice. -/
theorem invoke_map_sample :
    let session : Session LayeredTable Unit :=
      { host := { resolveType := fun token => .ok ⟨token⟩, execute := fun _ _ => .finish (.ok []) } }
    ∃ roots state r, (session.declare .free "web" "Page { string Title; string [Text] }" none).run
        (session.start {}) = some (.ok roots, state) ∧
      (session.invoke 1 (.ofKeyword "Page"
          (.map [("text", .int 1), ("TITLE", .string "Home"), ("Text", .int 2)]))).run state =
        some (.ok [.record ["KeywordDsl.DslAutomaticOutput#Page"] [("Name", .string "Page"),
          ("text", .int 2), ("TITLE", .string "Home"), ("ProducedByKeyword", .string "Page")]],
          { state with registry := r }) := by
  intro session
  obtain ⟨⟨outcome, state⟩, hdeclare, hanswer⟩ := (Option.any_eq_true _ _).1 samplePage_declared
  simp only [Bool.and_eq_true, decide_eq_true_eq] at hanswer
  obtain ⟨⟨hok, hload⟩, hmembers⟩ := hanswer
  cases outcome with
  | error e => cases hok
  | ok roots =>
  have hstart : (session.start {}).registry.Edited := .empty _ _
  have hstate : state.registry.Edited := by
    have hkeeps := session.keeps_declare kept_edited.declare .free "web"
      "Page { string Title; string [Text] }" none (session.start {}) hstart
    rw [hdeclare] at hkeeps
    exact hkeeps
  have hkeyword : samplePage.keyword ∈ state.registry.members "web" := by
    rw [hmembers]
    exact List.mem_singleton_self _
  have hfound := Step.run_of_toOption hload
  obtain ⟨outcome, hrun, hiff, -, houtput⟩ := @invoke_map _ _ _ session _ _ _ _ _ _ _ _ samplePage _
    (.ofKeyword "Page" (.map [("text", .int 1), ("TITLE", .string "Home"), ("Text", .int 2)])) _ _
    (by decide +kernel) hstart hdeclare hkeyword rfl hstate hfound rfl rfl (by decide +kernel) rfl
    ⟨nofun, fun _ => rfl⟩ rfl 0
  have hsets : Sets [⟨"Title", true, ⟨"string"⟩⟩, ⟨"Text", false, ⟨"string"⟩⟩]
      [("text", .int 1), ("TITLE", .string "Home"), ("Text", .int 2)] := by
    unfold Sets
    decide +kernel
  cases outcome with
  | error e => cases hiff.2 hsets
  | ok output =>
    rw [houtput output rfl] at hrun
    exact ⟨roots, state, _, hdeclare, hrun⟩

end Session
end KeywordScope
