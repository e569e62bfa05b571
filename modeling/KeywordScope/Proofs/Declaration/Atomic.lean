import KeywordScope.Binding.Refusing
import KeywordScope.Host
import KeywordScope.Proofs.Invocation.Conditions
import KeywordScope.Proofs.Registry.Growth
import KeywordScope.Proofs.Registry.Sound

/-!
# Declarations are all or nothing

Whatever the table refuses on the way, and in any scope: a declaration touches its own language
only. If it fails, then either nothing has changed, or no keyword of the language is left.

* `Registry.Aside`: what does not belong to a language, and the scope stack.
* `Registry.meets_declare`: an accepted tree is declared, or the language is gone.
* `Session.Rejected`: why a declaration is turned down before anything has changed.
* `Session.declare_atomic`: all that a declaration by a source can do.
-/

namespace KeywordScope

/-- Errors in a declaration are located in its source. -/
def KeywordError.locatedIn (source : String) : KeywordError → KeywordError
  | .grammar e => .grammar (e.locate source)
  | e => e

/-- The error comes from the host. -/
def KeywordError.isOfHost : KeywordError → Bool
  | .host _ => true
  | _ => false

theorem readDeclaration_eq_ok {dsl source : String} {tree : Script.Block}
    (hparse : Script.parse source = .ok tree) (hname : isBlankText dsl = false) :
    readDeclaration dsl source = .ok tree := by
  simp only [readDeclaration, checkLanguageName, hparse, hname]
  rfl

namespace Registry

open Step

variable {τ : Type} {dsl : String} {others : List Entry} {scope : List Keyword.Id}

/-- No keyword of the language is registered. -/
def Lacks (dsl : String) (r : Registry τ) : Prop :=
  ∀ entry ∈ r.entries, entry.isIn dsl = false

/-- What stands beside the language: the entries that do not belong to it, in their order, and the
scope stack. -/
structure Aside (dsl : String) (others : List Entry) (scope : List Keyword.Id) (r : Registry τ) :
    Prop where
  distinct : r.Distinct
  others_eq : (r.without (·.isIn dsl)).entries = others
  scope_eq : r.scope = scope

/-- What is registered by a grammar belongs to its language. -/
theorem grows_aside : Grows (τ := τ) dsl fun _ => Aside dsl others scope where
  bindings _ _ _ hr := ⟨hr.distinct, hr.others_eq, hr.scope_eq⟩
  up _ _ _ hr := hr
  nextId _ _ hr := ⟨hr.distinct, hr.others_eq, hr.scope_eq⟩
  add way keyword r hr _ _ hfresh _ _ := by
    refine ⟨Distinct.concat (r := { r with nextId := r.nextId + 1 }) hr.distinct hfresh, ?_,
      hr.scope_eq⟩
    have hin : (!(r.nextEntry dsl way keyword).isIn dsl) = false :=
      congrArg not (sameName_refl dsl)
    show (r.entries ++ [r.nextEntry dsl way keyword]).filter (!Entry.isIn · dsl) = others
    rw [List.filter_append, List.filter_cons_of_neg (Bool.not_eq_true _ ▸ hin), List.filter_nil,
      List.append_nil]
    exact hr.others_eq

/-- To locate errors makes no difference to the state. -/
theorem run_locatedIn {α : Type} (source : String) (action : Action τ α) (r : Registry τ) :
    (locatedIn source action).run r =
      ((action.run r).1.mapError (·.locatedIn source), (action.run r).2) := by
  rw [locatedIn, run_tryCatch]
  rcases action.run r with ⟨e | _, _⟩
  · cases e <;> rfl
  · rfl

variable [BindingTable τ]

/-- Whether its removal succeeds or not, the language is gone, and nothing else. -/
theorem meets_removeDsl :
    Meets (Aside (τ := τ) dsl others scope) (removeDsl dsl)
      (fun _ r => r.Aside dsl others scope ∧ r.Lacks dsl)
      fun _ r => r.Aside dsl others scope ∧ r.Lacks dsl := by
  refine Meets.of_run fun r hr => ?_
  obtain ⟨t, hrun⟩ := run_removeDsl hr.distinct dsl
  rw [hrun]
  have hgone : Lacks dsl ((r.without (·.isIn dsl)).withBindings t) :=
    fun entry he => (mem_without.1 he).2
  refine ⟨⟨hr.distinct.without _, ?_, hr.scope_eq⟩, hgone⟩
  rw [without_of_forall hgone]
  exact hr.others_eq

section Declare

variable (output : OutputConfig) (findType : String → Option HostType) (tree : Script.Block)
  (module? : Option String) (r : Registry τ)

/-- A tree that is not accepted changes nothing. -/
theorem run_declare_rejected {e : SyntaxError}
    (hcheck : Grammar.check (r.rules output dsl) findType none tree = .error e) :
    (declare output findType dsl tree module?).run r = (.error (.grammar e), r) := by
  rw [declare, run_bind_ok (run_get r)]
  simp only [hcheck]
  rfl

/-- The declaration of an accepted tree may fail when the former keywords are removed, at any new
keyword, and again when these are removed. In any case no keyword is left. -/
theorem meets_declare (hr : r.Aside dsl others scope) {g : Grammar}
    (hcheck : Grammar.check (r.rules output dsl) findType none tree = .ok g) :
    Meets (· = r) (declare output findType dsl tree module?) (fun _ => Aside dsl others scope)
      fun _ r => r.Aside dsl others scope ∧ r.Lacks dsl := by
  have hgrows : Grows (τ := τ) ({ dsl, module? } : Forest).dsl fun _ => Aside dsl others scope :=
    grows_aside
  refine meets_declare_of hcheck (meets_removeDsl.conseq (fun _ hs => hs ▸ hr)
    (fun _ _ hs => hs.1) fun _ _ hs => hs) ?_ meets_removeDsl
  exact hgrows.keeps_grammar [] g (Grammar.check_accepted hcheck).1

end Declare

end Registry

namespace Session

open Registry

variable {τ ω : Type}

/-- A host whose bodies are programs finds the types of its table. -/
theorem findType_native (host : NativeHost τ ω) (config : Config) :
    findType { host := host.toHost, config } = host.types.find? := by
  funext token
  unfold findType NativeHost.toHost NativeHost.resolveType
  dsimp only
  generalize host.types.find? token = type?
  cases type? <;> rfl

variable [BindingTable τ] (session : Session τ ω)

/-- Why a declaration is turned down before anything has changed, and the error: the source cannot
be read, the language has no name, the registry is in use, or the tree is not accepted. -/
inductive Rejected (held : Hold) (dsl source : String) (r : Registry τ) : KeywordError → Prop where
  | unreadable {e : SyntaxError} (hparse : Script.parse source = .error e) :
      Rejected held dsl source r (.grammar e)
  | nameless {tree : Script.Block} (hparse : Script.parse source = .ok tree)
      (hblank : isBlankText dsl = true) :
      Rejected held dsl source r (.invalidArgument "" .blankLanguage)
  | inUse {tree : Script.Block} (hparse : Script.parse source = .ok tree)
      (hname : isBlankText dsl = false) (hheld : held ≠ .free) :
      Rejected held dsl source r (.invalidState .inUse)
  | invalid {tree : Script.Block} {e : SyntaxError} (hparse : Script.parse source = .ok tree)
      (hname : isBlankText dsl = false) (hheld : held = .free)
      (hcheck : Grammar.check (r.rules session.config.output dsl) session.findType none tree =
        .error e) :
      Rejected held dsl source r (.grammar (e.locate source))

variable {session} {held : Hold} {dsl source : String} {state : State τ ω}

theorem Rejected.run_declare {e : KeywordError}
    (h : session.Rejected held dsl source state.registry e) (module? : Option String) :
    (session.declare held dsl source module?).run state = some (.error e, state) := by
  unfold declare
  cases h with
  | unreadable hparse =>
    simp only [readDeclaration, hparse]
    rfl
  | nameless hparse hblank =>
    simp only [readDeclaration, checkLanguageName, hparse, hblank]
    rfl
  | inUse hparse hname hheld =>
    simp only [readDeclaration_eq_ok hparse hname]
    cases held with
    | free => exact absurd rfl hheld
    | shared => rfl
    | exclusive => rfl
  | invalid hparse hname hheld hcheck =>
    simp only [readDeclaration_eq_ok hparse hname, hheld, change]
    rw [Run.run_onRegistry, run_locatedIn, run_declare_rejected _ _ _ _ _ hcheck]
    rfl

/-- A declaration that is not turned down is carried out on the registry. -/
theorem run_declare_accepted (h : ∀ e, ¬ session.Rejected held dsl source state.registry e)
    (module? : Option String) :
    ∃ tree g, (Script.parse source = .ok tree ∧ isBlankText dsl = false ∧ held = .free) ∧
      Grammar.check (state.registry.rules session.config.output dsl) session.findType none tree =
        .ok g ∧
      (session.declare held dsl source module?).run state =
        (Run.onRegistry (locatedIn source (Registry.declare session.config.output
          session.findType dsl tree module?))).run state := by
  rcases hparse : Script.parse source with e | tree
  · exact absurd (.unreadable hparse) (h _)
  rcases hname : isBlankText dsl with _ | _
  · have hheld : held = .free := Decidable.byContradiction fun hheld =>
      h _ (.inUse hparse hname hheld)
    rcases hcheck : Grammar.check (state.registry.rules session.config.output dsl)
      session.findType none tree with e | g
    · exact absurd (.invalid hparse hname hheld hcheck) (h _)
    · refine ⟨tree, g, ⟨rfl, rfl, hheld⟩, hcheck, ?_⟩
      unfold declare
      simp only [readDeclaration_eq_ok hparse hname, hheld, change]
  · exact absurd (.nameless hparse hname) (h _)

/-- A declaration leaves all other keywords and the scope stack as they were. If it is turned down,
nothing at all has changed; if it fails otherwise, no keyword of the language is left. -/
theorem declare_atomic (held : Hold) (dsl source : String) (module? : Option String)
    (state : State τ ω) (h : state.registry.Edited) :
    ∃ outcome state', (session.declare held dsl source module?).run state =
        some (outcome, state') ∧
      (state'.registry.without (·.isIn dsl)).entries =
        (state.registry.without (·.isIn dsl)).entries ∧
      state'.registry.scope = state.registry.scope ∧
      (∀ e, session.Rejected held dsl source state.registry e →
        outcome = .error e ∧ state' = state) ∧
      ∀ e, outcome = .error e →
        session.Rejected held dsl source state.registry e ∨ state'.registry.Lacks dsl := by
  by_cases hrejected : ∃ e, session.Rejected held dsl source state.registry e
  · obtain ⟨e, hrejected⟩ := hrejected
    have hrun : ∀ {e}, session.Rejected held dsl source state.registry e →
        (session.declare held dsl source module?).run state = some (.error e, state) :=
      fun h => h.run_declare module?
    refine ⟨_, _, hrun hrejected, rfl, rfl, fun e' he' => ⟨?_, rfl⟩, ?_⟩
    · exact congrArg Prod.fst (Option.some.inj ((hrun hrejected).symm.trans (hrun he')))
    · rintro _ ⟨⟩
      exact .inl hrejected
  · have haccepted := not_exists.1 hrejected
    obtain ⟨tree, g, -, hcheck, hrun⟩ := run_declare_accepted haccepted module?
    have hend := meets_declare session.config.output session.findType tree module? state.registry
      ⟨h.sound.distinct, rfl, rfl⟩ hcheck state.registry rfl
    rw [hrun, Run.run_onRegistry, run_locatedIn]
    refine ⟨_, _, rfl, ?_⟩
    rcases hdeclare : (Registry.declare session.config.output session.findType dsl tree
      module?).run state.registry with ⟨e | roots, r⟩ <;> rw [hdeclare] at hend
    · exact ⟨hend.1.others_eq, hend.1.scope_eq, fun e he => absurd he (haccepted e),
        fun _ _ => .inr hend.2⟩
    · exact ⟨hend.others_eq, hend.scope_eq, fun e he => absurd he (haccepted e),
        fun _ he => by cases he⟩

/-- A registry with one keyword over a table that refuses to bind the name `Post`. -/
def sampleRefusing : Registry (RefusingTable LayeredTable) :=
  let start : Registry (RefusingTable LayeredTable) :=
    .ofConfig {} { table := {}, refusedBinds := ["Post"] }
  ((registerMember "print" { id := ⟨1⟩, name := "Doc" } none "Doc").run (allocate.run start).2).2

theorem sampleRefusing_edited : sampleRefusing.Edited :=
  ((Edited.empty {} _).edit (.allocate ..)).edit (.registerMember ..)

/-- The name of the second root is refused when the first one is registered already. -/
theorem declare_atomic_sample :
    let session : Session (RefusingTable LayeredTable) Unit :=
      { host := { resolveType := fun token => .ok ⟨token⟩, execute := fun _ _ => .finish (.ok []) } }
    let state : State (RefusingTable LayeredTable) Unit := { registry := sampleRefusing }
    let source := "Page { string Title }; Post { string Title }"
    sampleRefusing.Edited ∧ sampleRefusing.entries.length = 1 ∧
      ∃ error state', (session.declare .free "web" source none).run state =
          some (.error error, state') ∧ error.isOfHost = true ∧
        (state'.registry.without (·.isIn "web")).entries =
          (sampleRefusing.without (·.isIn "web")).entries ∧
        state'.registry.Lacks "web" := by
  intro session state source
  obtain ⟨outcome, state', hrun, hothers, -, -, hfails⟩ :=
    session.declare_atomic .free "web" source none state sampleRefusing_edited
  have hhost : ((session.declare .free "web" source none).run state).map
      (fun result => result.1.mapError KeywordError.isOfHost) = some (.error true) := by
    decide +kernel
  rw [hrun, Option.map_some, Option.some.injEq] at hhost
  cases outcome with
  | ok roots => cases hhost
  | error error =>
    have hhost : error.isOfHost = true := Except.error.inj hhost
    refine ⟨sampleRefusing_edited, by decide +kernel, error, state', hrun, hhost, hothers, ?_⟩
    -- What is turned down at once is turned down by the session, not by the host.
    have hlate : ¬ session.Rejected .free "web" source state.registry error := by
      intro h
      cases h <;> cases hhost
    exact (hfails error rfl).resolve_left hlate

end Session
end KeywordScope
