import KeywordScope.Proofs.Declaration.Atomic
import KeywordScope.Proofs.Grammar.Conflicts
import KeywordScope.Proofs.Registry.Shadowed

/-!
# Declarations and bindings to other commands

A root whose name is bound to another command is a conflict, and is not declared. But the check sees
the binding in front only. If a language is declared again, the bindings of its names to the command
are purged first, and that may uncover a binding to another command, which then gives way.

* `Session.Reads`: what a source would declare if no name were bound.
* `Session.Takes`: a declaration takes the first binding to another command that lies behind that
  of a former member, if a root has its name.
* `Session.declare_foreign`: all other such bindings stay, whatever the outcome.
* `Session.declare_uncovers`: a binding that gives way.
-/

namespace KeywordScope
namespace Registry

open Step

variable {r : Registry LayeredTable} {name : String} {i : Nat}
  {slot? : Option (String × Binding)}

/-! ## While roots are registered -/

theorem withBindings_publish (r : Registry LayeredTable) (module name : String) :
    ∃ published, r.withBindings (BindingTable.publish r.bindings module name).2 =
      r.withBindings { r.bindings with published } := by
  refine ⟨(r.bindings.publish module name).published, congrArg r.withBindings ?_⟩
  show r.bindings.publish module name = _
  unfold LayeredTable.publish
  split <;> rfl

theorem withBindings_refused {keyword : Keyword} (h : (r.bindName keyword).1 ≠ .ok ()) :
    r.withBindings (r.bindName keyword).2 = r := by
  rcases r.bindName_layered keyword with ⟨hsame, -⟩ | ⟨hok, -⟩
  · rw [hsame]
    rfl
  · exact absurd hok h

/-- What holds of the layers goes along with the roots if the next one that is bound, or hidden,
keeps it up. -/
theorem byRoots_layered {J : List String → Registry LayeredTable → Prop}
    (hlayers : ∀ done (r : Registry LayeredTable) entries nextId published, J done r →
      J done { r with entries, nextId, bindings := { r.bindings with published } })
    (hbind : ∀ done r keyword, J done r → r.scope = [] → (r.bindName keyword).1 = .ok () →
      J (done ++ [keyword.name]) (r.withBindings (r.bindName keyword).2))
    (hhidden : ∀ done r name, J done r → r.scope ≠ [] → J (done ++ [name]) r) : ByRoots J where
  tabular done r entries nextId hr := hlayers done r entries nextId r.bindings.published hr
  publish done r module name hr := by
    obtain ⟨published, heq⟩ := r.withBindings_publish module name
    rw [heq]
    exact hlayers done r r.entries r.nextId published hr
  bind := hbind
  refused _ r keyword hr hno := by rwa [withBindings_refused hno]
  hidden := hhidden

/-- There is no binding to another command in this layer, or it is not in front, or roots are not
bound at all. -/
def Guarded (i : Nat) (name : String) (slot? : Option (String × Binding))
    (r : Registry LayeredTable) : Prop :=
  r.foreign i name = slot? ∧ (slot? = none ∨ r.Covered i name ∨ r.scope ≠ [])

theorem byRoots_guarded : ByRoots fun _ => Guarded i name slot? := by
  refine byRoots_layered (fun _ _ _ _ _ hr => hr) (fun _ r keyword hr hscope _ => ?_)
    fun _ _ _ hr _ => hr
  obtain ⟨hforeign, hnone | hcovered | hentered⟩ := hr
  · refine ⟨?_, .inl hnone⟩
    rcases r.foreign_bindName keyword i name with heq | ⟨-, -, -, hgone⟩
    · exact heq.trans hforeign
    · exact hgone.trans hnone.symm
  · exact ⟨(hcovered.foreign_bindName keyword).trans hforeign,
      .inr (.inl (hcovered.bindName keyword))⟩
  · exact absurd hscope hentered

theorem hasName_concat (done : List String) (last name : String) :
    hasName (done ++ [last]) name = (hasName done name || sameName last name) := by
  simp [hasName, sameName_comm name last]

/-- As long as no root of the name is registered, its bindings stay. -/
theorem byRoots_unnamed :
    ByRoots fun done r => hasName done name = false → r.foreign i name = slot? := by
  refine byRoots_layered (fun _ _ _ _ _ hr => hr) (fun done r keyword hr _ _ hno => ?_)
    fun done _ other hr _ hno => ?_
  · rw [hasName_concat, Bool.or_eq_false_iff] at hno
    rcases r.foreign_bindName keyword i name with heq | ⟨hnamed, -⟩
    · exact heq.trans (hr hno.1)
    · rw [Keyword.isNamed, hno.2] at hnamed
      cases hnamed
  · rw [hasName_concat, Bool.or_eq_false_iff] at hno
    exact hr hno.1

/-- The binding in front leads to the command once a root of the name is registered. -/
theorem byRoots_tops (i : Nat) (name : String) :
    ByRoots fun done r => r.scope = [] ∧ r.Tops i name (hasName done name) := by
  refine byRoots_layered
    (fun _ _ _ _ _ ⟨hscope, hhosts, htop⟩ => ⟨hscope, ⟨hhosts.inner, hhosts.free⟩, htop⟩)
    (fun done r keyword hr _ hok => ⟨hr.1, ?_⟩) fun _ _ _ hr hentered => absurd hr.1 hentered
  rw [hasName_concat]
  cases hnamed : sameName keyword.name name with
  | false =>
    rw [Bool.or_false]
    exact hr.2.bindName_of_ne hnamed
  | true =>
    rw [Bool.or_true]
    exact hr.2.bindName hnamed hok

/-! ## Declaring a language -/

theorem foreign_removeDsl (r : Registry LayeredTable) (dsl : String) (i : Nat) (name : String) :
    ((removeDsl dsl).run r).2.foreign i name = r.foreign i name :=
  (keeps_removeDsl_foreign r dsl).run (fun _ _ => rfl) i name

theorem scope_removeDsl (hd : r.Distinct) (dsl : String) :
    ((removeDsl dsl).run r).2.scope = r.scope := by
  obtain ⟨table, hrun⟩ := run_removeDsl hd dsl
  rw [hrun]
  rfl

section Declare

variable {output : OutputConfig} {findType : String → Option HostType} {dsl : String}
  {tree : Script.Block} {g : Grammar}

/-- What holds of a declaration of an accepted grammar, from what holds once the language is
removed. -/
theorem meets_declare_byRoots {J : List String → Registry LayeredTable → Prop}
    {E : Registry LayeredTable → Prop} (module? : Option String) (hJ : ByRoots J)
    (hcheck : Grammar.check (r.rules output dsl) findType none tree = .ok g)
    (hstart : J [] ((removeDsl dsl).run r).2) (hgone : E ((removeDsl dsl).run r).2)
    (hpartly : ∀ s, Partly J (g.keywordDecls.map (·.name)) s → E ((removeDsl dsl).run s).2) :
    Meets (· = r) (declare output findType dsl tree module?)
      (fun _ => J (g.keywordDecls.map (·.name))) fun _ => E := by
  refine meets_declare_of hcheck ?_ (hJ.meets_language { dsl, module? } g) (Meets.of_run hpartly)
  refine (Meets.of_run (R := fun s => J [] s ∧ E s) ?_).conseq (fun _ hs => hs) (fun _ _ hs => hs.1)
    fun _ _ hs => hs.2
  rintro _ rfl
  exact ⟨hstart, hgone⟩

/-- The declaration takes the binding of the name in this layer: a member of the former language
has the name, and a root of the new one, and the binding is the first one to another command. -/
structure Uncovers (r : Registry LayeredTable) (dsl : String) (g : Grammar) (i : Nat)
    (name : String) : Prop where
  rest : r.scope = []
  declared : hasName (g.keywordDecls.map (·.name)) name = true
  member : (r.members dsl).any (·.isNamed name) = true
  foreign : r.foreign i name ≠ none
  first : ∀ j < i, r.foreign j name = none

/-- A binding to another command is behind another one if its name is that of a root without a
conflict. -/
theorem covered_of_clear {decl : KeywordDecl} (hsame : sameName decl.name name = true)
    (hclear : (r.rules output dsl).conflicts decl.name = false)
    (hforeign : r.foreign i name ≠ none) :
    r.Covered i name := by
  obtain ⟨entry, hentry⟩ := Option.ne_none_iff_exists'.1 hforeign
  obtain ⟨hentry, hto⟩ := LayeredTable.foreign_eq_some_iff.1 hentry
  obtain ⟨k, hhosts⟩ := r.bindings.exists_hosts name
  have hheld : r.bindings.slot? k name ≠ none := by
    intro hnone
    rw [(hhosts.free hnone).2 i] at hentry
    cases hentry
  rcases Nat.lt_trichotomy k i with hlt | rfl | hlt
  · exact ⟨k, hlt, hheld⟩
  · have hlookup : BindingTable.lookup r.bindings decl.name = some entry.2 := by
      rw [BindingTable.Stacked.lookup_eq, BindingTable.Stacked.held_congr _ hsame,
        ← BindingTable.Stacked.lookup_eq]
      show r.bindings.lookup name = _
      rw [hhosts.lookup_eq, hentry]
      rfl
    have hno : !entry.2.pointsTo r.target = false := by
      have hany : ((BindingTable.lookup r.bindings decl.name).any
        fun binding => !binding.pointsTo r.target) = false := hclear
      simpa [hlookup] using hany
    rw [hto] at hno
    cases hno
  · rw [hhosts.inner i hlt] at hentry
    cases hentry

/-- A binding to another command stays if what goes along with the roots says so, however far the
registration comes. -/
theorem foreign_declare_of {J : List String → Registry LayeredTable → Prop}
    (module? : Option String) (hJ : ByRoots J)
    (hcheck : Grammar.check (r.rules output dsl) findType none tree = .ok g)
    (hstart : J [] ((removeDsl dsl).run r).2)
    (hroots : ∀ done s, done <+: g.keywordDecls.map (·.name) → J done s →
      s.foreign i name = r.foreign i name) :
    ((declare output findType dsl tree module?).run r).2.foreign i name = r.foreign i name := by
  have hend := meets_declare_byRoots (E := fun s => s.foreign i name = r.foreign i name)
    module? hJ hcheck hstart (foreign_removeDsl r dsl i name)
    (fun s ⟨done, hfront, hs⟩ => (foreign_removeDsl s dsl i name).trans (hroots done s hfront hs))
    r rfl
  rcases hrun : (declare output findType dsl tree module?).run r with ⟨_ | _, _⟩ <;>
    rw [hrun] at hend
  · exact hend
  · exact hroots _ _ List.prefix_rfl hend

/-- Another binding is in front, also once the language is removed, if the declaration does not
uncover the one to another command. -/
theorem covered_of_not_uncovers (hd : r.Distinct)
    (hclear : ∀ decl ∈ g.keywordDecls, (r.rules output dsl).conflicts decl.name = false)
    (hscope : r.scope = []) (hdeclared : hasName (g.keywordDecls.map (·.name)) name = true)
    (hforeign : r.foreign i name ≠ none) (h : ¬ r.Uncovers dsl g i name) :
    ((removeDsl dsl).run r).2.Covered i name := by
  by_cases hfirst : ∀ j < i, r.foreign j name = none
  · have hmember : (r.members dsl).any (·.isNamed name) = false := Bool.eq_false_iff.2 fun hm =>
      h ⟨hscope, hdeclared, hm, hforeign, hfirst⟩
    obtain ⟨_, hmem, same⟩ := List.any_eq_true.1 hdeclared
    obtain ⟨decl, hdecl, rfl⟩ := List.mem_map.1 hmem
    rw [sameName_comm] at same
    exact (covered_of_clear same (hclear decl hdecl) hforeign).removeDsl hd hmember
  · obtain ⟨j, hj, hheld⟩ : ∃ j < i, r.foreign j name ≠ none := by simpa using hfirst
    refine ⟨j, hj, fun hnone => hheld ?_⟩
    rw [← foreign_removeDsl r dsl j name]
    exact LayeredTable.foreign_eq_none hnone

/-- A binding to another command stays if the declaration does not uncover it. -/
theorem foreign_declare (module? : Option String) (hd : r.Distinct)
    (hcheck : Grammar.check (r.rules output dsl) findType none tree = .ok g)
    (hclear : ∀ decl ∈ g.keywordDecls, (r.rules output dsl).conflicts decl.name = false)
    (h : ¬ r.Uncovers dsl g i name) :
    ((declare output findType dsl tree module?).run r).2.foreign i name = r.foreign i name := by
  have hsame := foreign_removeDsl r dsl i name
  have hguarded (hguard : r.foreign i name = none ∨ ((removeDsl dsl).run r).2.Covered i name ∨
      ((removeDsl dsl).run r).2.scope ≠ []) :=
    foreign_declare_of module? byRoots_guarded hcheck ⟨hsame, hguard⟩
      fun _ _ _ hs => hs.1
  cases hdeclared : hasName (g.keywordDecls.map (·.name)) name with
  | false =>
    refine foreign_declare_of module? byRoots_unnamed hcheck (fun _ => hsame)
      fun done s hfront hs => hs (Bool.eq_false_iff.2 fun hdone => ?_)
    obtain ⟨other, ho, same⟩ := List.any_eq_true.1 hdone
    exact List.any_eq_false.1 hdeclared other (hfront.subset ho) same
  | true =>
    by_cases hforeign : r.foreign i name = none
    · exact hguarded (.inl hforeign)
    by_cases hscope : r.scope = []
    · exact hguarded (.inr (.inl
        (covered_of_not_uncovers hd hclear hscope hdeclared hforeign h)))
    · exact hguarded (.inr (.inr ((scope_removeDsl hd dsl).symm ▸ hscope)))

/-- A binding that the declaration uncovers gives way to that of a root. -/
theorem tops_declare (module? : Option String) (hd : r.Distinct)
    (hcheck : Grammar.check (r.rules output dsl) findType none tree = .ok g)
    (h : r.Uncovers dsl g i name) :
    Meets (· = r) (declare output findType dsl tree module?) (fun _ => Tops i name true)
      fun _ _ => True := by
  have hscope : ((removeDsl dsl).run r).2.scope = [] := (scope_removeDsl hd dsl).trans h.rest
  have hend := meets_declare_byRoots (E := fun _ => True) module? (byRoots_tops i name) hcheck
    ⟨hscope, tops_removeDsl hd h.member h.foreign h.first⟩ trivial fun _ _ => trivial
  refine hend.conseq (fun _ hs => hs) (fun _ t ht => ?_) fun _ _ _ => trivial
  rw [h.declared] at ht
  exact ht.2

theorem target_declare (r : Registry LayeredTable) (module? : Option String) :
    ((declare output findType dsl tree module?).run r).2.target = r.target := by
  have hlasting : Lasting (τ := LayeredTable) fun s => s.target = r.target :=
    { bindings := fun _ _ h => h
      entries := fun _ _ _ h => h
      without := fun _ _ h => h
      nextId := fun _ h => h
      concat := fun _ _ h _ _ _ => h }
  exact (hlasting.steady.keeps_declare output findType dsl tree module?).run rfl

end Declare
end Registry

/-! ## Sessions -/

namespace Session

open Registry

variable {ω : Type} (session : Session LayeredTable ω)

/-- The source would declare the grammar if no name were bound. -/
structure Reads (held : Hold) (dsl source : String) (r : Registry LayeredTable) (g : Grammar) :
    Prop where
  free : held = .free
  named : isBlankText dsl = false
  accepted : ∃ tree, Script.parse source = .ok tree ∧
    Grammar.check (r.rules session.config.output dsl).unbound session.findType none tree = .ok g

/-- The root of the grammar is bound to another command. -/
def conflicts (r : Registry LayeredTable) (dsl : String) (decl : KeywordDecl) : Bool :=
  (r.rules session.config.output dsl).conflicts decl.name

/-- The declaration takes the binding of a name in a layer: it declares a grammar without conflicts,
and uncovers the binding. -/
def Takes (held : Hold) (dsl source : String) (r : Registry LayeredTable) (i : Nat)
    (name : String) : Prop :=
  ∃ g, session.Reads held dsl source r g ∧
    (∀ decl ∈ g.keywordDecls, session.conflicts r dsl decl = false) ∧ r.Uncovers dsl g i name

variable {session} {held : Hold} {dsl source : String} {state : State LayeredTable ω}

theorem Reads.unique {r : Registry LayeredTable} {g g' : Grammar}
    (h : session.Reads held dsl source r g) (h' : session.Reads held dsl source r g') : g' = g := by
  obtain ⟨tree, hparse, hfree⟩ := h.accepted
  obtain ⟨tree', hparse', hfree'⟩ := h'.accepted
  obtain rfl := Except.ok.inj (hparse.symm.trans hparse')
  exact Except.ok.inj (hfree'.symm.trans hfree)

/-- The first conflict turns a declaration down. -/
theorem Reads.rejected {r : Registry LayeredTable} {g : Grammar} {decl : KeywordDecl}
    (h : session.Reads held dsl source r g)
    (hfirst : g.keywordDecls.find? (session.conflicts r dsl) = some decl) :
    ∃ e, session.Rejected held dsl source r (.grammar e) ∧
      e.fault = .bindingConflict decl.name dsl ∧ e.span = decl.span := by
  obtain ⟨hheld, hname, tree, hparse, hfree⟩ := h
  have hcheck := Grammar.check_conflict (r.rules session.config.output dsl) session.findType tree
  rw [hfree] at hcheck
  have hfirst : g.keywordDecls.find? ((r.rules session.config.output dsl).conflicts ·.name) =
    some decl := hfirst
  simp only [hfirst] at hcheck
  obtain ⟨e, hcheck, hfault, hspan⟩ := hcheck
  exact ⟨e.locate source, .invalid hparse hname hheld hcheck, hfault, hspan⟩

/-- What is not turned down has no conflicts. -/
theorem reads_of_accepted {r : Registry LayeredTable} {tree : Script.Block} {g : Grammar}
    (hparse : Script.parse source = .ok tree) (hname : isBlankText dsl = false)
    (hheld : held = .free)
    (hcheck : Grammar.check (r.rules session.config.output dsl) session.findType none tree =
      .ok g) :
    session.Reads held dsl source r g ∧
      ∀ decl ∈ g.keywordDecls, session.conflicts r dsl decl = false := by
  have hconflict := Grammar.check_conflict (r.rules session.config.output dsl) session.findType tree
  cases hfree : Grammar.check (r.rules session.config.output dsl).unbound session.findType none
    tree with
  | error e =>
    rw [hfree] at hconflict
    obtain ⟨e', he'⟩ := hconflict
    rw [hcheck] at he'
    cases he'
  | ok g' =>
    rw [hfree] at hconflict
    cases hfirst : g'.keywordDecls.find? ((r.rules session.config.output dsl).conflicts ·.name) with
    | none =>
      simp only [hfirst] at hconflict
      obtain rfl := Except.ok.inj (hcheck.symm.trans hconflict)
      refine ⟨⟨hheld, hname, tree, hparse, hfree⟩, fun decl hdecl => ?_⟩
      exact Bool.eq_false_iff.2 (List.find?_eq_none.1 hfirst decl hdecl)
    | some decl =>
      simp only [hfirst] at hconflict
      obtain ⟨e, he, -⟩ := hconflict
      rw [hcheck] at he
      cases he

/-- A declaration leaves all bindings to other commands, in every layer, but for those that it
takes; these give way if it succeeds. A root that is bound to another command is a conflict, and
nothing changes. -/
theorem declare_foreign (held : Hold) (dsl source : String) (module? : Option String)
    (state : State LayeredTable ω) (h : state.registry.Distinct) :
    ∃ outcome state', (session.declare held dsl source module?).run state =
        some (outcome, state') ∧
      state'.registry.target = state.registry.target ∧
      (∀ i name, ¬ session.Takes held dsl source state.registry i name →
        state'.registry.foreign i name = state.registry.foreign i name) ∧
      (∀ roots, outcome = .ok roots → ∀ i name,
        session.Takes held dsl source state.registry i name →
          state'.registry.Tops i name true) ∧
      ∀ g decl, session.Reads held dsl source state.registry g →
        g.keywordDecls.find? (session.conflicts state.registry dsl) = some decl →
          ∃ e, outcome = .error (.grammar e) ∧ e.fault = .bindingConflict decl.name dsl ∧
            e.span = decl.span ∧ state' = state := by
  by_cases hrejected : ∃ e, session.Rejected held dsl source state.registry e
  · obtain ⟨e, hrejected⟩ := hrejected
    refine ⟨.error e, state, hrejected.run_declare module?, rfl, fun _ _ _ => rfl, nofun,
      fun g decl hreads hfirst => ?_⟩
    obtain ⟨e', hrejected', hfault, hspan⟩ := hreads.rejected hfirst
    have hrun := (hrejected.run_declare module?).symm.trans (hrejected'.run_declare module?)
    exact ⟨e', congrArg Prod.fst (Option.some.inj hrun), hfault, hspan, rfl⟩
  · have haccepted := not_exists.1 hrejected
    obtain ⟨tree, g, ⟨hparse, hname, hheld⟩, hcheck, hrun⟩ := run_declare_accepted haccepted module?
    obtain ⟨hreads, hclear⟩ := reads_of_accepted hparse hname hheld hcheck
    rw [hrun, Run.run_onRegistry, run_locatedIn]
    refine ⟨_, _, rfl, target_declare state.registry module?, fun i name hno => ?_, ?_, ?_⟩
    · exact foreign_declare module? h hcheck hclear fun huncovers => hno ⟨g, hreads, hclear, huncovers⟩
    · rintro roots hok i name ⟨g', hreads', -, huncovers⟩
      obtain rfl := hreads.unique hreads'
      have hend := tops_declare module? h hcheck huncovers state.registry rfl
      rcases hdeclare : (Registry.declare session.config.output session.findType dsl tree
        module?).run state.registry with ⟨e | roots, r⟩ <;> rw [hdeclare] at hend hok
      · cases hok
      · exact hend
    · intro g' decl hreads' hfirst
      obtain ⟨e, hrejected', -⟩ := hreads'.rejected hfirst
      exact absurd hrejected' (haccepted _)

/-- The language `web` with the root `Page`, in front of bindings to other commands. -/
def sampleShadowed : Registry LayeredTable :=
  let start : Registry LayeredTable := .ofConfig {}
    { innermost := [("Page", { target := "Invoke-Keyword" }),
        ("Post", { target := "Invoke-Keyword" })]
      outer := [[("Page", { target := "Get-Page" }), ("post", { target := "Get-Post" })]] }
  ((registerMember "web" { id := ⟨1⟩, name := "Page" } none "Page").run (allocate.run start).2).2

theorem sampleShadowed_edited : sampleShadowed.Edited :=
  ((Edited.empty {} _).edit (.allocate ..)).edit (.registerMember ..)

/-- A host that knows every type. -/
def sampleSession : Session LayeredTable Unit where
  host := { resolveType := fun token => .ok ⟨token⟩, execute := fun _ _ => .finish (.ok []) }

/-- The name `Post` is declared, but `web` did not have it before. -/
theorem declare_foreign_sample :
    let source := "Page { string Title }; Post { string Title }"
    sampleShadowed.Distinct ∧ ∃ outcome state',
      (sampleSession.declare .free "web" source none).run { registry := sampleShadowed } =
        some (outcome, state') ∧ outcome.isOk = true ∧
      state'.registry.foreign 1 "Post" = some ("post", { target := "Get-Post" }) := by
  intro source
  have hd := sampleShadowed_edited.sound.distinct
  obtain ⟨outcome, state', hrun, -, hstays, -⟩ :=
    sampleSession.declare_foreign .free "web" source none { registry := sampleShadowed } hd
  have hok : ((sampleSession.declare .free "web" source none).run
      { registry := sampleShadowed }).map (·.1.isOk) = some true := by
    decide +kernel
  rw [hrun] at hok
  refine ⟨hd, outcome, state', hrun, Option.some.inj hok, (hstays 1 "Post" ?_).trans (by decide)⟩
  rintro ⟨g, -, -, huncovers⟩
  have hmember : (sampleShadowed.members "web").any (·.isNamed "Post") = true := huncovers.member
  revert hmember
  decide

/-- The binding of `Page` to `Get-Page` lies behind that of the root `Page`, and gives way when the
language is declared again. -/
theorem declare_uncovers :
    sampleShadowed.Edited ∧ sampleShadowed.scope = [] ∧
      sampleShadowed.foreign 1 "Page" = some ("Page", { target := "Get-Page" }) ∧
      ((sampleSession.declare .free "web" "Page { string Title }" none).run
        { registry := sampleShadowed }).map (fun result =>
          (result.1.isOk, result.2.registry.bindings.depth, result.2.registry.foreign 1 "Page")) =
        some (true, 2, none) :=
  ⟨sampleShadowed_edited, by decide, by decide, by decide +kernel⟩

end Session
end KeywordScope
