import KeywordScope.Proofs.Declaration.Building
import KeywordScope.Proofs.Invocation.Conditions
import KeywordScope.Proofs.Scope.Lifo

/-!
# The declared forest is the grammar

* `Registry.pathsDistinct_language`: the paths of a grammar are free if the separator keeps them
  apart.
* `Registry.run_declare`: then declaring a language succeeds if its grammar is accepted, and puts
  the entries of the grammar in place of those that the language had.
* `Session.declareTree_forest`: what is read back of a declared language is its grammar.
-/

namespace KeywordScope

open KeywordTree Registry Step

namespace Registry

variable {τ : Type} {r : Registry τ}

theorem filter_isIn_without (dsl : String) :
    (r.without (·.isIn dsl)).entries.filter (·.isIn dsl) = [] :=
  List.filter_eq_nil_iff.2 fun entry he => by simp [(mem_without.1 he).2]

/-- A grammar can take the place of what a language had if its paths are kept apart. -/
theorem pathsDistinct_language (dsl : String) (module? : Option String) (g : Grammar) (next : Nat) :
    PathsDistinct dsl ((r.without (·.isIn dsl)).entries ++
        entriesAll dsl none (g.trees { dsl, module? } r.separator [] next)) ↔
      g.Separated r.separator := by
  have hnew : ∀ entry ∈ entriesAll dsl none (g.trees { dsl, module? } r.separator [] next),
      entry.isIn dsl = true := by
    intro entry he
    rw [isIn_of_mem_entriesAll dsl none _ entry he, sameName_refl]
  rw [PathsDistinct, List.filter_append, filter_isIn_without, List.nil_append,
    List.filter_eq_self.2 hnew, g.separated_iff { dsl, module? } next, ← map_path_entriesAll none,
    List.map_map]
  rfl

variable [BindingTable τ] [BindingTable.Lenient τ]

section Declare

variable {output : OutputConfig} {findType : String → Option HostType} {dsl : String}
  {tree : Script.Block} {g : Grammar}

/-- An accepted grammar is registered in place of what the language had. -/
theorem run_declare (hr : r.Issued) (hscope : r.scope = [])
    (hnames : ∀ keyword ∈ r.standalones, BindingTable.Accepts τ keyword.name)
    (hg : Grammar.check (r.rules output dsl) findType none tree = .ok g)
    (hsep : g.Separated r.separator) (module? : Option String) :
    ∃ r' t, r' = ((r.without (·.isIn dsl)).grow (entriesAll dsl none
        (g.trees { dsl, module? } r.separator [] r.nextId))).withBindings t ∧
      (declare output findType dsl tree module?).run r = (.ok (r'.roots dsl), r') := by
  have hpaths := (pathsDistinct_language dsl module? g r.nextId).2 hsep
  have hremove := run_removeDsl_ok hr.distinct dsl hnames
  generalize r.removedTable dsl = t at hremove
  have hr₁ : ((r.without (·.isIn dsl)).withBindings t).Issued :=
    lasting_issued.bindings _ t (lasting_issued.without r _ hr)
  obtain ⟨t', registered, hrun⟩ := registers_language { dsl, module? }
    (Grammar.check_accepted hg).1 hr₁ hscope hpaths []
  refine ⟨_, t', rfl, ?_⟩
  rw [run_declare_build hg hremove, hrun]
  rfl

/-- What is read back of a declared language are the trees of its grammar. -/
theorem forest_declare (hr : r.Issued) (hscope : r.scope = [])
    (hnames : ∀ keyword ∈ r.standalones, BindingTable.Accepts τ keyword.name)
    (hg : Grammar.check (r.rules output dsl) findType none tree = .ok g)
    (hsep : g.Separated r.separator) (module? : Option String) :
    ∃ r', (declare output findType dsl tree module?).run r = (.ok (r'.roots dsl), r') ∧
      r'.separator = r.separator ∧ r'.roots dsl = (r'.forest dsl).map root ∧
      r'.forest dsl = g.trees { dsl, module? } r.separator [] r.nextId := by
  obtain ⟨r', t, hr', hrun⟩ := run_declare hr hscope hnames hg hsep module?
  have hissued := (lasting_issued.steady.keeps_declare output findType dsl tree module?).run hr
  rw [hrun] at hissued
  have hentries : r'.entries = (r.without (·.isIn dsl)).entries ++
      entriesAll dsl none (g.trees { dsl, module? } r.separator [] r.nextId) := by
    rw [hr']
    rfl
  have hnone : ∀ other ∈ (r.without (·.isIn dsl)).entries, other.isIn dsl = false :=
    fun other ho => (mem_without.1 ho).2
  -- What was there before stands below identities that were given out before.
  have hothers : ∀ other ∈ (r.without (·.isIn dsl)).entries, Outside other.parent?
      (entriesAll dsl none (g.trees { dsl, module? } r.separator [] r.nextId)) := by
    intro other ho entry he same
    have hold := hr.parent_lt other (mem_without.1 ho).1 entry.id same
    have hnew : entry.id.number ∈ List.range' r.nextId g.count := by
      rw [← g.map_id_entriesAll { dsl, module? } r.separator [] r.nextId dsl none]
      exact List.mem_map_of_mem he
    have hle := (List.mem_range'_1.1 hnew).1
    omega
  have hforest := forest_of_entries hissued.distinct hentries hnone hothers
  refine ⟨r', hrun, by rw [hr']; rfl, ?_, hforest⟩
  rw [hforest, roots_of_entries hentries hnone]

end Declare

end Registry

namespace Session

variable {τ ω : Type} [BindingTable τ] [BindingTable.Lenient τ]

/-- A tree whose grammar is accepted is declared in any registry, while no scope is entered. The
answer is the roots in the order of the grammar, and what is read back of the language is just the
grammar, with paths that are distinct up to case. The path separator must not be made of letters
only. The table must refuse none of the names of standalone keywords, which get their bindings back:
one without a name may be registered while the host itself binds the empty name, which the table
would not bind again. -/
theorem declareTree_forest (session : Session τ ω) {state : State τ ω}
    (hbuilt : state.registry.Built) (hscope : state.registry.scope = [])
    (hnames : ∀ keyword ∈ state.registry.standalones, BindingTable.Accepts τ keyword.name)
    (hsep : state.registry.separator.toList.any (fun c => !c.isAlpha) = true) {dsl : String}
    (hdsl : isBlankText dsl = false) {tree : Script.Block} {g : Grammar}
    (hg : Grammar.check (state.registry.rules session.config.output dsl) session.findType none
      tree = .ok g) (module? : Option String) :
    ∃ r, (session.declareTree .free dsl tree module?).run state =
        some (.ok (r.roots dsl), { state with registry := r }) ∧
      (r.roots dsl).map (·.name) = g.keywordDecls.map KeywordDecl.name ∧
      r.roots dsl = (r.forest dsl).map root ∧
      g.propertyDecls = [] ∧ Grammar.AllShown r.separator [] g.keywordDecls (r.forest dsl) ∧
      ((pathsAll (r.forest dsl)).map foldCase).Nodup := by
  obtain ⟨hproper, -, hproperties⟩ := Grammar.check_accepted hg
  have hseparated := hproper.separated hsep
  obtain ⟨r, hrun, hseparator, hroots, hforest⟩ :=
    Registry.forest_declare hbuilt.issued hscope hnames hg hseparated module?
  refine ⟨r, ?_, ?_, hroots, hproperties rfl, ?_, ?_⟩
  · rw [declareTree, checkLanguageName, hdsl]
    show (Run.onRegistry (Registry.declare session.config.output session.findType dsl tree
      module?)).run state = _
    rw [Run.run_onRegistry, hrun]
  · rw [hroots, hforest, Grammar.trees_eq, List.map_map]
    exact Grammar.map_root_treesAll _ _ _ _ _
  · rw [hseparator, hforest, Grammar.trees_eq]
    exact Grammar.allShown_treesAll _ _ _ _ _ hproper.keywordDecls
  · rw [hforest]
    exact (g.separated_iff _ _).1 hseparated

theorem declareTree_forest_sample :
    let host : Host LayeredTable Unit :=
      { resolveType := fun token => .ok ⟨token⟩, execute := fun _ _ => .finish (.ok []) }
    let session : Session LayeredTable Unit := { host }
    let registry := ((addStandalone "Log" .noName .executable none).run sample).2
    let state : State LayeredTable Unit := { registry }
    registry.Built ∧ registry.scope = [] ∧ registry.standalones.length = 1 ∧
      ∃ g r, Grammar.check (registry.rules session.config.output "web") session.findType none
          sampleTree = .ok g ∧
        (session.declareTree .free "web" sampleTree none).run state =
          some (.ok (r.roots "web"), { state with registry := r }) ∧
        Grammar.AllShown r.separator [] g.keywordDecls (r.forest "web") := by
  intro host session registry state
  have hbuilt : state.registry.Built :=
    ((Built.empty {} ({} : LayeredTable)).declare {} (fun token => some ⟨token⟩) "web" sampleTree
      none).addStandalone "Log" .noName .executable none
  have hscope : registry.scope = [] := by decide +kernel
  have hnames : ∀ keyword ∈ registry.standalones,
      BindingTable.Accepts LayeredTable keyword.name := by
    intro keyword hk
    have hne : ∀ keyword ∈ registry.standalones, keyword.name ≠ "" := by decide +kernel
    exact LayeredTable.accepts_iff.2 (hne keyword hk)
  have hsep : registry.separator.toList.any (fun c => !c.isAlpha) = true := by decide +kernel
  obtain ⟨g, hg⟩ : ∃ g, Grammar.check (registry.rules session.config.output "web")
      session.findType none sampleTree = .ok g := by
    have hok : (Grammar.check (registry.rules session.config.output "web") session.findType none
      sampleTree).toOption.isSome = true := by decide +kernel
    rcases h : Grammar.check (registry.rules session.config.output "web") session.findType none
      sampleTree with e | g
    · rw [h] at hok
      cases hok
    · exact ⟨g, rfl⟩
  obtain ⟨r, hrun, -, -, -, hshown, -⟩ := session.declareTree_forest hbuilt hscope hnames
    hsep (by decide +kernel : isBlankText "web" = false) hg none
  exact ⟨hbuilt, hscope, by decide +kernel, g, r, hg, hrun, hshown⟩

end Session

end KeywordScope
