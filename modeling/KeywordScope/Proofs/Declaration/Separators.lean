import KeywordScope.Proofs.Declaration.Atomic
import KeywordScope.Proofs.Declaration.Forest
import KeywordScope.Proofs.Grammar.RoundTrip

/-!
# Path separators

A separator of letters can be part of a name, so a root may be called just what the path of another
keyword is. Then the grammar is accepted, but its registration stops at the path that is taken.

* `Registry.Build.collides_decl`: where a registration stops.
* `Session.declare_start`: in a fresh session, an accepted source is declared if and only if its
  paths are distinct.
* `KeywordSketch.confusable`: keywords of which two get one path.
* `Session.declare_separated`: the separators for which that never happens.
-/

namespace KeywordScope

open KeywordTree

/-! ## Where a registration stops -/

namespace Registry

open Step

variable {τ : Type} {r : Registry τ}

namespace Build

/-- The step fails since a path of the language is taken. -/
def Collides (dsl : String) (step : Build τ Unit) (r : Registry τ) : Prop :=
  ∀ registered, ∃ path end',
    step.run (r, registered) = (.error (.invalidState (.pathTaken path dsl)), end')

theorem Collides.bind {dsl : String} {x : Build τ Unit} (h : Collides dsl x r) (y : Build τ Unit) :
    Collides dsl (x >>= fun _ => y) r := by
  intro registered
  obtain ⟨path, end', hrun⟩ := h registered
  exact ⟨path, end', run_bind_error hrun⟩

/-- After a first step, the second one fails. -/
theorem Registers.collides {dsl : String} {x y : Build τ Unit} {new : List Entry}
    (hx : Registers x r new) (hy : ∀ t, Collides dsl y ((r.grow new).withBindings t)) :
    Collides dsl (x >>= fun _ => y) r := by
  intro registered
  obtain ⟨t, registered', hrun⟩ := hx registered
  obtain ⟨path, end', hrun'⟩ := hy t registered'
  exact ⟨path, end', (run_bind_ok hrun).trans hrun'⟩

variable [BindingTable τ]

mutual

/-- A tree is registered up to the first path that is taken. -/
theorem collides_decl [BindingTable.Lenient τ] {r : Registry τ} {above : List String}
    {parent? : Option Keyword.Id} {parentPath? : Option String} (forest : Forest)
    (hr : r.Ready above parent? parentPath?) (hdistinct : PathsDistinct forest.dsl r.entries) :
    ∀ d : KeywordDecl, d.Proper →
    ¬ PathsDistinct forest.dsl (r.entries ++
      (d.tree forest r.separator above r.nextId).entries forest.dsl parent?) →
    Collides forest.dsl (decl forest parent? parentPath? d) r
  | .mk name nameMode body span, ⟨hname, _, hbody⟩, hpaths => by
    rw [KeywordDecl.tree, KeywordTree.entries] at hpaths
    intro registered
    cases hfree : r.entryAt? forest.dsl (r.separator.intercalate (above ++ [name])) with
    | some other =>
      have hbelow : pathBelow r.separator parentPath? name =
          r.separator.intercalate (above ++ [name]) := hr.path_eq name
      refine ⟨_, _, run_decl_error nameMode body span (run_registerMember_taken ?_ ?_) registered⟩
      · exact hr.parent_member
      · rw [hbelow]
        exact Option.isSome_iff_exists.2 ⟨other, hfree⟩
    | none =>
      have hentry : PathsDistinct forest.dsl (r.entries ++ [memberEntry forest.dsl
          ((KeywordDecl.mk name nameMode body span).keyword forest ⟨r.nextId⟩) parent?
            (r.separator.intercalate (above ++ [name]))]) := hdistinct.concat fun _ => hfree
      obtain ⟨t, hrun⟩ := run_decl_top forest hr (.mk name nameMode body span)
        (ne_empty_of_isKeywordName hname) hentry registered
      have hready := hr.below
        ((KeywordDecl.mk name nameMode body span).keyword forest ⟨r.nextId⟩) forest.dsl rfl
      have hbelow := collides_grammar forest (hready.withBindings t) hentry body hbody
        (by rw [entries_withBindings, entries_grow, List.append_assoc]; exact hpaths)
      obtain ⟨path, end', hrun'⟩ := hbelow (registered ++ [⟨r.nextId⟩])
      exact ⟨path, end', hrun.trans hrun'⟩

theorem collides_grammar [BindingTable.Lenient τ] {r : Registry τ} {above : List String}
    {parent? : Option Keyword.Id} {parentPath? : Option String} (forest : Forest)
    (hr : r.Ready above parent? parentPath?) (hdistinct : PathsDistinct forest.dsl r.entries) :
    ∀ g : Grammar, g.Proper →
    ¬ PathsDistinct forest.dsl (r.entries ++
      entriesAll forest.dsl parent? (g.trees forest r.separator above r.nextId)) →
    Collides forest.dsl (grammar forest parent? parentPath? g) r
  | .keywords ds _, hproper, hpaths => by
    rw [Grammar.trees] at hpaths
    unfold Build.grammar
    exact collides_decls forest hr hdistinct ds hproper hpaths
  | .properties _ _, _, hpaths => by
    rw [Grammar.trees, entriesAll, List.append_nil] at hpaths
    exact absurd hdistinct hpaths

theorem collides_decls [BindingTable.Lenient τ] {r : Registry τ} {above : List String}
    {parent? : Option Keyword.Id} {parentPath? : Option String} (forest : Forest)
    (hr : r.Ready above parent? parentPath?) (hdistinct : PathsDistinct forest.dsl r.entries) :
    ∀ ds : List KeywordDecl, Grammar.AllProper ds → ¬ PathsDistinct forest.dsl (r.entries ++ entriesAll forest.dsl parent?
      (Grammar.treesAll forest r.separator above r.nextId ds)) →
    Collides forest.dsl (decls forest parent? parentPath? ds) r
  | [], _, hpaths => by
    rw [Grammar.treesAll, entriesAll, List.append_nil] at hpaths
    exact absurd hdistinct hpaths
  | first :: rest, ⟨hfirst, _, hrest⟩, hpaths => by
    unfold Build.decls
    rw [Grammar.treesAll, entriesAll, ← List.append_assoc] at hpaths
    -- The first tree is registered, or the path is taken in it already.
    by_cases hdistinct' : PathsDistinct forest.dsl (r.entries ++
        (first.tree forest r.separator above r.nextId).entries forest.dsl parent?)
    · have hregisters := registers_decl forest hr first hfirst hdistinct'
      refine hregisters.collides fun t => ?_
      have hready :=
        hregisters.ready (lasting_issued.steady.keeps_decl forest parent? parentPath? first) hr
      rw [← first.length_entries forest r.separator above r.nextId forest.dsl parent?] at hpaths
      exact collides_decls forest (hready.withBindings t) hdistinct' rest hrest hpaths
    · exact (collides_decl forest hr hdistinct first hfirst hdistinct').bind _

end

end Build

variable [BindingTable τ] [BindingTable.Lenient τ]

/-- An accepted grammar whose paths the separator does not keep apart is not declared. -/
theorem run_declare_taken {output : OutputConfig} {findType : String → Option HostType}
    {dsl : String} {tree : Script.Block} {g : Grammar} (hr : r.Issued) (hscope : r.scope = [])
    (hnames : ∀ keyword ∈ r.standalones, BindingTable.Accepts τ keyword.name)
    (hg : Grammar.check (r.rules output dsl) findType none tree = .ok g)
    (hsep : ¬ g.Separated r.separator) (module? : Option String) :
    ∃ path s, (declare output findType dsl tree module?).run r =
      (.error (.invalidState (.pathTaken path dsl)), s) := by
  have hpaths := mt (pathsDistinct_language dsl module? g r.nextId).1 hsep
  have hremove := run_removeDsl_ok hr.distinct dsl hnames
  generalize r.removedTable dsl = t at hremove
  have hr₁ : ((r.without (·.isIn dsl)).withBindings t).Issued :=
    lasting_issued.bindings _ t (lasting_issued.without r _ hr)
  have hdistinct : PathsDistinct dsl (r.without (·.isIn dsl)).entries := by
    rw [PathsDistinct, filter_isIn_without]
    exact List.nodup_nil
  obtain ⟨path, ⟨s, registered⟩, hrun⟩ := Build.collides_grammar { dsl, module? } (hr₁.ready hscope)
    hdistinct g (Grammar.check_accepted hg).1 hpaths []
  refine ⟨path, ((removeDsl dsl).run s).2, ?_⟩
  rw [run_declare_build hg hremove, hrun]

end Registry

/-! ## Fresh sessions -/

namespace Session

variable {τ ω : Type} [BindingTable τ]

/-- The source can be read, and is accepted as the grammar. -/
def Accepts (session : Session τ ω) (r : Registry τ) (dsl source : String) (g : Grammar) : Prop :=
  ∃ tree, Script.parse source = .ok tree ∧
    Grammar.check (r.rules session.config.output dsl) session.findType none tree = .ok g

/-- What the registry answers is the answer of the session, with errors located in the source. -/
theorem run_declare_of {session : Session τ ω} {state : State τ ω} {dsl source : String}
    {tree : Script.Block} (hparse : Script.parse source = .ok tree)
    (hdsl : isBlankText dsl = false) {module? : Option String}
    {answer : Except KeywordError (List Keyword)} {r : Registry τ}
    (hrun : (Registry.declare session.config.output session.findType dsl tree module?).run
      state.registry = (answer, r)) :
    (session.declare .free dsl source module?).run state =
      some (answer.mapError (·.locatedIn source), { state with registry := r }) := by
  unfold declare
  simp only [readDeclaration_eq_ok hparse hdsl, change]
  rw [Run.run_onRegistry, Registry.run_locatedIn, hrun]

variable [BindingTable.Lenient τ]

/-- In a fresh session, an accepted source is declared if the separator keeps its paths apart.
Otherwise a path is taken, and no keyword is left. -/
theorem declare_start (session : Session τ ω) (bindings : τ) {dsl source : String}
    (hdsl : isBlankText dsl = false) (module? : Option String) {g : Grammar}
    (h : session.Accepts (session.start bindings).registry dsl source g) : ∃ answer r,
      (session.declare .free dsl source module?).run (session.start bindings) =
        some (answer, { registry := r }) ∧
      (g.Separated session.config.grammar.pathSeparator → answer = .ok (r.roots dsl) ∧
        pathsAll (r.forest dsl) =
          (g.routes []).map session.config.grammar.pathSeparator.intercalate) ∧
      (¬ g.Separated session.config.grammar.pathSeparator →
        (∃ path, answer = .error (.invalidState (.pathTaken path dsl))) ∧ r.entries = []) := by
  obtain ⟨tree, hparse, hcheck⟩ := h
  have hissued : (session.start bindings).registry.Issued :=
    (Registry.Built.empty session.config bindings).issued
  have hnames : ∀ keyword ∈ (session.start bindings).registry.standalones,
      BindingTable.Accepts τ keyword.name := nofun
  by_cases hsep : g.Separated session.config.grammar.pathSeparator
  · obtain ⟨r, hdeclare, -, -, hforest⟩ :=
      Registry.forest_declare hissued rfl hnames hcheck hsep module?
    refine ⟨_, r, run_declare_of hparse hdsl hdeclare, fun _ => ⟨rfl, ?_⟩, absurd hsep⟩
    rw [hforest]
    exact Grammar.pathsAll_trees _ _ _ _ g
  · obtain ⟨path, r, hdeclare⟩ :=
      Registry.run_declare_taken hissued rfl hnames hcheck hsep module?
    have hend := Registry.meets_declare session.config.output session.findType tree module?
      (session.start bindings).registry ⟨hissued.distinct, rfl, rfl⟩ hcheck _ rfl
    rw [hdeclare] at hend
    refine ⟨_, r, run_declare_of hparse hdsl hdeclare, fun h => absurd h hsep,
      fun _ => ⟨⟨path, rfl⟩, ?_⟩⟩
    -- The language had no keyword, and has none again.
    rw [← Registry.without_of_forall hend.2]
    exact hend.1.others_eq

end Session

/-! ## Separators of letters -/

/-- A name that is also the path of a keyword `Page` below a keyword `Site`. -/
def confusableName (separator : String) : String :=
  "Site" ++ separator ++ "Page"

/-- A keyword below another one, and one with the name that is the path of the first. -/
def KeywordSketch.confusable (separator property : String) : List KeywordSketch :=
  [.mk "Site" .noName (.keywords [.mk "Page" .noName
    (.properties [⟨"string", property, true⟩])]),
  .mk (confusableName separator) .noName (.properties [⟨"string", property, true⟩])]

section

variable {separator property : String}

theorem KeywordSketch.not_separated_confusable {findType : String → Option HostType} {g : Grammar}
    (h : (BlockSketch.keywords (KeywordSketch.confusable separator property)).DeclaredBy
      findType g) :
    ¬ g.Separated separator := by
  obtain ⟨decls, span, rfl, hdecls⟩ := h.of_keywords
  obtain ⟨site, _, hsite, hrest, rfl⟩ := List.forall₂_cons_left_iff.1 hdecls
  obtain ⟨page', _, hpage', hnone, rfl⟩ := List.forall₂_cons_left_iff.1 hrest
  obtain rfl := List.forall₂_nil_left_iff.1 hnone
  obtain ⟨_, _, rfl, hbelow⟩ := hsite.of_mk
  obtain ⟨pages, _, rfl, hpages⟩ := hbelow.of_keywords
  obtain ⟨page, _, hpage, hnone, rfl⟩ := List.forall₂_cons_left_iff.1 hpages
  obtain rfl := List.forall₂_nil_left_iff.1 hnone
  obtain ⟨_, _, rfl, hbody⟩ := hpage.of_mk
  obtain ⟨_, _, rfl, -⟩ := hbody.of_properties
  obtain ⟨_, _, rfl, hbody'⟩ := hpage'.of_mk
  obtain ⟨_, _, rfl, -⟩ := hbody'.of_properties
  simp [Grammar.Separated, Grammar.routes, Grammar.routesAll, KeywordDecl.routes, confusableName]

/-- There is a name of letters that is not reserved. -/
theorem OutputConfig.exists_free (output : OutputConfig) :
    ∃ property, Spelled Char.isAlpha property ∧
      ∀ field ∈ output.reserved, ¬ sameName field property = true := by
  -- Two fields are reserved, so one of three names is left.
  have hspelled : ∀ property ∈ ["A", "B", "C"], Spelled Char.isAlpha property := by decide +kernel
  by_contra hnone
  have htaken : ∀ property ∈ ["A", "B", "C"], foldCase output.nameField = foldCase property ∨
      foldCase output.producedByField = foldCase property := by
    intro property hp
    by_contra hfree
    refine hnone ⟨property, hspelled property hp, ?_⟩
    simpa [OutputConfig.reserved, sameName_iff, not_or] using hfree
  obtain ⟨hab, hac, hbc⟩ : foldCase "A" ≠ foldCase "B" ∧ foldCase "A" ≠ foldCase "C" ∧
      foldCase "B" ≠ foldCase "C" := by decide +kernel
  have ha := htaken "A" (by decide)
  have hb := htaken "B" (by decide)
  have hc := htaken "C" (by decide)
  grind

theorem spelled_confusableName (hsep : ∀ c ∈ separator.toList, c.isAlpha = true) :
    Spelled Char.isAlpha (confusableName separator) := by
  have hsite : Spelled Char.isAlpha "Site" := by decide +kernel
  have hpage : Spelled Char.isAlpha "Page" := by decide +kernel
  refine ⟨by simp [confusableName], fun c hc => ?_⟩
  simp only [confusableName, String.toList_append, List.mem_append] at hc
  rcases hc with (hc | hc) | hc
  · exact hsite.2 c hc
  · exact hsep c hc
  · exact hpage.2 c hc

/-- No word with a meaning of its own begins as the name does. -/
theorem confusableName_means_nothing (separator : String) :
    ∀ word ∈ Script.flowWords ++ ["begin", "process", "end"],
      ¬ sameName word (confusableName separator) = true := by
  intro word hword same
  have hwords : ∀ word ∈ Script.flowWords ++ ["begin", "process", "end"],
    (foldCase word).toList.take 4 ≠ (foldCase "Site").toList.take 4 := by decide +kernel
  have hfour : (foldCase (confusableName separator)).toList.take 4 =
      (foldCase "Site").toList.take 4 := by
    rw [confusableName, String.append_assoc, foldCase_append, String.toList_append]
    exact List.take_append_of_le_length (by decide +kernel)
  exact hwords word hword (by rw [sameName_iff.1 same, hfour])

theorem not_sameName_confusableName (separator : String) :
    ¬ sameName "Site" (confusableName separator) = true := by
  intro same
  have hlength := congrArg (fun name => name.toList.length) (sameName_iff.1 same)
  simp [toList_foldCase, confusableName] at hlength

theorem KeywordSketch.admissible_confusable (types : TypeTable) {reserved : List String}
    (hsep : ∀ c ∈ separator.toList, c.isAlpha = true) (hp : Spelled Char.isAlpha property)
    (hfree : ∀ field ∈ reserved, ¬ sameName field property = true) :
    KeywordSketch.AllAdmissible types.find? reserved none
      (KeywordSketch.confusable separator property) := by
  have hknown : types.find? "string" = some ⟨"System.String"⟩ :=
    types.find?_of_builtin (by decide +kernel)
  have hproperty : PropertySketch.Admissible types.find? reserved ⟨"string", property, true⟩ :=
    PropertySketch.admissible_of_isTypeWord (by decide +kernel) (by rw [hknown]; rfl)
      (by decide +kernel) hp hfree
  have hbody : ∀ parent, BlockSketch.Admissible types.find? reserved parent
      (.properties [⟨"string", property, true⟩]) := by
    intro parent
    simp only [BlockSketch.Admissible]
    exact ⟨List.cons_ne_nil _ _, List.forall_mem_singleton.2 hproperty, List.pairwise_singleton _ _⟩
  have hsite : (KeywordSketch.mk "Site" .noName (.keywords [.mk "Page" .noName
      (.properties [⟨"string", property, true⟩])])).Admissible types.find? reserved none := by
    simp only [KeywordSketch.Admissible, BlockSketch.Admissible, KeywordSketch.AllAdmissible]
    exact ⟨by decide +kernel, by rintro _ ⟨⟩, by decide +kernel, by decide +kernel,
      List.cons_ne_nil _ _,
      ⟨by decide +kernel, by decide +kernel, by decide +kernel, by decide +kernel, hbody "Page"⟩,
      by rintro _ ⟨⟩, trivial⟩
  have hpage : (KeywordSketch.mk (confusableName separator) .noName
      (.properties [⟨"string", property, true⟩])).Admissible types.find? reserved none := by
    have hmeaning := List.forall_mem_append.1 (confusableName_means_nothing separator)
    have hflow : hasName Script.flowWords (confusableName separator) = false := by
      rw [hasName, List.any_eq_false]
      intro word hword
      rw [sameName_comm]
      exact hmeaning.1 word hword
    simp only [KeywordSketch.Admissible]
    exact ⟨spelled_confusableName hsep, by rintro _ ⟨⟩, hflow, fun _ => hmeaning.2, hbody _⟩
  simp only [KeywordSketch.confusable, KeywordSketch.AllAdmissible]
  exact ⟨hsite, List.forall_mem_singleton.2 (not_sameName_confusableName separator), hpage,
    by rintro _ ⟨⟩, trivial⟩

end

namespace Session

variable {ω : Type}

/-- With a separator of letters, a source is accepted whose paths it does not keep apart. -/
theorem exists_confusable (host : NativeHost LayeredTable ω) (config : Config) (dsl : String)
    (hsep : ∀ c ∈ config.grammar.pathSeparator.toList, c.isAlpha = true) :
    let session : Session LayeredTable ω := { host := host.toHost, config }
    ∃ source g, session.Accepts (session.start {}).registry dsl source g ∧
      ¬ g.Separated config.grammar.pathSeparator := by
  intro session
  obtain ⟨property, hp, hfree⟩ := config.output.exists_free
  have hadmissible := KeywordSketch.admissible_confusable host.types hsep hp hfree
  have hindented : ∀ x ∈ [' '], Script.isSpacing x = true := List.forall_mem_singleton.2 rfl
  obtain ⟨block, hparse, hbegin, hprocess, hread⟩ :=
    KeywordSketch.parse_source hindented hadmissible
  obtain ⟨g, hcheck, hdeclared⟩ := KeywordSketch.check_read host.types dsl
    config.dispatcher.command config.output.reserved hadmissible hbegin hprocess hread
  refine ⟨_, g, ⟨block, hparse, ?_⟩, KeywordSketch.not_separated_confusable hdeclared⟩
  rw [findType_native]
  exact hcheck

/-- In a fresh session without bindings, a source that is accepted is declared if the separator
keeps its paths apart, up to case. Otherwise the declaration fails since a path is taken, and no
keyword is left. The paths of all such sources are kept apart just if the separator has a character
that is no letter. -/
theorem declare_separated (host : NativeHost LayeredTable ω) (config : Config) {dsl : String}
    (hdsl : isBlankText dsl = false) (module? : Option String) :
    let session : Session LayeredTable ω := { host := host.toHost, config }
    let start := session.start {}
    let separator := config.grammar.pathSeparator
    (∀ source g, session.Accepts start.registry dsl source g → ∃ answer r,
      (session.declare .free dsl source module?).run start = some (answer, { registry := r }) ∧
      (g.Separated separator → answer = .ok (r.roots dsl) ∧
        pathsAll (r.forest dsl) = (g.routes []).map separator.intercalate) ∧
      (¬ g.Separated separator →
        (∃ path, answer = .error (.invalidState (.pathTaken path dsl))) ∧ r.entries = [])) ∧
    ((∀ source g, session.Accepts start.registry dsl source g → g.Separated separator) ↔
      separator.toList.any (fun c => !c.isAlpha) = true) := by
  intro session start separator
  refine ⟨fun source g h => session.declare_start {} hdsl module? h, fun hall => ?_,
    fun hsep source g ⟨tree, hparse, hcheck⟩ => (Grammar.check_accepted hcheck).1.separated hsep⟩
  by_contra hletters
  have hletters : ∀ c ∈ separator.toList, c.isAlpha = true := by simpa using hletters
  obtain ⟨source, g, haccepts, hconfused⟩ := exists_confusable host config dsl hletters
  exact hconfused (hall source g haccepts)

theorem declare_separated_sample :
    let host : NativeHost LayeredTable Unit := {}
    let config : Config := { grammar := { pathSeparator := "x-" } }
    let session : Session LayeredTable Unit := { host := host.toHost, config }
    let source := "A \x7b B \x7b string T \x7d \x7d\nAxB \x7b string T \x7d"
    isBlankText "web" = false ∧
      ∃ g r, session.Accepts (session.start {}).registry "web" source g ∧ g.Separated "x-" ∧
        (session.declare .free "web" source none).run (session.start {}) =
          some (.ok (r.roots "web"), { registry := r }) := by
  intro host config session source
  have hdsl : isBlankText "web" = false := by decide +kernel
  obtain ⟨g, haccepts⟩ : ∃ g, session.Accepts (session.start {}).registry "web" source g := by
    have haccepted : ((Script.parse source).bind fun tree => Grammar.check
        ((session.start {}).registry.rules config.output "web") session.findType none tree).isOk =
        true := by
      decide +kernel
    rcases hparse : Script.parse source with e | tree
    · rw [hparse] at haccepted
      cases haccepted
    rw [hparse] at haccepted
    rcases hcheck : Grammar.check ((session.start {}).registry.rules config.output "web")
      session.findType none tree with e | g
    · rw [Except.bind, hcheck] at haccepted
      cases haccepted
    · exact ⟨g, tree, hparse, hcheck⟩
  obtain ⟨hdeclares, hseparates⟩ := declare_separated host config hdsl none
  have hseparated : g.Separated "x-" := hseparates.2 (by decide +kernel) source g haccepts
  obtain ⟨answer, r, hrun, hdeclared, -⟩ := hdeclares source g haccepts
  obtain ⟨rfl, -⟩ := hdeclared hseparated
  exact ⟨hdsl, g, r, haccepts, hseparated, hrun⟩

/-- Two keywords that one separator of letters gives the same path. -/
theorem declare_confused :
    let config : Config := { grammar := { pathSeparator := "x" } }
    let session : Session LayeredTable Unit :=
      { host := ({} : NativeHost LayeredTable Unit).toHost, config }
    let source := "A \x7b B \x7b string T \x7d \x7d\nAxB \x7b string T \x7d"
    (Script.parse source).toOption.map (fun tree => (Grammar.check
        ((session.start {}).registry.rules config.output "web") session.findType none tree).isOk) =
        some true ∧
      ((session.declare .free "web" source none).run (session.start {})).map (·.1.isOk) =
        some false := by
  decide +kernel

end Session
end KeywordScope
