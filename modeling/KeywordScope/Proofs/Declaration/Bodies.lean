import KeywordScope.Proofs.Declaration.Atomic

/-!
# Bodies of declared keywords

No keyword that is declared by a source has a property that is named like a field of its output.

* `Keyword.Body.Free`: the body declares no property of a reserved name.
* `Grammar.Bodies P`: the bodies of all keywords in a grammar satisfy `P`. Those of a grammar that
  is accepted are free (`Grammar.check_free`).
* `Registry.Bodies dsl P`: so do the bodies of all registered keywords of a language. The
  registration of a grammar keeps this (`Registry.keeps_bodies`).
* `Session.free_of_declare`: the keywords of a declared language are free.
-/

namespace KeywordScope

/-- No property of the body has a reserved name, up to case. -/
def Keyword.Body.Free (reserved : List String) (body : Keyword.Body) : Prop :=
  ∀ property ∈ body.properties, hasName reserved property.name = false

/-! ## Grammars -/

mutual

/-- The bodies of the keyword and of all below it satisfy `P`. -/
def KeywordDecl.Bodies (P : Keyword.Body → Prop) : KeywordDecl → Prop
  | .mk _ _ body _ => P body.toBody ∧ body.Bodies P

/-- The bodies of all keywords of a block satisfy `P`. -/
def Grammar.Bodies (P : Keyword.Body → Prop) : Grammar → Prop
  | .keywords decls _ => Grammar.AllBodies P decls
  | .properties _ _ => True

/-- The bodies of all keywords of several trees satisfy `P`. -/
def Grammar.AllBodies (P : Keyword.Body → Prop) : List KeywordDecl → Prop
  | [] => True
  | decl :: decls => decl.Bodies P ∧ Grammar.AllBodies P decls

end

namespace Grammar

theorem allBodies_concat {P : Keyword.Body → Prop} {decls : List KeywordDecl} {decl : KeywordDecl}
    (h : AllBodies P decls) (hd : decl.Bodies P) : AllBodies P (decls ++ [decl]) := by
  induction decls with
  | nil => exact ⟨hd, trivial⟩
  | cons first decls ih => exact ⟨h.1, ih h.2⟩

/-- The grammar of a block without reserved property names, in it or below. -/
structure FreeOf (reserved : List String) (grammar : Grammar) : Prop where
  own : ∀ property ∈ grammar.propertyList, hasName reserved property.name = false
  below : grammar.Bodies (Keyword.Body.Free reserved)

theorem FreeOf.toBody {reserved : List String} {grammar : Grammar}
    (h : grammar.FreeOf reserved) : grammar.toBody.Free reserved := by
  unfold Grammar.toBody
  split
  · exact nofun
  · exact h.own

open Step Script

/-- A property that may be declared has no reserved name. -/
theorem not_reserved_of_checkProperty {rules : Rules} {parent? : Option String}
    {keywords : List KeywordDecl} {properties : List PropertyDecl} {command : Command}
    {typeWord name : Element} {type? : Option HostType} {decl : PropertyDecl}
    (h : checkProperty rules parent? keywords properties command typeWord name type? = .ok decl) :
    hasName rules.reserved decl.property.name = false := by
  obtain ⟨-, -, hreserved, -⟩ := checkProperty_iff.1 h
  apply List.any_eq_false.2
  intro field hfield
  rw [sameName_comm]
  exact hreserved field hfield

mutual

theorem checkBlock_free {σ : Type} (rules : Rules) (findType : FindType σ)
    (parent? : Option String) (block : Block) :
    Meets (fun _ => True) (checkBlock rules findType parent? block)
      (fun grammar _ => grammar.FreeOf rules.reserved) fun _ _ => True := by
  unfold checkBlock
  rcases block.begin? with _ | named
  · rcases block.process? with _ | named
    · refine Meets.bind (checkStatements_free rules findType parent? [] [] block.statements
        trivial nofun) ?_
      rintro ⟨keywords, properties⟩
      refine Meets.pure ?_
      rintro _ ⟨hkeywords, hproperties⟩
      by_cases hempty : properties.isEmpty = true
      · rw [if_pos hempty]
        exact ⟨nofun, hkeywords⟩
      · rw [if_neg hempty]
        refine ⟨fun property hproperty => ?_, trivial⟩
        obtain ⟨decl, hdecl, rfl⟩ := List.mem_map.1 hproperty
        exact hproperties decl hdecl
    · exact Meets.throw fun _ _ => trivial
  · exact Meets.throw fun _ _ => trivial
termination_by sizeOf block
decreasing_by exact block.statements_lt

theorem checkStatements_free {σ : Type} (rules : Rules) (findType : FindType σ)
    (parent? : Option String) (keywords : List KeywordDecl) (properties : List PropertyDecl)
    (statements : List Statement) (hkeywords : AllBodies (Keyword.Body.Free rules.reserved) keywords)
    (hproperties : ∀ decl ∈ properties, hasName rules.reserved decl.property.name = false) :
    Meets (fun _ => True) (checkStatements rules findType parent? keywords properties statements)
      (fun answer _ => AllBodies (Keyword.Body.Free rules.reserved) answer.1 ∧
        ∀ decl ∈ answer.2, hasName rules.reserved decl.property.name = false) fun _ _ => True := by
  rcases statements with _ | ⟨statement, statements⟩
  · unfold checkStatements
    exact Meets.pure fun _ _ => ⟨hkeywords, hproperties⟩
  unfold checkStatements
  split
  · exact Meets.throw fun _ _ => trivial
  next command hcommand =>
  split
  · exact Meets.throw fun _ _ => trivial
  next name mode? body hshape =>
    have hlt := Shape.body_lt hcommand hshape
    refine Meets.bind (meets_lift _) fun mode => Meets.of_imp fun _ => ?_
    refine Meets.bind (checkBlock_free rules findType (some name.text) body)
      fun grammar => Meets.of_imp fun hfree => ?_
    exact checkStatements_free rules findType parent? _ properties statements
      (allBodies_concat hkeywords ⟨hfree.toBody, hfree.below⟩) hproperties
  next type name hshape =>
    refine Meets.ite (fun _ => Meets.throw fun _ _ => trivial) fun _ => ?_
    refine Meets.bind (R := fun _ _ => True) (fun _ _ => trivial) fun type? => ?_
    refine Meets.bind (meets_lift _) fun decl => Meets.of_imp fun hdecl => ?_
    refine checkStatements_free rules findType parent? keywords _ statements hkeywords ?_
    intro other hother
    rcases List.mem_append.1 hother with hother | hother
    · exact hproperties other hother
    · rw [List.mem_singleton.1 hother]
      exact not_reserved_of_checkProperty hdecl
  · exact Meets.throw fun _ _ => trivial
termination_by sizeOf statements
decreasing_by all_goals rw [List.cons.sizeOf_spec]; omega

end

theorem check_free {rules : Rules} {findType : String → Option HostType} {parent? : Option String}
    {block : Block} {grammar : Grammar}
    (h : Grammar.check rules findType parent? block = .ok grammar) :
    grammar.FreeOf rules.reserved := by
  have hmeets := check_meets (checkBlock_free rules (TypeCache.find findType) parent? block)
  rw [h] at hmeets
  exact hmeets

end Grammar

/-! ## Registries -/

namespace Registry

open Step

variable {τ : Type} {dsl : String} {P : Keyword.Body → Prop}

/-- The bodies of all registered keywords of a language satisfy `P`. -/
def Bodies (dsl : String) (P : Keyword.Body → Prop) (r : Registry τ) : Prop :=
  ∀ entry ∈ r.entries, entry.isIn dsl = true → P entry.keyword.body

theorem bindingFree_bodies : BindingFree (τ := τ) (Bodies dsl P) := fun _ _ hr => hr

theorem Lacks.bodies {r : Registry τ} (h : r.Lacks dsl) : r.Bodies dsl P := by
  intro entry hentry hin
  rw [h entry hentry] at hin
  cases hin

theorem Bodies.concat {r : Registry τ} (hr : r.Bodies dsl P) {entry : Entry}
    (hentry : P entry.keyword.body) : (r.concat entry).Bodies dsl P := by
  intro other hother hin
  rcases mem_concat.1 hother with hother | rfl
  · exact hr other hother hin
  · exact hentry

variable [BindingTable τ] {forest : Forest}

theorem keeps_registerMember_bodies (name : String) {keyword : Keyword} (hbody : P keyword.body)
    (parent? : Option Keyword.Id) (path : String) :
    Keeps (Bodies (τ := τ) dsl P) (registerMember name keyword parent? path) := by
  refine (meets_registerMember bindingFree_bodies name keyword parent? path).conseq
    (fun _ hr => hr) ?_ fun _ _ hr => hr
  rintro _ _ ⟨r, hr, -, -, -, rfl⟩
  exact hr.concat hbody

mutual

theorem keeps_decl_bodies (parent? : Option Keyword.Id) (parentPath? : Option String) :
    ∀ d : KeywordDecl, d.Bodies P → Keeps (fun s : Registry τ × List Keyword.Id => s.1.Bodies dsl P)
      (Build.decl forest parent? parentPath? d)
  | .mk name nameMode body _, ⟨hbody, hbelow⟩ => by
    unfold Build.decl
    have hstep : ∀ {α : Type} {action : Action τ α}, Keeps (Bodies dsl P) action →
        Keeps (fun s : Registry τ × List Keyword.Id => s.1.Bodies dsl P)
          (Build.onRegistry action) :=
      fun h => Build.meets_onRegistry h
    refine (hstep fun _ hr => hr).bind fun id => Keeps.get.bind fun s => ?_
    refine (hstep (keeps_registerMember_bodies _ hbody _ _)).discard.bind fun _ => ?_
    refine Keeps.bind (Keeps.modify fun _ hs => hs) fun _ => ?_
    split
    · exact (hstep (keeps_publish bindingFree_bodies _ name)).bind fun _ =>
        keeps_grammar_bodies _ _ body hbelow
    · exact keeps_grammar_bodies _ _ body hbelow

theorem keeps_grammar_bodies (parent? : Option Keyword.Id) (parentPath? : Option String) :
    ∀ g : Grammar, g.Bodies P → Keeps (fun s : Registry τ × List Keyword.Id => s.1.Bodies dsl P)
      (Build.grammar forest parent? parentPath? g)
  | .keywords ds _, h => by
    unfold Build.grammar
    exact keeps_decls_bodies parent? parentPath? ds h
  | .properties _ _, _ => by
    unfold Build.grammar
    exact Keeps.pure _

theorem keeps_decls_bodies (parent? : Option Keyword.Id) (parentPath? : Option String) :
    ∀ ds : List KeywordDecl, Grammar.AllBodies P ds →
      Keeps (fun s : Registry τ × List Keyword.Id => s.1.Bodies dsl P)
        (Build.decls forest parent? parentPath? ds)
  | [], _ => by
    unfold Build.decls
    exact Keeps.pure _
  | first :: rest, ⟨hfirst, hrest⟩ => by
    unfold Build.decls
    exact (keeps_decl_bodies parent? parentPath? first hfirst).bind fun _ =>
      keeps_decls_bodies parent? parentPath? rest hrest

end

/-- A declared language has the bodies of its grammar. -/
theorem meets_declare_bodies (output : OutputConfig) (findType : String → Option HostType)
    (tree : Script.Block) (module? : Option String) {r : Registry τ} (hd : r.Distinct)
    {g : Grammar} (hcheck : Grammar.check (r.rules output dsl) findType none tree = .ok g)
    (hg : g.Bodies P) :
    Meets (· = r) (declare output findType dsl tree module?) (fun _ => Bodies dsl P)
      fun _ _ => True := by
  refine Meets.get_bind fun s hs => ?_
  obtain rfl : s = r := hs
  simp only [hcheck]
  have hremove : Meets (· = s) (discard (removeDsl dsl)) (fun _ => Bodies dsl P)
      fun _ _ => True := by
    refine (Meets.conseq (P := Aside dsl (s.without (·.isIn dsl)).entries s.scope) meets_removeDsl
      ?_ (fun _ _ hs => hs.2.bodies) fun _ _ _ => trivial).discard
    rintro _ rfl
    exact ⟨hd, rfl, rfl⟩
  refine hremove.bind fun _ => ?_
  refine Meets.bind (R := fun _ => Bodies dsl P) (fun s hs => ?_) fun answer => ?_
  · exact (keeps_grammar_bodies none none g hg).run (s := (s, [])) hs
  · rcases answer with ⟨_ | _, _⟩
    · exact Meets.bind (R := fun _ _ => True) (fun _ _ => by split <;> trivial) fun _ =>
        Meets.throw fun _ _ => trivial
    · exact Meets.get.bind fun _ => Meets.pure fun _ hs => hs

end Registry

/-! ## Sessions -/

namespace Session

open Registry

variable {τ ω : Type} [BindingTable τ] (session : Session τ ω) {state state' : State τ ω}
  {held : Hold} {dsl source : String} {module? : Option String} {roots : List Keyword}

/-- The keywords of a language that is declared by a source have no property of a reserved name. -/
theorem free_of_declare (h : state.registry.Edited)
    (hrun : (session.declare held dsl source module?).run state = some (.ok roots, state'))
    {keyword : Keyword} (hkeyword : keyword ∈ state'.registry.members dsl) :
    keyword.body.Free session.config.output.reserved := by
  by_cases hrejected : ∃ e, session.Rejected held dsl source state.registry e
  · obtain ⟨e, hrejected⟩ := hrejected
    rw [hrejected.run_declare module?] at hrun
    cases hrun
  obtain ⟨tree, g, -, hcheck, hsame⟩ := session.run_declare_accepted
    (fun e he => hrejected ⟨e, he⟩) module?
  have hmeets := meets_declare_bodies session.config.output session.findType tree module?
    h.sound.distinct hcheck (Grammar.check_free hcheck).below state.registry rfl
  rw [hsame, Run.run_onRegistry, run_locatedIn] at hrun
  rcases hrun' : (Registry.declare session.config.output session.findType dsl tree module?).run
    state.registry with ⟨_ | _, r⟩
  · rw [hrun'] at hrun
    cases hrun
  · rw [hrun'] at hrun hmeets
    obtain ⟨-, rfl⟩ := Prod.mk.inj (Option.some.inj hrun)
    obtain ⟨entry, hentry, rfl⟩ := List.mem_map.1 hkeyword
    obtain ⟨hentry, hin⟩ := List.mem_filter.1 hentry
    exact hmeets entry hentry hin

end Session
end KeywordScope
