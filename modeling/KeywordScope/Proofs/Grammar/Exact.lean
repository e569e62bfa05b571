import KeywordScope.Proofs.Grammar.Types
import KeywordScope.Proofs.Grammar.WellFormed

/-!
# The check is exact

* `continues_keyword_iff`, `continues_property_iff`: what one statement is checked for is what it
  takes to go on with the block.
* `exactAfter_keyword`, `exactAfter_property`: the check of one statement, given that of what
  follows.
* `checkBlock_exact`: the check of a block succeeds if the block is well-formed, and only then.
* `Grammar.check_ok_iff`: a whole script is accepted just if it is well-formed, and its grammar is
  what it says.
-/

namespace KeywordScope

open Script Step

/-! ## Shapes -/

theorem Shape.commandOf_eq_ok {s : Statement} {command : Command}
    (h : Shape.commandOf s = .ok command) :
    ∃ span', s = .pipeline [.command command.elements command.span] span' := by
  unfold Shape.commandOf at h
  split at h <;> cases h
  exact ⟨_, rfl⟩

theorem Shape.ofCommand_eq_keyword {command : Command} {name : Element} {mode? : Option Element}
    {body : Block} (h : Shape.ofCommand command = .ok (.keyword name mode? body)) :
    command.elements = name :: mode?.toList ++ [.script body] := by
  unfold Shape.ofCommand at h
  split at h <;> cases h <;> assumption

theorem Shape.ofCommand_eq_property {command : Command} {type name : Element}
    (h : Shape.ofCommand command = .ok (.property type name)) :
    command.elements = [type, name] ∧ ∀ body, name ≠ .script body := by
  unfold Shape.ofCommand at h
  split at h
  all_goals cases h
  next hnot helements =>
    refine ⟨helements, ?_⟩
    rintro body rfl
    exact hnot body rfl

theorem Shape.ofCommand_keyword (name : Element) (mode? : Option Element) (body : Block)
    (span : Span) :
    Shape.ofCommand ⟨name :: mode?.toList ++ [.script body], span⟩ =
      .ok (.keyword name mode? body) := by
  cases mode? with
  | none => rfl
  | some mode => cases mode <;> rfl

theorem Shape.ofCommand_property (type : Element) {name : Element} (h : name.isLiteral = true)
    (span : Span) : Shape.ofCommand ⟨[type, name], span⟩ = .ok (.property type name) := by
  cases name <;> first | rfl | cases h

/-! ## One statement -/

section

variable {rules : Rules} {findType : String → Option HostType} {parent? : Option String}
  {statements : List Statement}

/-- The statements that go on with a block are commands of two kinds. -/
theorem Continues.shape {ks ps : List String} {s : Statement}
    (h : Continues rules findType parent? ks ps (s :: statements)) :
    ∃ command, Shape.commandOf s = .ok command ∧
      ((∃ name mode? body, Shape.ofCommand command = .ok (.keyword name mode? body)) ∨
        ∃ type name, Shape.ofCommand command = .ok (.property type name)) := by
  rcases h with ⟨-, ⟨⟩, -⟩ | ⟨-, -, ⟨literal⟩, -⟩
  · exact ⟨_, rfl, .inl ⟨_, _, _, Shape.ofCommand_keyword _ _ _ _⟩⟩
  · exact ⟨_, rfl, .inr ⟨_, _, Shape.ofCommand_property _ (literal _ (by simp)) _⟩⟩

theorem Script.Statement.declaresKeyword_iff {name : Element} {mode? : Option Element} {body : Block}
    {span span' : Span} :
    (Statement.pipeline [.command (name :: mode?.toList ++ [.script body]) span] span').DeclaresKeyword
        rules findType parent? ↔
      (∀ e ∈ name :: mode?.toList, e.isLiteral = true) ∧ Spelled Char.isAlpha name.text ∧
        (∀ parent ∈ parent?, ¬ sameName parent name.text = true) ∧
        (parent? = none → ∀ binding ∈ rules.lookup name.text,
          binding.pointsTo rules.dispatcher = true) ∧
        (∀ e ∈ mode?, sameName e.text "Name" = true ∨ sameName e.text "[Name]" = true) ∧
        body.isEmpty = false ∧ body.WellFormed rules findType (some name.text) := by
  constructor
  · generalize hs : Statement.pipeline _ _ = s
    rintro ⟨literal, spelled, notParent, bound, mode, notEmpty, wellFormed⟩
    simp only [Statement.pipeline.injEq, List.cons.injEq, Stage.command.injEq] at hs
    obtain ⟨rfl, rfl, rfl⟩ := keywordElements_inj hs.1.1.1
    exact ⟨literal, spelled, notParent, bound, mode, notEmpty, wellFormed⟩
  · rintro ⟨literal, spelled, notParent, bound, mode, notEmpty, wellFormed⟩
    exact .mk literal spelled notParent bound mode notEmpty wellFormed

theorem Script.Statement.declaresProperty_iff {elements : List Element} {span span' : Span} :
    (Statement.pipeline [.command elements span] span').DeclaresProperty rules findType ↔
      ∃ type name, elements = [type, name] ∧ (∀ e ∈ [type, name], e.isLiteral = true) ∧
        (findType type.text).isSome = true ∧ Spelled isWordChar (unbracketed name.text) ∧
        ∀ field ∈ rules.reserved, ¬ sameName field (unbracketed name.text) = true := by
  constructor
  · rintro ⟨literal, known, spelled, free⟩
    exact ⟨_, _, rfl, literal, known, spelled, free⟩
  · rintro ⟨type, name, rfl, literal, known, spelled, free⟩
    exact .mk literal known spelled free

/-- A keyword goes on with a block if the check of it succeeds and its body is well-formed. -/
theorem continues_keyword_iff {keywords : List KeywordDecl} {properties : List PropertyDecl}
    {name : Element} {mode? : Option Element} {body : Block} {span span' : Span} :
    Continues rules findType parent? (keywords.map KeywordDecl.name)
        (properties.map (·.property.name))
        (.pipeline [.command (name :: mode?.toList ++ [.script body]) span] span' :: statements) ↔
      (∃ mode, checkKeyword rules parent? keywords properties
          ⟨name :: mode?.toList ++ [.script body], span⟩ name mode? body = .ok mode) ∧
        body.WellFormed rules findType (some name.text) ∧
        Continues rules findType parent? (keywords.map KeywordDecl.name ++ [name.text])
          (properties.map (·.property.name)) statements := by
  have hproperty : ¬ (Statement.pipeline [.command (name :: mode?.toList ++ [.script body]) span]
      span').DeclaresProperty rules findType := by
    rw [Statement.declaresProperty_iff]
    rintro ⟨type, last, helements, hliteral, -⟩
    obtain rfl := eq_script_of_keywordElements helements
    cases hliteral (.script body) (by simp)
  have hword : Statement.word 0 (.pipeline [.command (name :: mode?.toList ++ [.script body]) span]
    span') = name.text := rfl
  rw [Continues, hword, Statement.declaresKeyword_iff]
  simp only [checkKeyword_iff, hproperty, isKeywordName_iff, nameModeOf_eq_ok_iff,
    ← NameMode.exists_readFrom_iff, List.map_eq_nil_iff, List.forall_mem_map]
  constructor
  · rintro (⟨hp, ⟨hliteral, hspelled, hparent, hbound, ⟨mode, hmode⟩, hbody, hinner⟩, hfresh, hmore⟩ |
      ⟨-, -, ⟨⟩, -⟩)
    exact ⟨⟨mode, hbody, hliteral, hp, hspelled, hparent, hbound, hmode, hfresh⟩, hinner, hmore⟩
  · rintro ⟨⟨mode, hbody, hliteral, hp, hspelled, hparent, hbound, hmode, hfresh⟩, hinner, hmore⟩
    exact .inl ⟨hp, ⟨hliteral, hspelled, hparent, hbound, ⟨mode, hmode⟩, hbody, hinner⟩, hfresh,
      hmore⟩

/-- A property goes on with a block if the check of it succeeds. -/
theorem continues_property_iff {keywords : List KeywordDecl} {properties : List PropertyDecl}
    {type name : Element} {span span' : Span} (hname : ∀ body, name ≠ .script body) :
    Continues rules findType parent? (keywords.map KeywordDecl.name)
        (properties.map (·.property.name))
        (.pipeline [.command [type, name] span] span' :: statements) ↔
      (type.isLiteral && name.isLiteral) = true ∧
        (∃ decl, checkProperty rules parent? keywords properties ⟨[type, name], span⟩ type name
          (findType type.text) = .ok decl) ∧
        Continues rules findType parent? (keywords.map KeywordDecl.name)
          (properties.map (·.property.name) ++ [unbracketed name.text]) statements := by
  have hkeyword : ¬ (Statement.pipeline [.command [type, name] span] span').DeclaresKeyword rules
      findType parent? := by
    generalize hs : Statement.pipeline _ _ = s
    rintro ⟨-⟩
    simp only [Statement.pipeline.injEq, List.cons.injEq, Stage.command.injEq] at hs
    exact hname _ (eq_script_of_keywordElements hs.1.1.1.symm)
  have hword : Statement.word 1 (.pipeline [.command [type, name] span] span') = name.text := rfl
  rw [Continues, hword, Statement.declaresProperty_iff]
  simp only [checkProperty_iff, hkeyword, propertyName?_eq_some_iff, List.map_eq_nil_iff,
    List.forall_mem_map]
  constructor
  · rintro (⟨-, ⟨⟩, -⟩ |
      ⟨hk, hparent, ⟨_, _, helements, hliteral, hknown, hspelled, hfree⟩, hfresh, hmore⟩)
    simp only [List.cons.injEq, and_true] at helements
    obtain ⟨rfl, rfl⟩ := helements
    obtain ⟨found, hfound⟩ := Option.isSome_iff_exists.1 hknown
    refine ⟨by simpa using hliteral, ?_, hmore⟩
    by_cases hrequired : name.text = unbracketed name.text
    · exact ⟨⟨⟨unbracketed name.text, true, found⟩, span⟩, hfound, ⟨hspelled, rfl, by simpa⟩, hfree, hk,
        hparent, hfresh, rfl⟩
    · exact ⟨⟨⟨unbracketed name.text, false, found⟩, span⟩, hfound, ⟨hspelled, rfl, by simpa⟩, hfree,
        hk, hparent, hfresh, rfl⟩
  · rintro ⟨hliteral, ⟨decl, hfound, ⟨hspelled, hdecl, -⟩, hfree, hk, hparent, hfresh, -⟩, hmore⟩
    rw [hdecl] at hfree hfresh
    refine .inr ⟨hk, hparent, ⟨type, name, rfl, by simpa using hliteral, ?_, hspelled, hfree⟩, hfresh,
      hmore⟩
    rw [hfound]
    rfl

end

/-! ## Blocks -/

/-- The declarations of a block so far are what its statements so far say. -/
def WrittenSoFar (findType : String → Option HostType) (keywords : List KeywordDecl)
    (properties : List PropertyDecl) (done : List Statement) : Prop :=
  (List.Forall₂ (KeywordDecl.WrittenIn findType) keywords done ∧ properties = []) ∨
    (keywords = [] ∧ List.Forall₂ (PropertyDecl.WrittenIn findType) properties done)

section

variable {σ : Type} {rules : Rules} {finder : FindType σ} {findType : String → Option HostType}
  {I : σ → Prop} {keywords : List KeywordDecl} {properties : List PropertyDecl}
  {done : List Statement}

theorem WrittenSoFar.keyword (h : WrittenSoFar findType keywords properties done)
    (hp : properties = []) {decl : KeywordDecl} {s : Statement} (hd : decl.WrittenIn findType s) :
    WrittenSoFar findType (keywords ++ [decl]) properties (done ++ [s]) := by
  refine .inl ⟨?_, hp⟩
  rcases h with ⟨hkeywords, -⟩ | ⟨rfl, hproperties⟩
  · exact List.rel_append hkeywords (.cons hd .nil)
  · subst hp
    cases hproperties
    exact .cons hd .nil

theorem WrittenSoFar.property (h : WrittenSoFar findType keywords properties done)
    (hk : keywords = []) {decl : PropertyDecl} {s : Statement} (hd : decl.WrittenIn findType s) :
    WrittenSoFar findType keywords (properties ++ [decl]) (done ++ [s]) := by
  refine .inr ⟨hk, ?_⟩
  rcases h with ⟨hkeywords, rfl⟩ | ⟨-, hproperties⟩
  · subst hk
    cases hkeywords
    exact .cons hd .nil
  · exact List.rel_append hproperties (.cons hd .nil)

/-- The grammar of a block whose declarations are what its statements say. -/
theorem WrittenSoFar.grammar {block : Block}
    (h : WrittenSoFar findType keywords properties block.statements) :
    (if properties.isEmpty then Grammar.keywords keywords block.span
      else .properties properties block.span).WrittenIn findType block := by
  cases properties with
  | nil =>
    refine ⟨rfl, Grammar.allWrittenIn_iff.2 ?_⟩
    rcases h with ⟨hkeywords, -⟩ | ⟨rfl, hproperties⟩
    · exact hkeywords
    · cases hstatements : block.statements with
      | nil => exact .nil
      | cons =>
        rw [hstatements] at hproperties
        cases hproperties
  | cons decl decls =>
    rcases h with ⟨-, hnone⟩ | ⟨-, hproperties⟩
    · cases hnone
    · exact ⟨rfl, List.cons_ne_nil decl decls, hproperties⟩

/-- A check that needs no state answers or fails as it is. -/
theorem meets_answer {α : Type} {x : Except SyntaxError α} {E : SyntaxError → σ → Prop}
    (hE : ∀ e, x = .error e → ∀ s, E e s) :
    Meets I (liftM x : Check σ α) (fun a s => I s ∧ x = .ok a) E := by
  intro s hs
  cases x with
  | error e => exact hE e rfl s
  | ok a => exact ⟨hs, rfl⟩

/-- The check of the statements that follow those done answers with what all of them declare if they
can go on with the block, and fails if they cannot. -/
def ExactAfter (I : σ → Prop) (rules : Rules) (findType : String → Option HostType)
    (parent? : Option String) (keywords : List KeywordDecl) (properties : List PropertyDecl)
    (done statements : List Statement) (x : Check σ (List KeywordDecl × List PropertyDecl)) : Prop :=
  Meets I x
    (fun answer s => I s ∧ Continues rules findType parent? (keywords.map KeywordDecl.name)
        (properties.map (·.property.name)) statements ∧
      WrittenSoFar findType answer.1 answer.2 (done ++ statements))
    fun _ _ => ¬ Continues rules findType parent? (keywords.map KeywordDecl.name)
      (properties.map (·.property.name)) statements

variable {parent? : Option String} {statements : List Statement} {span span' : Span}

/-- First the declaration itself is checked, then its body, then the statements that follow. -/
theorem exactAfter_keyword {name : Element} {mode? : Option Element} {body : Block} {s : Statement}
    (hs : s = .pipeline [.command (name :: mode?.toList ++ [.script body]) span] span')
    (h : WrittenSoFar findType keywords properties done)
    (hbody : Meets I (checkBlock rules finder (some name.text) body)
      (fun g s => I s ∧ body.WellFormed rules findType (some name.text) ∧ g.WrittenIn findType body)
      fun _ _ => ¬ body.WellFormed rules findType (some name.text))
    (hmore : ∀ decl : KeywordDecl, WrittenSoFar findType (keywords ++ [decl]) properties (done ++ [s]) →
      ExactAfter I rules findType parent? (keywords ++ [decl]) properties (done ++ [s]) statements
        (checkStatements rules finder parent? (keywords ++ [decl]) properties statements)) :
    ExactAfter I rules findType parent? keywords properties done (s :: statements) (do
      let mode ← checkKeyword rules parent? keywords properties
        ⟨name :: mode?.toList ++ [.script body], span⟩ name mode? body
      let grammar ← checkBlock rules finder (some name.text) body
      checkStatements rules finder parent?
        (keywords ++ [.mk name.text mode grammar span]) properties statements) := by
  subst hs
  rw [ExactAfter, continues_keyword_iff]
  refine Meets.bind (meets_answer fun _ herror _ => ?_) fun mode => Meets.and_imp fun hmode => ?_
  · rintro ⟨⟨mode, hmode⟩, -⟩
    cases herror.symm.trans hmode
  obtain ⟨-, -, hproperties, -, -, -, hread, -⟩ := checkKeyword_iff.1 hmode
  refine Meets.bind (Meets.conseq hbody (fun _ hs => hs) (fun _ _ hs => hs) ?_)
    fun grammar => Meets.and_imp fun hbody => ?_
  · rintro _ _ hnot ⟨-, hbody, -⟩
    exact hnot hbody
  have hdecl : (KeywordDecl.mk name.text mode grammar span).WrittenIn findType
      (.pipeline [.command (name :: mode?.toList ++ [.script body]) span] span') :=
    ⟨name, mode?, body, span', rfl, rfl, nameModeOf_eq_ok_iff.1 hread, hbody.2⟩
  refine Meets.conseq (hmore _ (h.keyword hproperties hdecl)) (fun _ hs => hs) ?_ ?_
  · rintro answer s ⟨hs, hmore, hwritten⟩
    rw [List.map_append] at hmore
    rw [List.append_assoc] at hwritten
    exact ⟨hs, ⟨⟨mode, hmode⟩, hbody.1, hmore⟩, hwritten⟩
  · rintro _ _ hnot ⟨-, -, hmore⟩
    rw [List.map_append] at hnot
    exact hnot hmore

/-- First the two words are checked, then the type is found, then the statements that follow are
checked. -/
theorem exactAfter_property (hfinder : Finds I finder findType) {type name : Element} {s : Statement}
    (hs : s = .pipeline [.command [type, name] span] span') (hname : ∀ body, name ≠ .script body)
    (h : WrittenSoFar findType keywords properties done)
    (hmore : ∀ decl : PropertyDecl, WrittenSoFar findType keywords (properties ++ [decl]) (done ++ [s]) →
      ExactAfter I rules findType parent? keywords (properties ++ [decl]) (done ++ [s]) statements
        (checkStatements rules finder parent? keywords (properties ++ [decl]) statements)) :
    ExactAfter I rules findType parent? keywords properties done (s :: statements) (do
      if !(type.isLiteral && name.isLiteral) then
        throw (Command.refuse ⟨[type, name], span⟩ .expression)
      let type? ← (finder type.text : StateM σ (Option HostType))
      let decl ← checkProperty rules parent? keywords properties ⟨[type, name], span⟩ type name type?
      checkStatements rules finder parent? keywords (properties ++ [decl]) statements) := by
  subst hs
  rw [ExactAfter, continues_property_iff hname]
  refine Meets.ite (fun hno => Meets.throw fun _ _ h => ?_) fun hliteral => ?_
  · rw [h.1] at hno
    cases hno
  refine Meets.bind (R := fun type? s => I s ∧ type? = findType type.text)
    (fun s hs => (hfinder type.text s hs).symm) fun type? => Meets.and_imp fun htype => ?_
  subst htype
  refine Meets.bind (meets_answer fun _ herror _ => ?_) fun decl => Meets.and_imp fun hdecl => ?_
  · rintro ⟨-, ⟨decl, hdecl⟩, -⟩
    cases herror.symm.trans hdecl
  obtain ⟨hfound, hread, -, hkeywords, -, -, hspan⟩ := checkProperty_iff.1 hdecl
  obtain ⟨-, hname', hrequired⟩ := propertyName?_eq_some_iff.1 hread
  have hwritten : decl.WrittenIn findType (.pipeline [.command [type, name] span] span') :=
    ⟨type, name, span', by rw [hspan], by simpa using hliteral, hfound, hname', hrequired⟩
  refine Meets.conseq (hmore decl (h.property hkeywords hwritten)) (fun _ hs => hs) ?_ ?_
  · rintro answer s ⟨hs, hmore, hwritten⟩
    rw [List.map_append, List.map_singleton, hname'] at hmore
    rw [List.append_assoc] at hwritten
    exact ⟨hs, ⟨by simpa using hliteral, ⟨decl, hdecl⟩, hmore⟩, hwritten⟩
  · rintro _ _ hnot ⟨-, -, hmore⟩
    rw [List.map_append, List.map_singleton, hname'] at hnot
    exact hnot hmore

mutual

/-- The check of a block succeeds if the block is well-formed, and only then. What it answers with
is what the block says. -/
theorem checkBlock_exact (hfinder : Finds I finder findType) (parent? : Option String)
    (block : Block) :
    Meets I (checkBlock rules finder parent? block)
      (fun g s => I s ∧ block.WellFormed rules findType parent? ∧ g.WrittenIn findType block)
      fun _ _ => ¬ block.WellFormed rules findType parent? := by
  unfold checkBlock
  simp only [Block.wellFormed_iff]
  rcases hb : block.begin? with _ | named
  · rcases hp : block.process? with _ | named
    · refine Meets.bind (Meets.conseq (checkStatements_exact hfinder parent? [] [] []
        block.statements (.inl ⟨.nil, rfl⟩)) (fun _ h => h) (fun _ _ h => h) ?_) ?_
      · rintro _ _ hnot ⟨-, -, h⟩
        exact hnot h
      rintro ⟨keywords, properties⟩
      refine Meets.pure ?_
      rintro s ⟨hs, hcontinues, hwritten⟩
      exact ⟨hs, ⟨rfl, rfl, hcontinues⟩, hwritten.grammar⟩
    · exact Meets.throw fun _ _ => nofun
  · exact Meets.throw fun _ _ => nofun
termination_by sizeOf block
decreasing_by exact block.statements_lt

/-- The check of the statements of a block, where some are done. -/
theorem checkStatements_exact (hfinder : Finds I finder findType) (parent? : Option String)
    (keywords : List KeywordDecl) (properties : List PropertyDecl) (done : List Statement)
    (statements : List Statement) (h : WrittenSoFar findType keywords properties done) :
    ExactAfter I rules findType parent? keywords properties done statements
      (checkStatements rules finder parent? keywords properties statements) := by
  rcases statements with _ | ⟨statement, statements⟩
  · unfold checkStatements
    exact Meets.pure fun _ hs => ⟨hs, trivial, by rwa [List.append_nil]⟩
  unfold checkStatements
  split
  · next herror =>
    refine Meets.throw fun _ _ hcontinues => ?_
    obtain ⟨_, hcommand, -⟩ := hcontinues.shape
    cases herror.symm.trans hcommand
  next command hcommand =>
  split
  · next herror =>
    refine Meets.throw fun _ _ hcontinues => ?_
    obtain ⟨_, hcommand', ⟨_, _, _, hshape⟩ | ⟨_, _, hshape⟩⟩ := hcontinues.shape
    all_goals
      obtain rfl := Except.ok.inj (hcommand.symm.trans hcommand')
      cases herror.symm.trans hshape
  next name mode? body hshape =>
    have hlt := Shape.body_lt hcommand hshape
    obtain ⟨elements, span⟩ := command
    obtain ⟨span', hstatement⟩ := Shape.commandOf_eq_ok hcommand
    obtain rfl := Shape.ofCommand_eq_keyword hshape
    exact exactAfter_keyword hstatement h (checkBlock_exact hfinder (some name.text) body)
      fun decl hdecl => checkStatements_exact hfinder parent? _ properties _ statements hdecl
  next type name hshape =>
    obtain ⟨elements, span⟩ := command
    obtain ⟨span', hstatement⟩ := Shape.commandOf_eq_ok hcommand
    obtain ⟨helements, hname⟩ := Shape.ofCommand_eq_property hshape
    obtain rfl : elements = [type, name] := helements
    exact exactAfter_property hfinder hstatement hname h
      fun decl hdecl => checkStatements_exact hfinder parent? keywords _ _ statements hdecl
  · next hshape =>
    refine Meets.throw fun _ _ hcontinues => ?_
    obtain ⟨_, hcommand', ⟨_, _, _, hshape'⟩ | ⟨_, _, hshape'⟩⟩ := hcontinues.shape
    all_goals
      obtain rfl := Except.ok.inj (hcommand.symm.trans hcommand')
      cases hshape.symm.trans hshape'
termination_by sizeOf statements
decreasing_by all_goals rw [List.cons.sizeOf_spec]; omega

end

end

/-- The check of a script, where spellings of a type do not matter: it tells what the script says if
the script is well-formed, and fails if not. -/
theorem Grammar.check_exact (rules : Rules) {findType : String → Option HostType}
    (hcase : ∀ a b, foldCase a = foldCase b → findType a = findType b) (parent? : Option String)
    (block : Block) :
    match Grammar.check rules findType parent? block with
    | .ok g => block.WellFormed rules findType parent? ∧ g.WrittenIn findType block
    | .error _ => ¬ block.WellFormed rules findType parent? := by
  have hmeets : Meets _ (checkBlock rules (TypeCache.find findType) parent? block) _ _ :=
    checkBlock_exact (TypeCache.finds hcase) parent? block
  have h := hmeets [] nofun
  rw [Grammar.check]
  rcases hrun : (checkBlock rules (TypeCache.find findType) parent? block).run [] with ⟨_ | g, cache⟩
  all_goals
    rw [hrun] at h
    rw [show ((checkBlock rules (TypeCache.find findType) parent? block).run.run []) = _ from hrun]
  · exact h
  · exact h.2

/-- A script is accepted just if it is well-formed, and its grammar is what it says. -/
theorem Grammar.check_ok_iff (rules : Rules) (types : TypeTable) (parent? : Option String)
    (block : Block) :
    ((∃ g, Grammar.check rules types.find? parent? block = .ok g) ↔
        block.WellFormed rules types.find? parent?) ∧
      ∀ g, Grammar.check rules types.find? parent? block = .ok g →
        g.WrittenIn types.find? block := by
  have h := Grammar.check_exact rules (fun _ _ => types.find?_congr) parent? block
  cases hcheck : Grammar.check rules types.find? parent? block with
  | error e =>
    rw [hcheck] at h
    exact ⟨⟨nofun, fun hb => absurd hb h⟩, nofun⟩
  | ok g =>
    rw [hcheck] at h
    refine ⟨⟨fun _ => h.1, fun _ => ⟨g, rfl⟩⟩, ?_⟩
    rintro _ ⟨⟩
    exact h.2

end KeywordScope
