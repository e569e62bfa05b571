import KeywordScope.Grammar.Check
import KeywordScope.Proofs.Step

/-!
# Accepted grammars

What the check of a script guarantees of the grammar that it answers with.

* `Grammar.Proper`: names consist of letters, the names of one block are distinct up to case, and
  the block of each keyword declares something.
* `Grammar.check_accepted`: the check answers with proper grammars only. A block that is not empty
  declares something, and a whole script declares no properties.
-/

namespace KeywordScope

/-- The block declares something. -/
def Grammar.Declares (grammar : Grammar) : Prop :=
  grammar.keywordDecls ≠ [] ∨ grammar.propertyDecls ≠ []

mutual

/-- The keyword has a name, and its block declares something proper. -/
def KeywordDecl.Proper : KeywordDecl → Prop
  | .mk name _ body _ => isKeywordName name = true ∧ body.Declares ∧ body.Proper

/-- All declarations of the block are proper. -/
def Grammar.Proper : Grammar → Prop
  | .keywords decls _ => Grammar.AllProper decls
  | .properties decls _ => decls ≠ []

/-- The keywords are proper, and no two of them have one name. -/
def Grammar.AllProper : List KeywordDecl → Prop
  | [] => True
  | decl :: decls =>
    decl.Proper ∧ (∀ other ∈ decls, ¬ sameName decl.name other.name = true) ∧
      Grammar.AllProper decls

end

namespace Grammar

theorem allProper_concat {decls : List KeywordDecl} {decl : KeywordDecl} (h : AllProper decls)
    (hd : decl.Proper) (hn : ∀ other ∈ decls, ¬ sameName other.name decl.name = true) :
    AllProper (decls ++ [decl]) := by
  induction decls with
  | nil => exact ⟨hd, by simp, trivial⟩
  | cons first rest ih =>
    obtain ⟨hfirst, hnames, hrest⟩ := h
    refine ⟨hfirst, ?_, ih hrest fun other ho => hn other (List.mem_cons_of_mem _ ho)⟩
    intro other ho
    rcases List.mem_append.1 ho with ho | ho
    · exact hnames other ho
    · rw [List.mem_singleton.1 ho]
      exact hn first List.mem_cons_self

end Grammar

open Step Script

/-! ## One declaration -/

theorem except_bind_ok {ε α β : Type} {x : Except ε α} {f : α → Except ε β} {b : β} :
    x >>= f = .ok b ↔ ∃ a, x = .ok a ∧ f a = .ok b := by
  cases x <;> simp [bind, Except.bind]

theorem refuse_ok {ε α β : Type} {c : Prop} [Decidable c] {e : ε} {x : Except ε α}
    {f : β → Except ε α} {a : α} :
    (if c then throw e >>= f else x) = .ok a ↔ ¬ c ∧ x = .ok a := by
  by_cases h : c
  · simp [h, throw, throwThe, MonadExceptOf.throw, bind, Except.bind]
  · simp [h]

/-- When the check of a keyword declaration succeeds. -/
theorem checkKeyword_iff {rules : Rules} {parent? : Option String} {keywords : List KeywordDecl}
    {properties : List PropertyDecl} {command : Command} {name : Element} {mode? : Option Element}
    {body : Block} {mode : NameMode} :
    checkKeyword rules parent? keywords properties command name mode? body = .ok mode ↔
      body.isEmpty = false ∧ (∀ e ∈ name :: mode?.toList, e.isLiteral = true) ∧ properties = [] ∧
        isKeywordName name.text = true ∧
        (∀ parent ∈ parent?, ¬ sameName parent name.text = true) ∧
        (parent? = none → ∀ binding ∈ rules.lookup name.text,
          binding.pointsTo rules.dispatcher = true) ∧
        nameModeOf command mode? = .ok mode ∧
        ∀ other ∈ keywords, ¬ sameName other.name name.text = true := by
  -- What is left when the name is known to fit in its place.
  have hrest : (do
        let mode ← nameModeOf command mode?
        if keywords.any fun decl => sameName decl.name name.text then
          throw (command.refuse .duplicateKeyword)
        return mode : Except SyntaxError NameMode) = .ok mode ↔
      nameModeOf command mode? = .ok mode ∧
        ∀ other ∈ keywords, ¬ sameName other.name name.text = true := by
    simp only [except_bind_ok, refuse_ok, List.any_eq_true, not_exists, not_and]
    constructor
    · rintro ⟨_, hmode, hfresh, same⟩
      cases same
      exact ⟨hmode, hfresh⟩
    · rintro ⟨hmode, hfresh⟩
      exact ⟨mode, hmode, hfresh, rfl⟩
  unfold checkKeyword
  cases parent? with
  | none =>
    simp only [refuse_ok, hrest]
    simp [Option.any_eq_true]
  | some parent =>
    simp only [refuse_ok, hrest]
    simp

/-- When the check of a property declaration succeeds. -/
theorem checkProperty_iff {rules : Rules} {parent? : Option String} {keywords : List KeywordDecl}
    {properties : List PropertyDecl} {command : Command} {typeWord name : Element}
    {type? : Option HostType} {decl : PropertyDecl} :
    checkProperty rules parent? keywords properties command typeWord name type? = .ok decl ↔
      type? = some decl.property.type ∧
        propertyName? name.text = some (decl.property.name, decl.property.required) ∧
        (∀ field ∈ rules.reserved, ¬ sameName field decl.property.name = true) ∧
        keywords = [] ∧ parent? ≠ none ∧
        (∀ other ∈ properties, ¬ sameName other.property.name decl.property.name = true) ∧
        decl.span = command.span := by
  unfold checkProperty
  cases type? with
  | none => exact ⟨nofun, nofun⟩
  | some type =>
  cases hname : propertyName? name.text with
  | none => exact ⟨nofun, nofun⟩
  | some found =>
  obtain ⟨found, required⟩ := found
  cases hreserved : rules.reserved.find? (sameName · found) with
  | some field =>
    refine ⟨fun h => ?_, ?_⟩
    · simp only [hreserved] at h
      cases h
    rintro ⟨-, hsame, hfree, -⟩
    obtain ⟨rfl, -⟩ := Prod.mk.inj (Option.some.inj hsame)
    exact absurd (List.find?_some hreserved) (hfree field (List.mem_of_find?_eq_some hreserved))
  | none =>
    simp only [refuse_ok, hreserved]
    obtain ⟨⟨_, _, _⟩, _⟩ := decl
    rw [List.find?_eq_none] at hreserved
    simp only [pure, Except.pure, Except.ok.injEq, PropertyDecl.mk.injEq, Property.mk.injEq,
      Option.some.injEq, Prod.mk.injEq]
    constructor
    · rintro ⟨hkeywords, hparent, hfresh, ⟨rfl, rfl, rfl⟩, rfl⟩
      refine ⟨rfl, ⟨rfl, rfl⟩, hreserved, by simpa using hkeywords, by simpa using hparent, ?_, rfl⟩
      simpa using hfresh
    · rintro ⟨rfl, ⟨rfl, rfl⟩, -, hkeywords, hparent, hfresh, rfl⟩
      refine ⟨by simpa using hkeywords, by simpa using hparent, ?_, ⟨rfl, rfl, rfl⟩, rfl⟩
      simpa using hfresh

theorem meets_lift {σ α : Type} (x : Except SyntaxError α) :
    Meets (fun _ => True) (liftM x : Check σ α) (fun a _ => x = .ok a) fun _ _ => True := by
  intro s _
  cases x with
  | error e => trivial
  | ok a => rfl

/-! ## Blocks -/

/-- What the check of a block below `parent?` guarantees. -/
def Accepted (parent? : Option String) (block : Block) (grammar : Grammar) : Prop :=
  grammar.Proper ∧ (block.isEmpty = false → grammar.Declares) ∧
    (parent? = none → grammar.propertyDecls = [])

/-- What holds of the declarations of a block so far. They are all of one kind. -/
structure AcceptedSoFar (parent? : Option String) (keywords : List KeywordDecl)
    (properties : List PropertyDecl) : Prop where
  proper : Grammar.AllProper keywords
  one_kind : keywords = [] ∨ properties = []
  below : properties ≠ [] → parent? ≠ none

theorem AcceptedSoFar.keyword {parent? : Option String} {keywords : List KeywordDecl}
    {properties : List PropertyDecl} (h : AcceptedSoFar parent? keywords properties)
    {decl : KeywordDecl} (hd : decl.Proper) (hp : properties = [])
    (hn : ∀ other ∈ keywords, ¬ sameName other.name decl.name = true) :
    AcceptedSoFar parent? (keywords ++ [decl]) properties :=
  ⟨Grammar.allProper_concat h.proper hd hn, .inr hp, h.below⟩

theorem AcceptedSoFar.property {parent? : Option String} {keywords : List KeywordDecl}
    {properties : List PropertyDecl} (h : AcceptedSoFar parent? keywords properties)
    (decl : PropertyDecl) (hk : keywords = []) (hp : parent? ≠ none) :
    AcceptedSoFar parent? keywords (properties ++ [decl]) :=
  ⟨h.proper, .inl hk, fun _ => hp⟩

/-- The grammar of a block whose declarations are accepted. -/
theorem AcceptedSoFar.grammar {parent? : Option String} {keywords : List KeywordDecl}
    {properties : List PropertyDecl} (h : AcceptedSoFar parent? keywords properties)
    {block : Block} (hlen : block.statements.length = keywords.length + properties.length)
    (hb : block.begin? = none) (hp : block.process? = none) :
    Accepted parent? block (if properties.isEmpty then .keywords keywords block.span
      else .properties properties block.span) := by
  have hlong : block.isEmpty = false → 0 < keywords.length + properties.length := by
    intro hne
    rw [← hlen, List.length_pos_iff]
    simpa [Block.isEmpty, hb, hp] using hne
  cases properties with
  | nil =>
    refine ⟨h.proper, ?_, fun _ => rfl⟩
    intro hne
    exact .inl (List.length_pos_iff.1 (hlong hne))
  | cons first rest =>
    refine ⟨List.cons_ne_nil first rest, fun _ => .inr (List.cons_ne_nil first rest), ?_⟩
    intro hnone
    exact absurd hnone (h.below (List.cons_ne_nil first rest))

mutual

theorem checkBlock_accepted {σ : Type} (rules : Rules) (findType : FindType σ)
    (parent? : Option String) (block : Block) :
    Meets (fun _ => True) (checkBlock rules findType parent? block)
      (fun grammar _ => Accepted parent? block grammar) fun _ _ => True := by
  unfold checkBlock
  rcases hb : block.begin? with _ | named
  · rcases hp : block.process? with _ | named
    · refine Meets.bind (checkStatements_accepted rules findType parent? [] [] block.statements
        ⟨trivial, .inl rfl, fun h => absurd rfl h⟩) ?_
      rintro ⟨keywords, properties⟩
      refine Meets.pure ?_
      rintro _ ⟨h, hlen⟩
      exact h.grammar (by simpa using hlen) hb hp
    · exact Meets.throw fun _ _ => trivial
  · exact Meets.throw fun _ _ => trivial
termination_by sizeOf block
decreasing_by exact block.statements_lt

theorem checkStatements_accepted {σ : Type} (rules : Rules) (findType : FindType σ)
    (parent? : Option String) (keywords : List KeywordDecl) (properties : List PropertyDecl)
    (statements : List Statement) (h : AcceptedSoFar parent? keywords properties) :
    Meets (fun _ => True) (checkStatements rules findType parent? keywords properties statements)
      (fun answer _ => AcceptedSoFar parent? answer.1 answer.2 ∧
        statements.length + (keywords.length + properties.length) =
          answer.1.length + answer.2.length) fun _ _ => True := by
  rcases statements with _ | ⟨statement, statements⟩
  · unfold checkStatements
    exact Meets.pure fun _ _ => ⟨h, by simp⟩
  unfold checkStatements
  split
  · exact Meets.throw fun _ _ => trivial
  next command hcommand =>
  split
  · exact Meets.throw fun _ _ => trivial
  next name mode? body hshape =>
    have hlt := Shape.body_lt hcommand hshape
    refine Meets.bind (meets_lift _) fun mode => Meets.of_imp fun hmode => ?_
    obtain ⟨hbody, -, hproperties, hname, -, -, -, hfresh⟩ := checkKeyword_iff.1 hmode
    refine Meets.bind (checkBlock_accepted rules findType (some name.text) body)
      fun grammar => Meets.of_imp ?_
    rintro ⟨hproper, hdeclares, -⟩
    refine Meets.conseq (checkStatements_accepted rules findType parent? _ properties statements
      (h.keyword ⟨hname, hdeclares hbody, hproper⟩ hproperties hfresh)) (fun _ _ => trivial) ?_
      fun _ _ _ => trivial
    rintro answer _ ⟨haccepted, hlen⟩
    refine ⟨haccepted, ?_⟩
    simp only [List.length_append, List.length_cons, List.length_nil] at hlen ⊢
    omega
  next type name hshape =>
    refine Meets.ite (fun _ => Meets.throw fun _ _ => trivial) fun _ => ?_
    refine Meets.bind (R := fun _ _ => True) (fun _ _ => trivial) fun type? => ?_
    refine Meets.bind (meets_lift _) fun decl => Meets.of_imp fun hdecl => ?_
    obtain ⟨-, -, -, hkeywords, hparent, -⟩ := checkProperty_iff.1 hdecl
    refine Meets.conseq (checkStatements_accepted rules findType parent? keywords _ statements
      (h.property decl hkeywords hparent)) (fun _ _ => trivial) ?_ fun _ _ _ => trivial
    rintro answer _ ⟨haccepted, hlen⟩
    refine ⟨haccepted, ?_⟩
    simp only [List.length_append, List.length_cons, List.length_nil] at hlen ⊢
    omega
  · exact Meets.throw fun _ _ => trivial
termination_by sizeOf statements
decreasing_by all_goals rw [List.cons.sizeOf_spec]; omega

end

/-- What holds after the check of a block holds after that of a script. -/
theorem Grammar.check_meets {rules : Rules} {findType : String → Option HostType}
    {parent? : Option String} {block : Block} {Q : Grammar → Prop} {E : SyntaxError → Prop}
    (h : Meets (fun _ => True) (checkBlock rules (TypeCache.find findType) parent? block)
      (fun grammar _ => Q grammar) fun e _ => E e) :
    match Grammar.check rules findType parent? block with
    | .ok grammar => Q grammar
    | .error e => E e := by
  have hmeets := h [] trivial
  rw [Grammar.check]
  rcases hr : (checkBlock rules (TypeCache.find findType) parent? block).run [] with ⟨_ | _, _⟩
  all_goals
    rw [show ((checkBlock rules (TypeCache.find findType) parent? block).run.run []) = _ from hr]
    rw [hr] at hmeets
    exact hmeets

/-- What the check of a script guarantees. -/
theorem Grammar.check_accepted {rules : Rules} {findType : String → Option HostType}
    {parent? : Option String} {block : Block} {grammar : Grammar}
    (h : Grammar.check rules findType parent? block = .ok grammar) :
    Accepted parent? block grammar := by
  have hmeets := Grammar.check_meets (checkBlock_accepted rules (TypeCache.find findType) parent? block)
  rw [h] at hmeets
  exact hmeets

theorem ne_empty_of_isKeywordName {name : String} (h : isKeywordName name = true) : name ≠ "" := by
  rintro rfl
  simp [isKeywordName] at h

end KeywordScope
