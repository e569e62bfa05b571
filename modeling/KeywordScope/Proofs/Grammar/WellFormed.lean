import KeywordScope.Proofs.Grammar.Proper
import KeywordScope.TypeTable
import Mathlib.Data.List.Forall2

/-!
# Well-formed blocks

Which scripts are grammars, and what they say.

* `Block.WellFormed`: the block declares keywords only, or properties only, each as it should.
* `Grammar.WrittenIn`: the grammar is what the block says, in order.
* `Continues`: the statements go on with a block that declares some names already.
-/

namespace KeywordScope

open Script

/-- The text has only characters of the class, and at least one. -/
def Spelled (p : Char → Bool) (text : String) : Prop :=
  text.toList ≠ [] ∧ ∀ c ∈ text.toList, p c = true

instance (p : Char → Bool) (text : String) : Decidable (Spelled p text) :=
  decidable_of_iff ((!text.toList.isEmpty && text.toList.all p) = true) (by simp [Spelled])

/-- The text without the brackets around it, if they are there. -/
def unbracketed (text : String) : String :=
  String.ofList ((TypeTable.unbracket? text.toList).getD text.toList)

namespace Script

/-- The text at a place of the command that a statement consists of. -/
def Statement.word (i : Nat) : Statement → String
  | .pipeline [.command elements _] _ => (elements[i]?.map Element.text).getD ""
  | _ => ""

section WellFormed

variable (rules : Rules) (findType : String → Option HostType)

/-- The statement is a type and the name of a property, which may be in brackets. -/
inductive Statement.DeclaresProperty : Statement → Prop
  | mk {type name : Element} {span span' : Span}
      (literal : ∀ e ∈ [type, name], e.isLiteral = true)
      (known : (findType type.text).isSome = true)
      (spelled : Spelled isWordChar (unbracketed name.text))
      (free : ∀ field ∈ rules.reserved, ¬ sameName field (unbracketed name.text) = true) :
      DeclaresProperty (.pipeline [.command [type, name] span] span')

mutual

/-- The block is a grammar below the keyword `parent?`, or at the root. -/
inductive Block.WellFormed : Option String → Block → Prop
  /-- All statements declare keywords, with names of their own. -/
  | keywords {parent? : Option String} {block : Block} (noBegin : block.begin? = none)
      (noProcess : block.process? = none)
      (each : ∀ s ∈ block.statements, Statement.DeclaresKeyword parent? s)
      (distinct : block.statements.Pairwise fun s t => ¬ sameName (s.word 0) (t.word 0) = true) :
      Block.WellFormed parent? block
  /-- All statements declare properties, with names of their own, of a keyword. -/
  | properties {parent : String} {block : Block} (noBegin : block.begin? = none)
      (noProcess : block.process? = none)
      (each : ∀ s ∈ block.statements, Statement.DeclaresProperty rules findType s)
      (distinct : block.statements.Pairwise fun s t =>
        ¬ sameName (unbracketed (s.word 1)) (unbracketed (t.word 1)) = true) :
      Block.WellFormed (some parent) block

/-- The statement is a name, perhaps a name mode, and a body that declares something. -/
inductive Statement.DeclaresKeyword : Option String → Statement → Prop
  | mk {parent? : Option String} {name : Element} {mode? : Option Element} {body : Block}
      {span span' : Span} (literal : ∀ e ∈ name :: mode?.toList, e.isLiteral = true)
      (spelled : Spelled Char.isAlpha name.text)
      (notParent : ∀ parent ∈ parent?, ¬ sameName parent name.text = true)
      (bound : parent? = none → ∀ binding ∈ rules.lookup name.text,
        binding.pointsTo rules.dispatcher = true)
      (mode : ∀ e ∈ mode?, sameName e.text "Name" = true ∨ sameName e.text "[Name]" = true)
      (notEmpty : body.isEmpty = false) (wellFormed : Block.WellFormed (some name.text) body) :
      Statement.DeclaresKeyword parent?
        (.pipeline [.command (name :: mode?.toList ++ [.script body]) span] span')

end

end WellFormed

end Script

/-! ## What a block says -/

/-- The mode is what the middle element asks for. -/
def NameMode.ReadFrom : NameMode → Option Element → Prop
  | noName, none => True
  | optionalName, some e => sameName e.text "[Name]" = true
  | nameRequired, some e => sameName e.text "Name" = true
  | _, _ => False

/-- The statement declares the property. It is required if its name is not in brackets. -/
def PropertyDecl.WrittenIn (findType : String → Option HostType) (decl : PropertyDecl)
    (s : Statement) : Prop :=
  ∃ type name span', s = .pipeline [.command [type, name] decl.span] span' ∧
    (∀ e ∈ [type, name], e.isLiteral = true) ∧ findType type.text = some decl.property.type ∧
    decl.property.name = unbracketed name.text ∧
    (decl.property.required = true ↔ name.text = unbracketed name.text)

mutual

/-- The statement declares the keyword. -/
def KeywordDecl.WrittenIn (findType : String → Option HostType) : KeywordDecl → Statement → Prop
  | .mk name mode body span, s => ∃ word mode? block span',
    s = .pipeline [.command (word :: mode?.toList ++ [.script block]) span] span' ∧
      name = word.text ∧ mode.ReadFrom mode? ∧ body.WrittenIn findType block

/-- The block declares what the grammar says, in order. -/
def Grammar.WrittenIn (findType : String → Option HostType) : Grammar → Block → Prop
  | .keywords decls span, block =>
    span = block.span ∧ Grammar.AllWrittenIn findType decls block.statements
  | .properties decls span, block =>
    span = block.span ∧ decls ≠ [] ∧ List.Forall₂ (PropertyDecl.WrittenIn findType) decls block.statements

/-- The statements declare the keywords, in order. -/
def Grammar.AllWrittenIn (findType : String → Option HostType) :
    List KeywordDecl → List Statement → Prop
  | [], [] => True
  | decl :: decls, s :: statements =>
    decl.WrittenIn findType s ∧ Grammar.AllWrittenIn findType decls statements
  | _, _ => False

end

section

variable {rules : Rules} {findType : String → Option HostType}

theorem Grammar.allWrittenIn_iff {decls : List KeywordDecl} {statements : List Statement} :
    Grammar.AllWrittenIn findType decls statements ↔
      List.Forall₂ (KeywordDecl.WrittenIn findType) decls statements := by
  induction decls generalizing statements with
  | nil => cases statements <;> simp [Grammar.AllWrittenIn]
  | cons decl decls ih => cases statements <;> simp [Grammar.AllWrittenIn, ih]

/-! ## Elements of a keyword -/

/-- The elements tell the name, the mode and the body apart. -/
theorem keywordElements_inj {name name' : Element} {mode? mode?' : Option Element}
    {body body' : Block}
    (h : name :: mode?.toList ++ [.script body] = name' :: mode?'.toList ++ [.script body']) :
    name = name' ∧ mode? = mode?' ∧ body = body' := by
  obtain ⟨hname, hmore⟩ := List.cons.inj h
  obtain ⟨hmode, hbody⟩ := List.append_inj' hmore rfl
  exact ⟨hname, by simpa using congrArg List.head? hmode, Element.script.inj (List.cons.inj hbody).1⟩

/-- If there are two elements, the second is the body. -/
theorem eq_script_of_keywordElements {name : Element} {mode? : Option Element} {body : Block}
    {first last : Element} (h : name :: mode?.toList ++ [.script body] = [first, last]) :
    last = .script body := by
  have hlast := congrArg List.getLast? h
  simp only [List.getLast?_append, List.getLast?_singleton, List.getLast?_cons_cons,
    Option.some_or, Option.some.injEq] at hlast
  exact hlast.symm

/-! ## Names -/

theorem isKeywordName_iff {text : String} :
    isKeywordName text = true ↔ Spelled Char.isAlpha text := by
  simp [isKeywordName, Spelled]

theorem nameModeOf_eq_ok_iff {command : Command} {mode? : Option Element} {mode : NameMode} :
    nameModeOf command mode? = .ok mode ↔ mode.ReadFrom mode? := by
  cases mode? with
  | none => cases mode <;> simp [nameModeOf, NameMode.ReadFrom]
  | some e =>
    have hdiffer : sameName e.text "[Name]" = true → ¬ sameName e.text "Name" = true := by
      intro h h'
      rw [sameName_comm] at h
      exact absurd (sameName_trans h h') (by decide)
    simp only [nameModeOf, NameMode.ofToken?]
    by_cases hoptional : sameName e.text "[Name]" = true
    · cases mode <;> simp [NameMode.ReadFrom, hoptional, hdiffer hoptional]
    · by_cases hrequired : sameName e.text "Name" = true
      · cases mode <;> simp [NameMode.ReadFrom, hoptional, hrequired]
      · cases mode <;> simp [NameMode.ReadFrom, hoptional, hrequired]

/-- A middle element that reads as it should asks for a mode. -/
theorem NameMode.exists_readFrom_iff {mode? : Option Element} :
    (∃ mode : NameMode, mode.ReadFrom mode?) ↔
      ∀ e ∈ mode?, sameName e.text "Name" = true ∨ sameName e.text "[Name]" = true := by
  cases mode? with
  | none => exact ⟨fun _ => nofun, fun _ => ⟨.noName, trivial⟩⟩
  | some e =>
    constructor
    · rintro ⟨mode, hmode⟩ _ ⟨⟩
      cases mode with
      | noName => exact hmode.elim
      | optionalName => exact .inr hmode
      | nameRequired => exact .inl hmode
    · intro h
      rcases h e rfl with h | h
      · exact ⟨.nameRequired, h⟩
      · exact ⟨.optionalName, h⟩

theorem unbracketed_of_bracketed {text : String} {rest : List Char} (h : text.toList = '[' :: rest)
    (hlast : rest.getLast? = some ']') :
    unbracketed text = String.ofList rest.dropLast ∧ text ≠ unbracketed text := by
  have hinner : unbracketed text = String.ofList rest.dropLast := by
    simp [unbracketed, TypeTable.unbracket?, h, hlast]
  refine ⟨hinner, fun hsame => ?_⟩
  rw [hinner] at hsame
  have hlength := congrArg (List.length ∘ String.toList) hsame
  simp only [Function.comp_apply, h, String.toList_ofList, List.length_cons,
    List.length_dropLast] at hlength
  omega

theorem unbracketed_of_not {text : String}
    (h : ∀ rest, text.toList = '[' :: rest → rest.getLast? ≠ some ']') : unbracketed text = text := by
  have hnone : TypeTable.unbracket? text.toList = none := by
    unfold TypeTable.unbracket?
    split
    · next rest hrest => rw [if_neg (h rest hrest)]
    · rfl
  rw [unbracketed, hnone, Option.getD_none, String.ofList_toList]

theorem eq_unbracketed_or (text : String) :
    text = unbracketed text ∨ text = "[" ++ unbracketed text ++ "]" := by
  by_cases h : ∃ rest, text.toList = '[' :: rest ∧ rest.getLast? = some ']'
  · obtain ⟨rest, hrest, hlast⟩ := h
    refine .inr (String.toList_injective ?_)
    obtain ⟨inner, rfl⟩ := List.getLast?_eq_some_iff.1 hlast
    simp [(unbracketed_of_bracketed hrest hlast).1, hrest]
  · exact .inl (unbracketed_of_not fun rest hrest hlast => h ⟨rest, hrest, hlast⟩).symm

theorem propertyName?_eq_some_iff {text name : String} {required : Bool} :
    propertyName? text = some (name, required) ↔ Spelled isWordChar (unbracketed text) ∧
      name = unbracketed text ∧ (required = true ↔ text = unbracketed text) := by
  unfold propertyName?
  split
  · next rest hrest =>
    by_cases hlast : rest.getLast? = some ']'
    · obtain ⟨hinner, hdiffer⟩ := unbracketed_of_bracketed hrest hlast
      rw [hinner] at hdiffer ⊢
      simp only [hlast, hdiffer, Spelled, String.toList_ofList]
      cases required <;> simp [eq_comm (a := name)]
    · -- The bracket is no character of a name.
      have hsame : unbracketed text = text :=
        unbracketed_of_not fun rest' hrest' => by
          obtain rfl := (List.cons.inj (hrest.symm.trans hrest')).2
          exact hlast
      have hbracket : isWordChar '[' = false := by decide
      simp [hlast, hsame, Spelled, hrest, hbracket]
  · next hrest =>
    have hsame : unbracketed text = text :=
      unbracketed_of_not fun rest hrest' => absurd hrest' (hrest rest)
    simp only [hsame, Spelled]
    cases required <;> simp [eq_comm (a := name)]

/-! ## Statements one after the other -/

/-- The statements can go on with a block that declares keywords and properties of these names. -/
def Continues (rules : Rules) (findType : String → Option HostType) (parent? : Option String)
    (keywords properties : List String) : List Statement → Prop
  | [] => True
  | s :: statements =>
    (properties = [] ∧ s.DeclaresKeyword rules findType parent? ∧
      (∀ name ∈ keywords, ¬ sameName name (s.word 0) = true) ∧
      Continues rules findType parent? (keywords ++ [s.word 0]) properties statements) ∨
    (keywords = [] ∧ parent? ≠ none ∧ s.DeclaresProperty rules findType ∧
      (∀ name ∈ properties, ¬ sameName name (unbracketed (s.word 1)) = true) ∧
      Continues rules findType parent? keywords (properties ++ [unbracketed (s.word 1)]) statements)

variable {parent? : Option String}

/-- The names of some statements are new after others, and among themselves. -/
private theorem fresh_cons_iff {α : Type} (name : α → String) (names : List String) {x : α}
    {xs : List α} :
    ((∀ n ∈ names, ¬ sameName n (name x) = true) ∧
      (∀ y ∈ xs, ∀ n ∈ names ++ [name x], ¬ sameName n (name y) = true) ∧
      xs.Pairwise fun y z => ¬ sameName (name y) (name z) = true) ↔
    (∀ y ∈ x :: xs, ∀ n ∈ names, ¬ sameName n (name y) = true) ∧
      (x :: xs).Pairwise fun y z => ¬ sameName (name y) (name z) = true := by
  simp only [List.mem_append, List.mem_cons, List.not_mem_nil, or_false, List.pairwise_cons,
    forall_eq_or_imp]
  constructor
  · rintro ⟨hx, hxs, hpairs⟩
    exact ⟨⟨hx, fun y hy n hn => hxs y hy n (.inl hn)⟩, fun y hy => hxs y hy _ (.inr rfl), hpairs⟩
  · rintro ⟨⟨hx, hxs⟩, hname, hpairs⟩
    refine ⟨hx, fun y hy n hn => ?_, hpairs⟩
    rcases hn with hn | rfl
    · exact hxs y hy n hn
    · exact hname y hy

/-- After a keyword there are keywords only. -/
theorem continues_keywords_iff {keywords : List String} (hk : keywords ≠ [])
    {statements : List Statement} :
    Continues rules findType parent? keywords [] statements ↔
      (∀ s ∈ statements, s.DeclaresKeyword rules findType parent?) ∧
        (∀ s ∈ statements, ∀ name ∈ keywords, ¬ sameName name (s.word 0) = true) ∧
        statements.Pairwise fun s t => ¬ sameName (s.word 0) (t.word 0) = true := by
  induction statements generalizing keywords with
  | nil => simp [Continues]
  | cons s statements ih =>
    have hmore := @ih (keywords ++ [s.word 0]) (by simp)
    simp only [Continues, hk, true_and, false_and, or_false, hmore]
    rw [← fresh_cons_iff (Statement.word 0) keywords]
    simp only [List.mem_cons, forall_eq_or_imp]
    tauto

/-- After a property there are properties only. -/
theorem continues_properties_iff {properties : List String} (hp : properties ≠ [])
    (hparent : parent? ≠ none) {statements : List Statement} :
    Continues rules findType parent? [] properties statements ↔
      (∀ s ∈ statements, s.DeclaresProperty rules findType) ∧
        (∀ s ∈ statements, ∀ name ∈ properties,
          ¬ sameName name (unbracketed (s.word 1)) = true) ∧
        statements.Pairwise fun s t =>
          ¬ sameName (unbracketed (s.word 1)) (unbracketed (t.word 1)) = true := by
  induction statements generalizing properties with
  | nil => simp [Continues]
  | cons s statements ih =>
    have hmore := @ih (properties ++ [unbracketed (s.word 1)]) (by simp)
    simp only [Continues, hp, hparent, true_and, false_and, false_or, hmore, ne_eq, not_false_eq_true]
    rw [← fresh_cons_iff (fun s => unbracketed (Statement.word 1 s)) properties]
    simp only [List.mem_cons, forall_eq_or_imp]
    tauto

/-- A block is well-formed if its statements can begin a block. -/
theorem Script.Block.wellFormed_iff {block : Block} :
    block.WellFormed rules findType parent? ↔ block.begin? = none ∧ block.process? = none ∧
      Continues rules findType parent? [] [] block.statements := by
  constructor
  · rintro (⟨hb, hp, each, distinct⟩ | ⟨hb, hp, each, distinct⟩)
    · refine ⟨hb, hp, ?_⟩
      cases hs : block.statements with
      | nil => trivial
      | cons s statements =>
        rw [hs] at each distinct
        obtain ⟨hfirst, hmore⟩ := List.forall_mem_cons.1 each
        have hnames := (fresh_cons_iff (Statement.word 0) []).2
          ⟨fun _ _ => nofun, distinct⟩
        refine .inl ⟨rfl, hfirst, hnames.1, ?_⟩
        exact (continues_keywords_iff (by simp)).2 ⟨hmore, hnames.2⟩
    · refine ⟨hb, hp, ?_⟩
      cases hs : block.statements with
      | nil => trivial
      | cons s statements =>
        rw [hs] at each distinct
        obtain ⟨hfirst, hmore⟩ := List.forall_mem_cons.1 each
        have hnames := (fresh_cons_iff (fun s => unbracketed (Statement.word 1 s)) []).2
          ⟨fun _ _ => nofun, distinct⟩
        refine .inr ⟨rfl, nofun, hfirst, hnames.1, ?_⟩
        exact (continues_properties_iff (by simp) (Option.some_ne_none _)).2 ⟨hmore, hnames.2⟩
  · rintro ⟨hb, hp, h⟩
    cases hs : block.statements with
    | nil => exact .keywords hb hp (by simp [hs]) (by simp [hs])
    | cons s statements =>
      rw [hs] at h
      rcases h with ⟨-, hfirst, hfresh, hmore⟩ | ⟨-, hparent, hfirst, hfresh, hmore⟩
      · obtain ⟨each, hnames⟩ := (continues_keywords_iff (by simp)).1 hmore
        have hall := (fresh_cons_iff (Statement.word 0) []).1 ⟨hfresh, hnames⟩
        refine .keywords hb hp ?_ ?_
        · rw [hs]
          exact List.forall_mem_cons.2 ⟨hfirst, each⟩
        · rw [hs]
          exact hall.2
      · obtain ⟨parent, rfl⟩ := Option.ne_none_iff_exists'.1 hparent
        obtain ⟨each, hnames⟩ := (continues_properties_iff (by simp) hparent).1 hmore
        have hall := (fresh_cons_iff (fun s => unbracketed (Statement.word 1 s)) []).1 ⟨hfresh, hnames⟩
        refine .properties hb hp ?_ ?_
        · rw [hs]
          exact List.forall_mem_cons.2 ⟨hfirst, each⟩
        · rw [hs]
          exact hall.2

end

end KeywordScope
