import KeywordScope.Proofs.Grammar.Proper

/-!
# Conflicts of roots

The bindings of the host have a say in a check only where a root has a name that is bound to another
command. Such a root is a conflict, and the check reports the first one, if nothing else is wrong.

* `Rules.Agree.checkBlock_eq`: other bindings make no difference but for such names.
* `Rules.unbound`: the rules if no name were bound.
* `Grammar.check_conflict`: a check that would succeed then ends at the first conflict.
-/

namespace KeywordScope

open Script Step

namespace Rules

/-- The name is bound to another command. -/
def conflicts (rules : Rules) (name : String) : Bool :=
  (rules.lookup name).any fun binding => !binding.pointsTo rules.dispatcher

/-- Below `parent?` the same may be declared, whatever the bindings. -/
structure Agree (rules rules' : Rules) (parent? : Option String) : Prop where
  dsl : rules'.dsl = rules.dsl
  reserved : rules'.reserved = rules.reserved
  conflict : parent? = none → ∀ name, rules'.conflicts name = rules.conflicts name

namespace Agree

variable {rules rules' : Rules}

section Declarations

variable {parent? : Option String}

theorem below (h : rules.Agree rules' parent?) (parent : String) :
    rules.Agree rules' (some parent) :=
  ⟨h.dsl, h.reserved, nofun⟩

theorem checkKeyword_eq (h : rules.Agree rules' parent?) (keywords : List KeywordDecl)
    (properties : List PropertyDecl) (command : Command) (name : Element) (mode? : Option Element)
    (body : Block) :
    checkKeyword rules' parent? keywords properties command name mode? body =
      checkKeyword rules parent? keywords properties command name mode? body := by
  unfold checkKeyword
  cases parent? with
  | none =>
    have hconflict : ((rules'.lookup name.text).any fun b => !b.pointsTo rules'.dispatcher) =
        (rules.lookup name.text).any fun b => !b.pointsTo rules.dispatcher :=
      h.conflict rfl name.text
    simp only [hconflict, h.dsl]
  | some parent => rfl

theorem checkProperty_eq (h : rules.Agree rules' parent?) (keywords : List KeywordDecl)
    (properties : List PropertyDecl) (command : Command) (typeWord name : Element)
    (type? : Option HostType) :
    checkProperty rules' parent? keywords properties command typeWord name type? =
      checkProperty rules parent? keywords properties command typeWord name type? := by
  simp only [checkProperty, h.reserved]

end Declarations

variable {σ : Type}

mutual

theorem checkBlock_eq {parent? : Option String} (h : rules.Agree rules' parent?)
    (findType : FindType σ) (block : Block) :
    checkBlock rules' findType parent? block = checkBlock rules findType parent? block := by
  unfold checkBlock
  rw [checkStatements_eq h findType [] [] block.statements]
termination_by sizeOf block
decreasing_by exact block.statements_lt

theorem checkStatements_eq {parent? : Option String} (h : rules.Agree rules' parent?)
    (findType : FindType σ) (keywords : List KeywordDecl) (properties : List PropertyDecl)
    (statements : List Statement) :
    checkStatements rules' findType parent? keywords properties statements =
      checkStatements rules findType parent? keywords properties statements := by
  rcases statements with _ | ⟨statement, statements⟩
  · unfold checkStatements
    rfl
  unfold checkStatements
  split
  · rfl
  next command hcommand =>
  split
  · rfl
  next name mode? body hshape =>
    have hlt := Shape.body_lt hcommand hshape
    simp only [h.checkKeyword_eq, checkBlock_eq (h.below name.text) findType body]
    refine bind_congr fun mode => bind_congr fun grammar => ?_
    exact checkStatements_eq h findType _ properties statements
  next type name hshape =>
    have hrest := fun decl =>
      checkStatements_eq h findType keywords (properties ++ [decl]) statements
    simp only [h.checkProperty_eq, hrest]
  · rfl
termination_by sizeOf statements
decreasing_by all_goals rw [List.cons.sizeOf_spec]; omega

end

theorem check_eq {parent? : Option String} (h : rules.Agree rules' parent?)
    (findType : String → Option HostType) (block : Block) :
    Grammar.check rules' findType parent? block = Grammar.check rules findType parent? block := by
  rw [Grammar.check, Grammar.check, h.checkBlock_eq]

end Agree

/-! ## The first conflict -/

/-- The rules if no name were bound. -/
def unbound (rules : Rules) : Rules :=
  { rules with lookup := fun _ => none }

/-- Below a root, bindings have no say. -/
theorem agree_unbound (rules : Rules) (parent : String) :
    rules.unbound.Agree rules (some parent) :=
  ⟨rfl, rfl, nofun⟩

variable {rules : Rules} {keywords : List KeywordDecl} {properties : List PropertyDecl}
  {command : Command} {name : Element} {mode? : Option Element} {body : Block}

/-- A root is accepted if it would be so, were no name bound, and there is no conflict. -/
theorem checkKeyword_root_iff {mode : NameMode} :
    checkKeyword rules none keywords properties command name mode? body = .ok mode ↔
      checkKeyword rules.unbound none keywords properties command name mode? body = .ok mode ∧
        rules.conflicts name.text = false := by
  have hfree : rules.conflicts name.text = false ↔
      ∀ binding ∈ rules.lookup name.text, binding.pointsTo rules.dispatcher = true := by
    simp [conflicts, Option.any_eq_false]
  rw [checkKeyword_iff, checkKeyword_iff, hfree]
  constructor
  · rintro ⟨hbody, hliteral, hkind, hname, hparent, hbound, hmode, hfresh⟩
    exact ⟨⟨hbody, hliteral, hkind, hname, hparent, fun _ => nofun, hmode, hfresh⟩, hbound rfl⟩
  · rintro ⟨⟨hbody, hliteral, hkind, hname, hparent, -, hmode, hfresh⟩, hbound⟩
    exact ⟨hbody, hliteral, hkind, hname, hparent, fun _ => hbound, hmode, hfresh⟩

/-- Otherwise the conflict is reported. -/
theorem checkKeyword_conflict {mode : NameMode}
    (h : checkKeyword rules.unbound none keywords properties command name mode? body = .ok mode)
    (hconflict : rules.conflicts name.text = true) :
    checkKeyword rules none keywords properties command name mode? body =
      .error (command.refuse (.bindingConflict name.text rules.dsl)) := by
  obtain ⟨hbody, hliteral, rfl, hname, -⟩ := checkKeyword_iff.1 h
  unfold conflicts at hconflict
  have hliteral : (name :: mode?.toList).all Element.isLiteral = true := by simpa using hliteral
  unfold checkKeyword
  simp [hbody, hliteral, hname, hconflict]
  rfl

/-- How a check of statements ends, given how it would end if no name were bound. It would add the
keywords `new`. -/
inductive Reports {σ : Type} (rules : Rules) (keywords new : List KeywordDecl) :
    Except SyntaxError (List KeywordDecl × List PropertyDecl) × σ →
    Except SyntaxError (List KeywordDecl × List PropertyDecl) × σ → Prop
  | accepted {properties : List PropertyDecl} {s : σ}
      (hnone : new.find? (rules.conflicts ·.name) = none) :
      Reports rules keywords new (.ok (keywords ++ new, properties), s)
        (.ok (keywords ++ new, properties), s)
  /-- The first conflict is reported. -/
  | conflict {properties : List PropertyDecl} {s s' : σ} {decl : KeywordDecl} {e : SyntaxError}
      (hfirst : new.find? (rules.conflicts ·.name) = some decl)
      (hfault : e.fault = .bindingConflict decl.name rules.dsl) (hspan : e.span = decl.span) :
      Reports rules keywords new (.ok (keywords ++ new, properties), s) (.error e, s')
  | refused {s s' : σ} {e e' : SyntaxError} :
      Reports rules keywords new (.error e, s) (.error e', s')

section Reports

variable {σ : Type} {new : List KeywordDecl} {decl : KeywordDecl}
  {free actual : Except SyntaxError (List KeywordDecl × List PropertyDecl) × σ}

/-- A root without a conflict goes before. -/
theorem Reports.cons (h : rules.Reports (keywords ++ [decl]) new free actual)
    (hfree : rules.conflicts decl.name = false) :
    rules.Reports keywords (decl :: new) free actual := by
  have hfind : (decl :: new).find? (rules.conflicts ·.name) =
      new.find? (rules.conflicts ·.name) := List.find?_cons_of_neg (by simp [hfree])
  cases h with
  | accepted hnone =>
    rw [List.append_assoc]
    exact .accepted (hfind.trans hnone)
  | conflict hfirst hfault hspan =>
    rw [List.append_assoc]
    exact .conflict (hfind.trans hfirst) hfault hspan
  | refused => exact .refused

/-- The check goes no further than a root with a conflict. -/
theorem Reports.stop (h : rules.Reports (keywords ++ [decl]) new free actual)
    (hconflict : rules.conflicts decl.name = true) {e : SyntaxError}
    (hfault : e.fault = .bindingConflict decl.name rules.dsl) (hspan : e.span = decl.span) (s : σ) :
    rules.Reports keywords (decl :: new) free (.error e, s) := by
  have hfirst : (decl :: new).find? (rules.conflicts ·.name) = some decl :=
    List.find?_cons_of_pos hconflict
  cases h with
  | accepted hnone =>
    rw [List.append_assoc]
    exact .conflict hfirst hfault hspan
  | conflict =>
    rw [List.append_assoc]
    exact .conflict hfirst hfault hspan
  | refused => exact .refused

/-- What is checked in the same way before fails in the same way. -/
theorem reports_bind {α : Type} {x : Check σ α}
    {f f' : α → Check σ (List KeywordDecl × List PropertyDecl)}
    (h : ∀ a s, ∃ new, rules.Reports keywords new ((f a).run s) ((f' a).run s)) (s : σ) :
    ∃ new, rules.Reports keywords new ((x >>= f).run s) ((x >>= f').run s) := by
  rw [run_bind, run_bind]
  rcases x.run s with ⟨e | a, s'⟩
  · exact ⟨[], .refused⟩
  · exact h a s'

theorem reports_throw (e : SyntaxError) (s : σ) :
    ∃ new, rules.Reports keywords new
      ((throw e : Check σ (List KeywordDecl × List PropertyDecl)).run s)
      ((throw e : Check σ (List KeywordDecl × List PropertyDecl)).run s) :=
  ⟨[], .refused⟩

/-- Behind a root that would be accepted, were no name bound, the check goes on, or stops at its
conflict. -/
theorem reports_keyword {f f' : NameMode → Check σ (List KeywordDecl × List PropertyDecl)}
    (h : ∀ mode s, ∃ grammar new,
      rules.Reports (keywords ++ [.mk name.text mode grammar command.span]) new ((f mode).run s)
        ((f' mode).run s)) (s : σ) :
    ∃ new, rules.Reports keywords new
      ((liftM (checkKeyword rules.unbound none keywords properties command name mode? body) >>=
        f).run s)
      ((liftM (checkKeyword rules none keywords properties command name mode? body) >>=
        f').run s) := by
  have hgo : ∀ mode, (liftM (Except.ok mode : Except SyntaxError NameMode) : Check σ NameMode).run
      s = (.ok mode, s) := fun _ => rfl
  rcases hfree : checkKeyword rules.unbound none keywords properties command name mode? body with
    e | mode
  · rcases hroot : checkKeyword rules none keywords properties command name mode? body with
      e' | mode
    · exact ⟨[], .refused⟩
    · rw [(checkKeyword_root_iff.1 hroot).1] at hfree
      cases hfree
  obtain ⟨grammar, new, hmore⟩ := h mode s
  refine ⟨.mk name.text mode grammar command.span :: new, ?_⟩
  rw [run_bind_ok (hgo mode)]
  cases hconflict : rules.conflicts name.text with
  | false =>
    rw [checkKeyword_root_iff.2 ⟨hfree, hconflict⟩, run_bind_ok (hgo mode)]
    exact hmore.cons hconflict
  | true =>
    have hstop : (liftM (checkKeyword rules none keywords properties command name mode? body) :
        Check σ NameMode).run s =
          (.error (command.refuse (.bindingConflict name.text rules.dsl)), s) := by
      rw [checkKeyword_conflict hfree hconflict]
      rfl
    rw [run_bind_error hstop]
    exact hmore.stop hconflict rfl rfl s

/-- Statements at the root are checked as if no name were bound, up to the first conflict. -/
theorem checkStatements_reports (rules : Rules) (findType : FindType σ)
    (keywords : List KeywordDecl) (properties : List PropertyDecl) (statements : List Statement)
    (s : σ) : ∃ new, rules.Reports keywords new
      ((checkStatements rules.unbound findType none keywords properties statements).run s)
      ((checkStatements rules findType none keywords properties statements).run s) := by
  induction statements generalizing keywords properties s with
  | nil =>
    unfold checkStatements
    refine ⟨[], ?_⟩
    have haccepted : rules.Reports keywords [] (.ok (keywords ++ [], properties), s)
      (.ok (keywords ++ [], properties), s) := .accepted rfl
    rwa [List.append_nil] at haccepted
  | cons statement statements ih =>
  unfold checkStatements
  split
  · exact reports_throw _ s
  next command hcommand =>
  split
  · exact reports_throw _ s
  next name mode? body hshape =>
    refine reports_keyword (fun mode s => ?_) s
    rw [(rules.agree_unbound name.text).checkBlock_eq findType body, run_bind, run_bind]
    rcases (checkBlock rules.unbound findType (some name.text) body).run s with ⟨e | grammar, s'⟩
    · exact ⟨.keywords [] body.span, [], .refused⟩
    · obtain ⟨new, h⟩ := ih (keywords ++ [.mk name.text mode grammar command.span]) properties s'
      exact ⟨grammar, new, h⟩
  next type name hshape =>
    split
    · exact reports_throw _ s
    refine reports_bind (fun type? s => ?_) s
    exact reports_bind (fun decl s => ih keywords (properties ++ [decl]) s) s
  · exact reports_throw _ s

end Reports

end Rules

namespace Grammar

/-- The grammar of a block, from the declarations in its statements. -/
theorem check_eq_map {rules : Rules} {findType : String → Option HostType} {block : Block}
    (hbegin : block.begin? = none) (hprocess : block.process? = none) :
    check rules findType none block =
      ((checkStatements rules (TypeCache.find findType) none [] [] block.statements).run []).1.map
        fun decls => if decls.2.isEmpty then .keywords decls.1 block.span
          else .properties decls.2 block.span := by
  have hrun : (checkBlock rules (TypeCache.find findType) none block).run [] =
      (checkStatements rules (TypeCache.find findType) none [] [] block.statements >>=
        fun decls => pure (if decls.2.isEmpty then .keywords decls.1 block.span
          else .properties decls.2 block.span)).run [] := by
    rw [checkBlock, hbegin, hprocess]
  show ((checkBlock rules (TypeCache.find findType) none block).run []).1 = _
  rw [hrun, run_bind]
  rcases (checkStatements rules (TypeCache.find findType) none [] [] block.statements).run [] with
    ⟨_ | _, _⟩ <;> rfl

/-- A script that would be accepted if no name were bound is accepted if no root has a name that is
bound to another command. Otherwise, the first such root is reported. What would not be accepted
is not accepted. -/
theorem check_conflict (rules : Rules) (findType : String → Option HostType) (block : Block) :
    match check rules.unbound findType none block with
    | .error _ => ∃ e, check rules findType none block = .error e
    | .ok grammar =>
      match grammar.keywordDecls.find? (rules.conflicts ·.name) with
      | none => check rules findType none block = .ok grammar
      | some decl => ∃ e, check rules findType none block = .error e ∧
        e.fault = .bindingConflict decl.name rules.dsl ∧ e.span = decl.span := by
  by_cases hplain : block.begin? = none ∧ block.process? = none
  · obtain ⟨hbegin, hprocess⟩ := hplain
    have hroots : ∀ grammar, check rules.unbound findType none block = .ok grammar →
        grammar.propertyDecls = [] := fun grammar hg => (check_accepted hg).2.2 rfl
    obtain ⟨new, h⟩ :=
      rules.checkStatements_reports (TypeCache.find findType) [] [] block.statements []
    rw [check_eq_map hbegin hprocess] at hroots ⊢
    rw [check_eq_map hbegin hprocess]
    generalize (checkStatements rules.unbound (TypeCache.find findType) none [] []
      block.statements).run [] = free at h hroots ⊢
    generalize (checkStatements rules (TypeCache.find findType) none [] []
      block.statements).run [] = actual at h ⊢
    have hempty : ∀ {keywords properties s}, free = (.ok (keywords, properties), s) →
        properties = [] := by
      rintro keywords (_ | ⟨first, rest⟩) s rfl
      · rfl
      · cases hroots _ rfl
    cases h with
    | accepted hnone =>
      obtain rfl := hempty rfl
      show match new.find? (rules.conflicts ·.name) with
        | none => _
        | some decl => _
      rw [hnone]
      rfl
    | @conflict _ _ _ _ e hfirst hfault hspan =>
      obtain rfl := hempty rfl
      show match new.find? (rules.conflicts ·.name) with
        | none => _
        | some decl => _
      rw [hfirst]
      exact ⟨e, rfl, hfault, hspan⟩
    | refused => exact ⟨_, rfl⟩
  · have herror : ∀ rules : Rules, ∃ e, check rules findType none block = .error e := by
      intro rules
      rw [check, checkBlock]
      cases hbegin : block.begin? with
      | some named => exact ⟨_, rfl⟩
      | none =>
        cases hprocess : block.process? with
        | some named => exact ⟨_, rfl⟩
        | none => exact absurd ⟨hbegin, hprocess⟩ hplain
    obtain ⟨e, he⟩ := herror rules.unbound
    rw [he]
    exact herror rules

end Grammar

end KeywordScope
