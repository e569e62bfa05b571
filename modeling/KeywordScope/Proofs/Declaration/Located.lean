import KeywordScope.Proofs.Declaration.Atomic
import KeywordScope.Proofs.Grammar.Proper
import KeywordScope.Proofs.Registry.Failures
import KeywordScope.Proofs.Script.Faithful
import KeywordScope.Proofs.Script.Places
import KeywordScope.Proofs.Script.Rounds

/-!
# Located errors

Whatever is wrong with a source, the error says where.

* `SyntaxError.About x e`: the error is about a piece of `x`, and has its span.
* `checkKeyword_about`, `checkProperty_about`, `commandOf_about`: the parts of the check.
* `Grammar.check_about`: a script that is no grammar is refused for one of its pieces.
* `Session.errors_located`: every error of a declaration stands in its source.
-/

namespace KeywordScope

open Script Step

/-- The error has the span of a piece of the tree. -/
def SyntaxError.About (y : Node) (e : SyntaxError) : Prop :=
  ∃ x : Node, x.Within y ∧ e.span = x.span

namespace SyntaxError.About

variable {e : SyntaxError} {y z : Node}

theorem of_span (h : e.span = y.span) : e.About y :=
  ⟨y, .refl y, h⟩

theorem child (h : e.About y) (hy : y ∈ z.children) : e.About z := by
  obtain ⟨x, hx, hspan⟩ := h
  exact ⟨x, .child hy hx, hspan⟩

/-- What is wrong with a piece of a source stands there. -/
theorem located {source : String} {block : Block} (hparse : parse source = .ok block)
    (h : e.About (.block block)) : (e.locate source).Located source := by
  obtain ⟨x, hx, hspan⟩ := h
  obtain ⟨-, -, hfaithful⟩ := parse_faithful hparse
  obtain ⟨text, htext⟩ := (hfaithful x hx).inside
  rw [← hspan] at htext
  exact .of_covers htext rfl

end SyntaxError.About

/-! ## Statements -/

theorem commandOf_about {s : Statement} {e : SyntaxError} (h : Shape.commandOf s = .error e) :
    e.About (.statement s) := by
  unfold Shape.commandOf at h
  split at h
  · cases h
  · next element _ =>
    cases h
    exact (SyntaxError.About.of_span (y := .stage (.expression element)) rfl).child
      (List.mem_singleton_self _)
  all_goals
    cases h
    exact .of_span rfl

/-- The command of a statement is its only stage. -/
theorem stage_of_commandOf {s : Statement} {command : Command}
    (h : Shape.commandOf s = .ok command) :
    Node.stage (.command command.elements command.span) ∈ (Node.statement s).children := by
  unfold Shape.commandOf at h
  split at h
  · cases h
    exact List.mem_singleton_self _
  all_goals cases h

theorem refuse_about {s : Statement} {command : Command} (h : Shape.commandOf s = .ok command)
    (fault : SyntaxFault) : (command.refuse fault).About (.statement s) :=
  (SyntaxError.About.of_span (y := .stage (.command command.elements command.span)) rfl).child
    (stage_of_commandOf h)

theorem ofCommand_refuse {command : Command} {e : SyntaxError}
    (h : Shape.ofCommand command = .error e) : e = command.refuse .format := by
  unfold Shape.ofCommand at h
  split at h
  all_goals cases h
  rfl

/-- The body of a keyword declaration is the last element of its command. -/
theorem body_mem_of_ofCommand {command : Command} {name : Element} {mode? : Option Element}
    {body : Block} (h : Shape.ofCommand command = .ok (.keyword name mode? body)) :
    Element.script body ∈ command.elements := by
  unfold Shape.ofCommand at h
  split at h
  all_goals
    try cases h
  all_goals simp_all

/-- What is wrong with the body of a keyword declaration is wrong with the statement. -/
theorem SyntaxError.About.of_body {s : Statement} {command : Command} {name : Element}
    {mode? : Option Element} {body : Block} {e : SyntaxError} (h : e.About (.block body))
    (hcommand : Shape.commandOf s = .ok command)
    (hshape : Shape.ofCommand command = .ok (.keyword name mode? body)) :
    e.About (.statement s) := by
  have hscript : e.About (.element (.script body)) := h.child (List.mem_singleton_self _)
  exact (hscript.child (List.mem_map_of_mem (body_mem_of_ofCommand hshape))).child
    (stage_of_commandOf hcommand)

/-! ## Declarations -/

/-- What a check throws is among the errors that it may throw. -/
theorem of_refuse_error {E : SyntaxError → Prop} {α β : Type} {c : Prop} [Decidable c]
    {refusal : SyntaxError} {x : Except SyntaxError α} {f : β → Except SyntaxError α}
    (hrefusal : E refusal) (hx : ∀ e, x = .error e → E e) :
    ∀ e, (if c then throw refusal >>= f else x) = .error e → E e := by
  intro e h
  split at h
  · cases h
    exact hrefusal
  · exact hx e h

theorem checkKeyword_about {rules : Rules} {parent? : Option String} {keywords : List KeywordDecl}
    {properties : List PropertyDecl} {s : Statement} {command : Command} {name : Element}
    {mode? : Option Element} {body : Block} (hcommand : Shape.commandOf s = .ok command)
    (hshape : Shape.ofCommand command = .ok (.keyword name mode? body)) :
    ∀ e, checkKeyword rules parent? keywords properties command name mode? body = .error e →
      e.About (.statement s) := by
  have hempty : ∀ e : SyntaxError, e.span = body.span → e.About (.statement s) := fun e h =>
    (SyntaxError.About.of_span (y := .block body) h).of_body hcommand hshape
  have hrest : ∀ e, (do
      let mode ← nameModeOf command mode?
      if keywords.any fun decl => sameName decl.name name.text then
        throw (command.refuse .duplicateKeyword)
      return mode : Except SyntaxError NameMode) = .error e → e.About (.statement s) := by
    intro e h
    rcases hmode : nameModeOf command mode? with e' | mode
    · rw [hmode] at h
      cases h
      unfold nameModeOf at hmode
      split at hmode
      · cases hmode
      · split at hmode
        · cases hmode
        · cases hmode
          exact refuse_about hcommand _
    · rw [hmode] at h
      exact of_refuse_error (refuse_about hcommand _) (fun _ h => by cases h) e h
  unfold checkKeyword
  refine of_refuse_error (hempty _ rfl) ?_
  refine of_refuse_error (refuse_about hcommand _) ?_
  refine of_refuse_error (refuse_about hcommand _) ?_
  refine of_refuse_error (refuse_about hcommand _) ?_
  cases parent? with
  | some parent => exact of_refuse_error (refuse_about hcommand _) hrest
  | none => exact of_refuse_error (refuse_about hcommand _) hrest

theorem checkProperty_about {rules : Rules} {parent? : Option String} {keywords : List KeywordDecl}
    {properties : List PropertyDecl} {s : Statement} {command : Command} {typeWord name : Element}
    {type? : Option HostType} (hcommand : Shape.commandOf s = .ok command) :
    ∀ e, checkProperty rules parent? keywords properties command typeWord name type? = .error e →
      e.About (.statement s) := by
  have hrefuse := refuse_about hcommand
  unfold checkProperty
  cases type? with
  | none =>
    rintro _ ⟨⟩
    exact hrefuse _
  | some type =>
  cases propertyName? name.text with
  | none =>
    rintro _ ⟨⟩
    exact hrefuse _
  | some found =>
  dsimp only
  split
  · rintro _ ⟨⟩
    exact hrefuse _
  · refine of_refuse_error (hrefuse _) (of_refuse_error (hrefuse _) ?_)
    exact of_refuse_error (hrefuse _) fun _ h => nomatch h

/-! ## Blocks -/

theorem fails_lift {σ α : Type} {E : SyntaxError → Prop} {x : Except SyntaxError α}
    (h : ∀ e, x = .error e → E e) : Fails E (liftM x : Check σ α) := by
  intro s _
  cases x with
  | error e => exact h e rfl
  | ok a => trivial

mutual

theorem checkBlock_about {σ : Type} (rules : Rules) (findType : FindType σ)
    (parent? : Option String) (block : Block) :
    Fails (SyntaxError.About (.block block)) (checkBlock rules findType parent? block) := by
  have hnamed : ∀ (e : SyntaxError) (n : NamedBlock), n ∈ block.namedBlocks → e.span = n.span →
      e.About (.block block) := fun e n hn hspan =>
    (SyntaxError.About.of_span (y := .named n) hspan).child (Node.named_mem_children.2 hn)
  unfold checkBlock
  rcases hb : block.begin? with _ | named
  · rcases hp : block.process? with _ | named
    · refine Fails.bind ?_ fun _ => Fails.pure _
      refine checkStatements_about rules findType parent? [] [] block.statements fun s hs e he => ?_
      exact (he.child (Node.statement_mem_children.2 hs)).child
        (Node.named_mem_children.2 block.endBlock_mem)
    · exact Fails.throw (hnamed _ named (by simp [Block.namedBlocks, hp]) rfl)
  · exact Fails.throw (hnamed _ named (by simp [Block.namedBlocks, hb]) rfl)
termination_by sizeOf block
decreasing_by exact block.statements_lt

theorem checkStatements_about {σ : Type} {E : SyntaxError → Prop} (rules : Rules)
    (findType : FindType σ) (parent? : Option String) (keywords : List KeywordDecl)
    (properties : List PropertyDecl) (statements : List Statement) :
    (∀ s ∈ statements, ∀ e : SyntaxError, e.About (.statement s) → E e) →
      Fails E (checkStatements rules findType parent? keywords properties statements) := by
  rcases statements with _ | ⟨statement, statements⟩
  · intro _
    unfold checkStatements
    exact Fails.pure _
  intro hE
  obtain ⟨hfirst, hmore⟩ := List.forall_mem_cons.1 hE
  unfold checkStatements
  split
  · next e hcommand => exact Fails.throw (hfirst e (commandOf_about hcommand))
  next command hcommand =>
  split
  · next e hshape =>
    rw [ofCommand_refuse hshape]
    exact Fails.throw (hfirst _ (refuse_about hcommand _))
  next name mode? body hshape =>
    have hlt := Shape.body_lt hcommand hshape
    refine (fails_lift fun e he => hfirst e (checkKeyword_about hcommand hshape e he)).bind
      fun mode => ?_
    refine Fails.bind ?_ fun grammar =>
      checkStatements_about rules findType parent? _ properties statements hmore
    refine Meets.conseq (checkBlock_about rules findType (some name.text) body) (fun _ hs => hs)
      (fun _ _ _ => trivial) fun e _ he => ?_
    exact hfirst e (he.of_body hcommand hshape)
  next type name hshape =>
    refine Fails.ite (Fails.throw (hfirst _ (refuse_about hcommand _))) ?_
    refine Fails.bind (fun _ _ => trivial) fun type? => ?_
    refine (fails_lift fun e he => hfirst e (checkProperty_about hcommand e he)).bind fun decl => ?_
    exact checkStatements_about rules findType parent? keywords _ statements hmore
  · exact Fails.throw (hfirst _ (refuse_about hcommand _))
termination_by sizeOf statements
decreasing_by all_goals rw [List.cons.sizeOf_spec]; omega

end

/-- A script that is no grammar is refused for one of its pieces. -/
theorem Grammar.check_about {rules : Rules} {findType : String → Option HostType}
    {parent? : Option String} {block : Block} {e : SyntaxError}
    (h : Grammar.check rules findType parent? block = .error e) : e.About (.block block) := by
  have hmeets := Grammar.check_meets
    (checkBlock_about rules (TypeCache.find findType) parent? block)
  rw [h] at hmeets
  exact hmeets

/-! ## Declarations by a source -/

/-- The error is not about a declaration. -/
def KeywordError.IsNoSyntaxError (e : KeywordError) : Prop :=
  ∀ e', e ≠ .grammar e'

theorem KeywordError.usual_isNoSyntaxError {τ : Type} [BindingTable τ] :
    Usual τ IsNoSyntaxError where
  bind _ _ _ _ _ _ := nofun
  publish _ _ _ _ _ _ := nofun
  state _ _ _ := nofun
  operation _ _ := nofun

namespace Session

variable {τ ω : Type} [BindingTable τ] (session : Session τ ω) {held : Hold} {dsl source : String}
  {module? : Option String} {state : State τ ω}

theorem Rejected.located {e : SyntaxError}
    (h : session.Rejected held dsl source state.registry (.grammar e)) : e.Located source := by
  cases h with
  | unreadable hparse => exact (parse_located hparse).1
  | invalid hparse _ _ hcheck => exact (Grammar.check_about hcheck).located hparse

/-- A declaration answers or fails, and a syntax error in it is located in the source. -/
theorem declare_located (held : Hold) (dsl source : String) (module? : Option String)
    (state : State τ ω) :
    ∃ outcome state', (session.declare held dsl source module?).run state =
        some (outcome, state') ∧ ∀ e, outcome = .error (.grammar e) → e.Located source := by
  by_cases hrejected : ∃ e, session.Rejected held dsl source state.registry e
  · obtain ⟨e, hrejected⟩ := hrejected
    refine ⟨_, _, hrejected.run_declare module?, ?_⟩
    rintro e' ⟨⟩
    exact hrejected.located
  · obtain ⟨tree, g, -, hcheck, hrun⟩ := session.run_declare_accepted
      (fun e he => hrejected ⟨e, he⟩) module?
    have hfails := Registry.fails_declare KeywordError.usual_isNoSyntaxError
      session.config.output session.findType dsl tree module? hcheck state.registry rfl
    rw [hrun, Run.run_onRegistry, Registry.run_locatedIn]
    refine ⟨_, _, rfl, fun e he => ?_⟩
    -- Past the check, a step on a keyword has failed, and not with a syntax error.
    rcases hdeclare : (Registry.declare session.config.output session.findType dsl tree
      module?).run state.registry with ⟨e' | roots, r⟩ <;> rw [hdeclare] at hfails he
    · cases e' with
      | grammar e' => exact absurd rfl (hfails e')
      | _ => cases he
    · cases he

/-- The parser goes on in rounds that take something, and so it ends on every source, with a tree
or an error that quotes the line where it stands. Every syntax error in a declaration, of the
parser or of the check, is located in the source. -/
theorem errors_located :
    InRounds ∧ ∀ source : String,
      ((∃ block, parse source = .ok block) ∨
        ∃ e, parse source = .error e ∧ e.Located source ∧
          e.span.Covers source.toList e.node.toList ∧ '\n' ∉ e.node.toList) ∧
      ∀ (session : Session τ ω) (held : Hold) (dsl : String) (module? : Option String)
        (state : State τ ω),
        ∃ outcome state', (session.declare held dsl source module?).run state =
            some (outcome, state') ∧ ∀ e, outcome = .error (.grammar e) → e.Located source := by
  refine ⟨inRounds, fun source => ⟨?_, fun session held dsl module? state => ?_⟩⟩
  · rcases hparse : parse source with e | block
    · obtain ⟨hlocated, hcovers, hline⟩ := parse_located hparse
      exact .inr ⟨e, rfl, hlocated, hcovers, hline⟩
    · exact .inl ⟨block, rfl⟩
  · exact session.declare_located held dsl source module? state

end Session
end KeywordScope
