import KeywordScope.Proofs.Grammar.Alike
import KeywordScope.Proofs.Grammar.RoundTrip
import KeywordScope.Proofs.Script.Recased

/-!
# Grammars in other cases

A script that differs from a grammar in the case of letters only is a grammar, too, and says the same.

* `Rules.Recased`: the same names are reserved and bound to other commands, up to case.
* `Block.WellFormed.recased`: a script is well-formed if one is that is the same up to case.
* `Grammar.WrittenIn.like`: what the two say is alike.
* `Grammar.check_recased`: so one is accepted if the other one is, with a grammar that is alike.
-/

namespace KeywordScope

open Script

/-! ## Names -/

theorem Spelled.recased {p : Char → Bool} (hp : ∀ c : Char, p c.toLower = p c) {a b : String}
    (h : sameName a b = true) (ha : Spelled p a) : Spelled p b := by
  have hlist : a.toList.map Char.toLower = b.toList.map Char.toLower := by
    rw [← toList_foldCase, ← toList_foldCase, sameName_iff.1 h]
  have hclass : ∀ cs : List Char, (∀ c ∈ cs, p c = true) ↔ ∀ c ∈ cs.map Char.toLower, p c = true := by
    simp [hp]
  obtain ⟨hne, hall⟩ := ha
  refine ⟨fun hnil => hne ?_, (hclass _).2 (hlist ▸ (hclass _).1 hall)⟩
  rwa [hnil, List.map_nil, List.map_eq_nil_iff] at hlist

theorem isWordChar_toLower : ∀ c : Char, isWordChar c.toLower = isWordChar c :=
  class_toLower true fun _ => isWordChar_of_isAlpha

theorem sameName_unbracketed {a b : String} (h : sameName a b = true) :
    sameName (unbracketed a) (unbracketed b) = true := by
  rw [sameName_iff] at *
  rw [unbracketed, unbracketed, TypeTable.foldCase_inner, TypeTable.foldCase_inner, h]

/-- A name is in brackets just if no spelling of it is without. -/
theorem eq_unbracketed_iff (text : String) :
    text = unbracketed text ↔ TypeTable.unbracket? text.toList = none := by
  constructor
  · intro h
    unfold TypeTable.unbracket?
    split
    · next rest hrest => exact if_neg fun hlast => (unbracketed_of_bracketed hrest hlast).2 h
    · rfl
  · intro h
    rw [unbracketed, h, Option.getD_none, String.ofList_toList]

theorem eq_unbracketed_congr {a b : String} (h : sameName a b = true) :
    a = unbracketed a ↔ b = unbracketed b := by
  have hfold : ∀ text : String, text = unbracketed text ↔
      TypeTable.unbracket? (foldCase text).toList = none := fun text => by
    rw [eq_unbracketed_iff, toList_foldCase, unbracket?_map_toLower, Option.map_eq_none_iff]
  rw [hfold, hfold, sameName_iff.1 h]

/-! ## Pieces -/

section Pieces

variable {L : Likeness}

theorem Script.Element.Like.isLiteral_eq {element element' : Element} (h : element.Like L element') :
    element'.isLiteral = element.isLiteral := by
  cases h <;> rfl

theorem isLiteral_of_like {elements elements' : List Element}
    (h : List.Forall₂ (Element.Like L) elements elements')
    (literal : ∀ e ∈ elements, e.isLiteral = true) : ∀ e ∈ elements', e.isLiteral = true :=
  forall_of_forall₂ h fun e he _ hlike => hlike.isLiteral_eq.trans (literal e he)

theorem Script.Element.Like.sameName_text {element element' : Element}
    (h : element.Like .recased element') : sameName element.text element'.text = true := by
  cases h with
  | bareword htext | number htext | subExpression htext | hashtable htext => exact htext
  | quoted _ htext => exact htext
  | «variable» _ htext => exact htext
  | script hblock =>
    cases hblock with
    | mk _ _ _ htext => exact htext

theorem Script.Block.Like.begin? {block block' : Block} (h : block.Like L block') :
    Option.Rel (NamedBlock.Like L) block.begin? block'.begin? := by
  cases h
  assumption

theorem Script.Block.Like.process? {block block' : Block} (h : block.Like L block') :
    Option.Rel (NamedBlock.Like L) block.process? block'.process? := by
  cases h
  assumption

theorem Script.Block.Like.isEmpty_eq {block block' : Block} (h : block.Like L block') :
    block'.isEmpty = block.isEmpty := by
  rw [Block.isEmpty, Block.isEmpty, rel_isNone h.begin?, rel_isNone h.process?,
    rel_isEmpty h.statements]

theorem Script.Statement.Like.of_command {elements : List Element} {span span' : Span}
    {s' : Statement} (h : (Statement.pipeline [.command elements span] span').Like L s') :
    ∃ elements' own own', s' = .pipeline [.command elements' own] own' ∧
      List.Forall₂ (Element.Like L) elements elements' := by
  obtain ⟨_ | ⟨⟨helements, -⟩, ⟨⟩⟩, -⟩ := h
  exact ⟨_, _, _, rfl, helements⟩

/-- The elements of a keyword are like those of a keyword. -/
theorem Script.Statement.Like.of_keyword {name : Element} {mode? : Option Element} {body : Block}
    {span span' : Span} {s' : Statement}
    (h : (Statement.pipeline [.command (name :: mode?.toList ++ [.script body]) span] span').Like
      L s') :
    ∃ name' mode?' body' own own',
      s' = .pipeline [.command (name' :: mode?'.toList ++ [.script body']) own] own' ∧
        name.Like L name' ∧ Option.Rel (Element.Like L) mode? mode?' ∧ body.Like L body' := by
  obtain ⟨_, own, own', rfl, helements⟩ := h.of_command
  cases mode? with
  | none =>
    obtain _ | ⟨hname, _ | ⟨hbody, ⟨⟩⟩⟩ := helements
    cases hbody with
    | script hbody => exact ⟨_, none, _, own, own', rfl, hname, .none, hbody⟩
  | some mode =>
    obtain _ | ⟨hname, _ | ⟨hmode, _ | ⟨hbody, ⟨⟩⟩⟩⟩ := helements
    cases hbody with
    | script hbody => exact ⟨_, some _, _, own, own', rfl, hname, .some hmode, hbody⟩

theorem Script.Statement.Like.of_property {type name : Element} {span span' : Span} {s' : Statement}
    (h : (Statement.pipeline [.command [type, name] span] span').Like L s') :
    ∃ type' name' own own', s' = .pipeline [.command [type', name'] own] own' ∧
      type.Like L type' ∧ name.Like L name' := by
  obtain ⟨_, own, own', rfl, helements⟩ := h.of_command
  obtain _ | ⟨htype, _ | ⟨hname, ⟨⟩⟩⟩ := helements
  exact ⟨_, _, own, own', rfl, htype, hname⟩

theorem rel_getElem? {α β : Type} {r : α → β → Prop} {as : List α} {bs : List β}
    (h : List.Forall₂ r as bs) (i : Nat) : Option.Rel r as[i]? bs[i]? := by
  induction h generalizing i with
  | nil => exact .none
  | cons hfirst _ ih =>
    cases i with
    | zero => exact .some hfirst
    | succ i => exact ih i

theorem Script.Statement.Like.sameName_word {s s' : Statement} (h : s.Like .recased s') (i : Nat) :
    sameName (s.word i) (s'.word i) = true := by
  rcases h with ⟨_ | ⟨⟨helements, -⟩ | _, _ | _⟩, -⟩ | _ | _
  case pipeline.cons.command.nil =>
    have htexts := List.rel_map (P := fun a b => sameName a b = true)
      (fun _ _ h => Script.Element.Like.sameName_text h) helements
    have hword := rel_getD (rel_getElem? htexts i) (sameName_refl "")
    rwa [List.getElem?_map, List.getElem?_map] at hword
  all_goals exact sameName_refl _

end Pieces

theorem NameMode.ReadFrom.recased {mode : NameMode} {mode? mode?' : Option Element}
    (h : mode.ReadFrom mode?) (hlike : Option.Rel (Element.Like .recased) mode? mode?') :
    mode.ReadFrom mode?' := by
  cases hlike with
  | none => exact h
  | some helement =>
    have hword : ∀ word : String, sameName _ word = true → sameName _ word = true := fun word h => by
      rwa [sameName_comm, ← sameName_congr helement.sameName_text, sameName_comm]
    cases mode with
    | noName => exact h
    | optionalName => exact hword _ h
    | nameRequired => exact hword _ h

/-! ## Well-formed scripts -/

/-- The same names are reserved, and bound to other commands, up to case. -/
structure Rules.Recased (rules rules' : Rules) : Prop where
  reserved : rules'.reserved = rules.reserved
  bound : ∀ {name name' : String}, sameName name name' = true →
    (∀ binding ∈ rules.lookup name, binding.pointsTo rules.dispatcher = true) →
    ∀ binding ∈ rules'.lookup name', binding.pointsTo rules'.dispatcher = true

/-- The keyword, or the root, is the same up to case. -/
abbrev SameParent : Option String → Option String → Prop :=
  Option.Rel fun name name' => sameName name name' = true

section Recased

variable {rules rules' : Rules} {findType : String → Option HostType}

theorem Script.Statement.DeclaresProperty.recased (hrules : rules.Recased rules')
    (hcase : ∀ a b, foldCase a = foldCase b → findType a = findType b) {s s' : Statement}
    (h : s.DeclaresProperty rules findType) (hlike : s.Like .recased s') :
    s'.DeclaresProperty rules' findType := by
  obtain ⟨literal, known, spelled, free⟩ := h
  obtain ⟨type', name', own, own', rfl, htype, hname⟩ := hlike.of_property
  have htext := sameName_unbracketed hname.sameName_text
  have hfound := hcase _ _ (sameName_iff.1 htype.sameName_text)
  refine .mk (isLiteral_of_like (.cons htype (.cons hname .nil)) literal) (hfound ▸ known)
    (spelled.recased isWordChar_toLower htext) fun field hfield => ?_
  rw [hrules.reserved] at hfield
  rw [← sameName_congr htext]
  exact free field hfield

mutual

/-- A script that is well-formed is well-formed in any case. -/
theorem Script.Block.WellFormed.recased (hrules : rules.Recased rules')
    (hcase : ∀ a b, foldCase a = foldCase b → findType a = findType b)
    {parent? parent?' : Option String} (hparent : SameParent parent? parent?')
    {block block' : Block} (h : block.WellFormed rules findType parent?)
    (hlike : block.Like .recased block') : block'.WellFormed rules' findType parent?' := by
  have hbegin := rel_isNone hlike.begin?
  have hprocess := rel_isNone hlike.process?
  cases h with
  | keywords noBegin noProcess each distinct =>
    rw [noBegin] at hbegin
    rw [noProcess] at hprocess
    refine .keywords (Option.isNone_iff_eq_none.1 hbegin.symm)
      (Option.isNone_iff_eq_none.1 hprocess.symm) ?_ ?_
    · refine forall_of_forall₂ hlike.statements fun s hs s' hlike => ?_
      have hlt : sizeOf s < sizeOf block :=
        Nat.lt_trans (List.sizeOf_lt_of_mem hs) block.statements_lt
      exact Script.Statement.DeclaresKeyword.recased hrules hcase hparent (each s hs) hlike
    · refine pairwise_of_forall₂ hlike.statements (fun s _ t _ s' t' hs ht hne => ?_) distinct
      rwa [← sameName_congr (ht.sameName_word 0), sameName_comm, ← sameName_congr (hs.sameName_word 0),
        sameName_comm]
  | properties noBegin noProcess each distinct =>
    rw [noBegin] at hbegin
    rw [noProcess] at hprocess
    cases hparent with
    | some _ =>
      refine .properties (Option.isNone_iff_eq_none.1 hbegin.symm)
        (Option.isNone_iff_eq_none.1 hprocess.symm) ?_ ?_
      · exact forall_of_forall₂ hlike.statements fun s hs s' hlike =>
          (each s hs).recased hrules hcase hlike
      · refine pairwise_of_forall₂ hlike.statements (fun s _ t _ s' t' hs ht hne => ?_) distinct
        rwa [← sameName_congr (sameName_unbracketed (ht.sameName_word 1)), sameName_comm,
          ← sameName_congr (sameName_unbracketed (hs.sameName_word 1)), sameName_comm]
termination_by sizeOf block

theorem Script.Statement.DeclaresKeyword.recased (hrules : rules.Recased rules')
    (hcase : ∀ a b, foldCase a = foldCase b → findType a = findType b)
    {parent? parent?' : Option String} (hparent : SameParent parent? parent?') {s s' : Statement}
    (h : s.DeclaresKeyword rules findType parent?) (hlike : s.Like .recased s') :
    s'.DeclaresKeyword rules' findType parent?' := by
  obtain @⟨_, name, mode?, body, span, span', literal, spelled, notParent, bound, mode, notEmpty,
    wellFormed⟩ := h
  obtain ⟨name', mode?', body', own, own', rfl, hname, hmode, hbody⟩ := hlike.of_keyword
  have htext := hname.sameName_text
  have hcommand : Shape.commandOf (.pipeline [.command (name :: mode?.toList ++ [.script body])
    span] span') = .ok ⟨name :: mode?.toList ++ [.script body], span⟩ := rfl
  have hlt := Shape.body_lt hcommand (Shape.ofCommand_keyword name mode? body span)
  refine .mk ?_ (spelled.recased isAlpha_toLower htext) ?_ ?_ ?_ (hbody.isEmpty_eq.trans notEmpty)
    (wellFormed.recased hrules hcase (.some htext) hbody)
  · refine isLiteral_of_like (.cons hname ?_) literal
    cases hmode with
    | none => exact .nil
    | some hmode => exact .cons hmode .nil
  · rintro parent' hmem
    cases hmem
    cases hparent with
    | some hparent =>
      rw [← sameName_congr htext, sameName_comm, ← sameName_congr hparent, sameName_comm]
      exact notParent _ rfl
  · rintro rfl
    cases hparent
    exact hrules.bound htext (bound rfl)
  · obtain ⟨mode, hread⟩ := NameMode.exists_readFrom_iff.2 mode
    exact NameMode.exists_readFrom_iff.1 ⟨mode, hread.recased hmode⟩
termination_by sizeOf s

end

/-! ## What scripts say -/

theorem PropertyDecl.WrittenIn.like (hcase : ∀ a b, foldCase a = foldCase b → findType a = findType b)
    {decl decl' : PropertyDecl} {s s' : Statement} (h : decl.WrittenIn findType s)
    (h' : decl'.WrittenIn findType s') (hlike : s.Like .recased s') :
    decl.property.Like .anyCase decl'.property := by
  obtain ⟨type, name, span, rfl, -, hfound, hname, hrequired⟩ := h
  obtain ⟨type', name', span', heq, -, hfound', hname', hrequired'⟩ := h'
  obtain ⟨_, _, _, _, heq', htype, htext⟩ := hlike.of_property
  cases heq.symm.trans heq'
  refine ⟨?_, ?_, ?_⟩
  · rw [hname, hname']
    exact sameName_unbracketed htext.sameName_text
  · rw [Bool.eq_iff_iff, hrequired, hrequired']
    exact (eq_unbracketed_congr htext.sameName_text).symm
  · rw [hcase _ _ (sameName_iff.1 htype.sameName_text), hfound'] at hfound
    exact Option.some.inj hfound

/-- What is like the statement of a keyword does not declare a property. -/
theorem KeywordDecl.WrittenIn.noProperty {decl : KeywordDecl} {s s' : Statement}
    (h : decl.WrittenIn findType s) (hlike : s.Like .recased s') (decl' : PropertyDecl) :
    ¬ decl'.WrittenIn findType s' := by
  obtain ⟨name, mode, body, span⟩ := decl
  obtain ⟨word, mode?, block, span', rfl, -⟩ := h
  obtain ⟨word', mode?', block', _, _, rfl, -⟩ := hlike.of_keyword
  rintro ⟨type, name, _, heq, literal, -⟩
  simp only [Statement.pipeline.injEq, List.cons.injEq, Stage.command.injEq] at heq
  obtain rfl := eq_script_of_keywordElements heq.1.1.1
  cases literal _ (.tail _ (.head _))

/-- What is like the statement of a property does not declare a keyword. -/
theorem PropertyDecl.WrittenIn.noKeyword {decl : PropertyDecl} {s s' : Statement}
    (h : decl.WrittenIn findType s) (hlike : s.Like .recased s') (decl' : KeywordDecl) :
    ¬ decl'.WrittenIn findType s' := by
  obtain ⟨type, name, span', rfl, literal, -⟩ := h
  obtain ⟨type', name', _, _, rfl, -, hname⟩ := hlike.of_property
  obtain ⟨name, mode, body, span⟩ := decl'
  rintro ⟨word, mode?, block, _, heq, -⟩
  simp only [Statement.pipeline.injEq, List.cons.injEq, Stage.command.injEq] at heq
  obtain rfl := eq_script_of_keywordElements heq.1.1.1.symm
  cases hname.isLiteral_eq.trans (literal _ (.tail _ (.head _)))

/-- What is written in statements that are related is related one by one. -/
theorem forall₂_of_related {α β γ δ : Type} {R : α → γ → Prop} {S : β → δ → Prop}
    {Q : γ → δ → Prop} {T : α → β → Prop} {xs : List α} {ys : List β} {ss : List γ} {ss' : List δ}
    (h : List.Forall₂ R xs ss) (h' : List.Forall₂ S ys ss') (hQ : List.Forall₂ Q ss ss')
    (hT : ∀ x ∈ xs, ∀ y s s', R x s → S y s' → Q s s' → T x y) : List.Forall₂ T xs ys := by
  have hmiddle : List.Forall₂ (fun s y => ∃ s', S y s' ∧ Q s s') ss ys :=
    forall₂_of_common hQ h' fun s _ y s' hs hy => ⟨s', hy, hs⟩
  refine forall₂_of_common h hmiddle.flip fun x hx y s hxs hys => ?_
  obtain ⟨s', hy, hs⟩ := hys
  exact hT x hx y s s' hxs hy hs

mutual

/-- Keywords whose statements are alike are alike. -/
theorem KeywordDecl.WrittenIn.like (hcase : ∀ a b, foldCase a = foldCase b → findType a = findType b) :
    ∀ (decl decl' : KeywordDecl) (s s' : Statement), decl.WrittenIn findType s →
      decl'.WrittenIn findType s' → s.Like .recased s' → decl.Like .anyCase decl'
  | .mk name mode body span, .mk name' mode' body' span', s, s', h, h', hlike => by
    obtain ⟨word, mode?, block, _, rfl, rfl, hmode, hbody⟩ := h
    obtain ⟨word', mode?', block', _, heq, rfl, hmode', hbody'⟩ := h'
    obtain ⟨_, _, _, _, _, heq', hword, hmodes, hblock⟩ := hlike.of_keyword
    have hsame := heq.symm.trans heq'
    simp only [Statement.pipeline.injEq, List.cons.injEq, Stage.command.injEq] at hsame
    obtain ⟨rfl, rfl, rfl⟩ := keywordElements_inj hsame.1.1.1
    obtain rfl := (hmode.recased hmodes).unique hmode'
    exact .mk hword.sameName_text (Grammar.WrittenIn.like hcase body body' hbody hbody' hblock)

/-- Grammars whose blocks are alike are alike. -/
theorem Grammar.WrittenIn.like (hcase : ∀ a b, foldCase a = foldCase b → findType a = findType b) :
    ∀ (g g' : Grammar) {block block' : Block}, g.WrittenIn findType block →
      g'.WrittenIn findType block' → block.Like .recased block' → g.Like .anyCase g'
  | .keywords decls _, g', block, block', h, h', hlike => by
    obtain ⟨-, hdecls⟩ := h
    rw [Grammar.allWrittenIn_iff] at hdecls
    cases g' with
    | keywords decls' =>
      exact .keywords (forall₂_of_related hdecls (Grammar.allWrittenIn_iff.1 h'.2) hlike.statements
        (KeywordDecl.AllWrittenIn.like hcase decls))
    | properties decls' =>
      have hnone : List.Forall₂ (fun _ _ => False) decls decls' :=
        forall₂_of_related hdecls h'.2.2 hlike.statements
          fun decl _ decl' s s' hdecl hdecl' hs => hdecl.noProperty hs decl' hdecl'
      cases hnone with
      | nil => exact absurd rfl h'.2.1
      | cons hfalse => exact hfalse.elim
  | .properties decls _, g', block, block', h, h', hlike => by
    obtain ⟨-, hne, hdecls⟩ := h
    cases g' with
    | keywords decls' =>
      have hnone : List.Forall₂ (fun _ _ => False) decls decls' :=
        forall₂_of_related hdecls (Grammar.allWrittenIn_iff.1 h'.2) hlike.statements
          fun decl _ decl' s s' hdecl hdecl' hs => hdecl.noKeyword hs decl' hdecl'
      cases hnone with
      | nil => exact absurd rfl hne
      | cons hfalse => exact hfalse.elim
    | properties decls' =>
      exact .properties (forall₂_of_related hdecls h'.2.2 hlike.statements
        fun decl _ decl' s s' hdecl hdecl' hs => hdecl.like hcase hdecl' hs)

theorem KeywordDecl.AllWrittenIn.like
    (hcase : ∀ a b, foldCase a = foldCase b → findType a = findType b) :
    ∀ (decls : List KeywordDecl), ∀ decl ∈ decls, ∀ (decl' : KeywordDecl) (s s' : Statement),
      decl.WrittenIn findType s → decl'.WrittenIn findType s' → s.Like .recased s' →
      decl.Like .anyCase decl'
  | [] => nofun
  | decl :: decls => List.forall_mem_cons.2
    ⟨KeywordDecl.WrittenIn.like hcase decl, KeywordDecl.AllWrittenIn.like hcase decls⟩

end

end Recased

/-- One script is accepted just if the other one is that is the same up to case, and then the grammars
are alike. -/
theorem Grammar.check_recased {rules rules' : Rules} (hrules : rules.Recased rules')
    (types : TypeTable) {block block' : Block} (hlike : block.Like .recased block') {g : Grammar}
    (hg : Grammar.check rules types.find? none block = .ok g) :
    ∃ g', Grammar.check rules' types.find? none block' = .ok g' ∧ g.Like .anyCase g' := by
  have hcase : ∀ a b, foldCase a = foldCase b → types.find? a = types.find? b :=
    fun _ _ => types.find?_congr
  have h := Grammar.check_exact rules hcase none block
  rw [hg] at h
  have h' := Grammar.check_exact rules' hcase none block'
  cases hg' : Grammar.check rules' types.find? none block' with
  | error e =>
    rw [hg'] at h'
    exact absurd (h.1.recased hrules hcase .none hlike) h'
  | ok g' =>
    rw [hg'] at h'
    exact ⟨g', rfl, h.2.like hcase g g' h'.2 hlike⟩

end KeywordScope
