import KeywordScope.Binding.Layered
import KeywordScope.Proofs.Grammar.Exact
import KeywordScope.Proofs.Grammar.Sketch

/-!
# Sketches come back

A forest of keywords that is written down as a script, read and checked comes back as it was.

* `KeywordSketch.DeclaredBy`: the declaration has the names, modes, flags and types of the sketch.
* `KeywordSketch.declares`: what is read of a sketch is well-formed.
* `KeywordSketch.declaredBy`: what is written in the statement that is read of a sketch is the
  sketch.
* `KeywordSketch.check_source`: the round trip.
-/

namespace KeywordScope

open Script

/-! ## Sketches and declarations -/

section DeclaredBy

variable (findType : String → Option HostType)

/-- The declaration has the name, the flag and the type of the sketch. -/
def PropertySketch.DeclaredBy (sketch : PropertySketch) (decl : PropertyDecl) : Prop :=
  decl.property.name = sketch.name ∧ decl.property.required = sketch.required ∧
    findType sketch.token = some decl.property.type

mutual

/-- The declaration has the name, the mode and the body of the sketch. -/
def KeywordSketch.DeclaredBy : KeywordSketch → KeywordDecl → Prop
  | .mk name mode body, .mk name' mode' body' _ =>
    name' = name ∧ mode' = mode ∧ body.DeclaredBy body'

/-- The grammar has the declarations of the sketch, in order. -/
def BlockSketch.DeclaredBy : BlockSketch → Grammar → Prop
  | .keywords sketches, .keywords decls _ => KeywordSketch.AllDeclaredBy sketches decls
  | .properties sketches, .properties decls _ =>
    List.Forall₂ (PropertySketch.DeclaredBy findType) sketches decls
  | _, _ => False

/-- The declarations are those of the sketches, in order. -/
def KeywordSketch.AllDeclaredBy : List KeywordSketch → List KeywordDecl → Prop
  | [], [] => True
  | sketch :: sketches, decl :: decls =>
    sketch.DeclaredBy decl ∧ KeywordSketch.AllDeclaredBy sketches decls
  | _, _ => False

end

theorem KeywordSketch.allDeclaredBy_iff {sketches : List KeywordSketch} {decls : List KeywordDecl} :
    KeywordSketch.AllDeclaredBy findType sketches decls ↔
      List.Forall₂ (KeywordSketch.DeclaredBy findType) sketches decls := by
  induction sketches generalizing decls with
  | nil => cases decls <;> simp [KeywordSketch.AllDeclaredBy]
  | cons sketch sketches ih => cases decls <;> simp [KeywordSketch.AllDeclaredBy, ih]

variable {findType}

theorem BlockSketch.DeclaredBy.of_keywords {sketches : List KeywordSketch} {g : Grammar}
    (h : (BlockSketch.keywords sketches).DeclaredBy findType g) : ∃ decls span,
      g = .keywords decls span ∧ List.Forall₂ (KeywordSketch.DeclaredBy findType) sketches decls := by
  cases g with
  | keywords decls span =>
    simp only [BlockSketch.DeclaredBy, KeywordSketch.allDeclaredBy_iff] at h
    exact ⟨decls, span, rfl, h⟩
  | properties decls span => simp [BlockSketch.DeclaredBy] at h

theorem BlockSketch.DeclaredBy.of_properties {sketches : List PropertySketch} {g : Grammar}
    (h : (BlockSketch.properties sketches).DeclaredBy findType g) : ∃ decls span,
      g = .properties decls span ∧
        List.Forall₂ (PropertySketch.DeclaredBy findType) sketches decls := by
  cases g with
  | keywords decls span => simp [BlockSketch.DeclaredBy] at h
  | properties decls span =>
    simp only [BlockSketch.DeclaredBy] at h
    exact ⟨decls, span, rfl, h⟩

theorem KeywordSketch.DeclaredBy.of_mk {name : String} {mode : NameMode} {body : BlockSketch}
    {decl : KeywordDecl} (h : (KeywordSketch.mk name mode body).DeclaredBy findType decl) :
    ∃ body' span, decl = .mk name mode body' span ∧ body.DeclaredBy findType body' := by
  obtain ⟨_, _, body', span⟩ := decl
  simp only [KeywordSketch.DeclaredBy] at h
  obtain ⟨rfl, rfl, hbody⟩ := h
  exact ⟨body', span, rfl, hbody⟩

end DeclaredBy

/-! ## Words -/

/-- The written name tells the name and whether the property is required. -/
theorem PropertySketch.unbracketed_written {sketch : PropertySketch}
    (h : Spelled isWordChar sketch.name) : unbracketed sketch.written = sketch.name ∧
      (sketch.required = true ↔ sketch.written = sketch.name) := by
  unfold PropertySketch.written
  split
  · next hrequired =>
    refine ⟨unbracketed_of_not fun rest hrest => ?_, by simp [hrequired]⟩
    exact absurd (h.2 '[' (by simp [hrest])) (by decide)
  · next hoptional =>
    have htext : ("[" ++ sketch.name ++ "]").toList = '[' :: (sketch.name.toList ++ [']']) := by simp
    obtain ⟨hinner, hdiffer⟩ := unbracketed_of_bracketed htext (by simp)
    rw [List.dropLast_concat, String.ofList_toList] at hinner
    rw [hinner] at hdiffer ⊢
    exact ⟨rfl, by simp [hoptional, hdiffer]⟩

theorem PropertySketch.ReadAs.word {sketch : PropertySketch} {s : Statement} (h : sketch.ReadAs s) :
    s.word 1 = sketch.written := by
  obtain ⟨a, b, span, span', rfl⟩ := h
  rfl

theorem KeywordSketch.ReadAs.word {sketch : KeywordSketch} {s : Statement} (h : sketch.ReadAs s) :
    s.word 0 = sketch.name := by
  obtain ⟨name, mode, body⟩ := sketch
  simp only [KeywordSketch.ReadAs] at h
  obtain ⟨a, mode?, block, span, span', rfl, -⟩ := h
  rfl

/-- The word for a mode asks for this mode. -/
theorem NameMode.ReadAs.readFrom {mode : NameMode} {mode? : Option Element} (h : mode.ReadAs mode?) :
    mode.ReadFrom mode? := by
  cases mode with
  | noName =>
    obtain rfl := h
    trivial
  | optionalName =>
    obtain ⟨a, rfl⟩ := h
    exact sameName_refl _
  | nameRequired =>
    obtain ⟨a, rfl⟩ := h
    exact sameName_refl _

theorem NameMode.ReadFrom.unique {mode mode' : NameMode} {mode? : Option Element}
    (h : mode.ReadFrom mode?) (h' : mode'.ReadFrom mode?) : mode = mode' := by
  let command : Command := ⟨[], ⟨0, 0⟩⟩
  have hok : nameModeOf command mode? = .ok mode := nameModeOf_eq_ok_iff.2 h
  have hok' : nameModeOf command mode? = .ok mode' := nameModeOf_eq_ok_iff.2 h'
  exact Except.ok.inj (hok.symm.trans hok')

theorem NameMode.ReadAs.isLiteral {mode : NameMode} {mode? : Option Element}
    (h : mode.ReadAs mode?) : ∀ e ∈ mode?.toList, e.isLiteral = true := by
  unfold NameMode.ReadAs at h
  split at h
  · subst h
    exact nofun
  · obtain ⟨a, rfl⟩ := h
    exact List.forall_mem_singleton.2 rfl

/-! ## What is read is well-formed -/

/-- What is related to distinct things is distinct, if the relation tells it apart as well. -/
theorem pairwise_of_forall₂ {α β : Type} {R : α → β → Prop} {P : α → α → Prop} {Q : β → β → Prop}
    {xs : List α} {ys : List β} (h : List.Forall₂ R xs ys)
    (hPQ : ∀ x ∈ xs, ∀ x' ∈ xs, ∀ y y', R x y → R x' y' → P x x' → Q y y')
    (hxs : xs.Pairwise P) : ys.Pairwise Q := by
  induction h with
  | nil => exact .nil
  | @cons x y xs ys hxy hmore ih =>
    obtain ⟨hx, hxs⟩ := List.pairwise_cons.1 hxs
    refine .cons (forall_of_forall₂ hmore fun x' hx' y' hxy' => ?_)
      (ih (fun a ha b hb => hPQ a (.tail _ ha) b (.tail _ hb)) hxs)
    exact hPQ x (.head _) x' (.tail _ hx') y y' hxy hxy' (hx x' hx')

section

variable {rules : Rules} {findType : String → Option HostType}

theorem KeywordSketch.AllAdmissible.pairwise {parent? : Option String}
    {sketches : List KeywordSketch}
    (h : KeywordSketch.AllAdmissible findType rules.reserved parent? sketches) :
    sketches.Pairwise fun a b => ¬ sameName a.name b.name = true := by
  induction sketches with
  | nil => exact .nil
  | cons sketch sketches ih =>
    simp only [KeywordSketch.AllAdmissible] at h
    exact .cons h.2.1 (ih h.2.2)

theorem PropertySketch.declares {sketch : PropertySketch}
    (h : sketch.Admissible findType rules.reserved) {s : Statement} (hs : sketch.ReadAs s) :
    s.DeclaresProperty rules findType := by
  obtain ⟨hname, -⟩ := PropertySketch.unbracketed_written h.name
  obtain ⟨a, b, span, span', rfl⟩ := hs
  have hspelled := h.name
  have hfree := h.free
  rw [← hname] at hspelled hfree
  exact .mk (by simp [Element.isLiteral]) h.known hspelled hfree

/-- A block of which several declarations are read is not empty. -/
theorem isEmpty_of_forall₂ {α : Type} {R : α → Statement → Prop} {sketches : List α} {block : Block}
    (hne : sketches ≠ []) (h : List.Forall₂ R sketches block.statements) : block.isEmpty = false := by
  have hstatements : block.statements ≠ [] := fun hnone =>
    hne (List.forall₂_nil_right_iff.1 (hnone ▸ h))
  simp [Block.isEmpty, hstatements]

/-- A block with what is read of the sketches is well-formed if they declare keywords. -/
theorem KeywordSketch.wellFormed {parent? : Option String} {sketches : List KeywordSketch}
    (h : KeywordSketch.AllAdmissible findType rules.reserved parent? sketches) {block : Block}
    (hbegin : block.begin? = none) (hprocess : block.process? = none)
    (hs : KeywordSketch.AllReadAs sketches block.statements)
    (hdeclare : ∀ sketch ∈ sketches, ∀ s, sketch.ReadAs s →
      s.DeclaresKeyword rules findType parent?) : block.WellFormed rules findType parent? := by
  rw [KeywordSketch.allReadAs_iff] at hs
  refine .keywords hbegin hprocess (forall_of_forall₂ hs hdeclare) ?_
  refine pairwise_of_forall₂ hs (fun sketch _ sketch' _ s s' hread hread' hdistinct => ?_) h.pairwise
  rwa [hread.word, hread'.word]

mutual

/-- What is read of a sketch declares a keyword, where nothing is bound. -/
theorem KeywordSketch.declares (hnothing : ∀ name, rules.lookup name = none)
    (parent? : Option String) : (sketch : KeywordSketch) →
    sketch.Admissible findType rules.reserved parent? → ∀ {s : Statement}, sketch.ReadAs s →
    s.DeclaresKeyword rules findType parent?
  | .mk name mode body, h, s, hs => by
    simp only [KeywordSketch.Admissible] at h
    simp only [KeywordSketch.ReadAs] at hs
    obtain ⟨hname, hparent, -, -, hbody⟩ := h
    obtain ⟨a, mode?, block, span, span', rfl, hmode, hbegin, hprocess, hread⟩ := hs
    obtain ⟨hinner, hsome⟩ := BlockSketch.wellFormed hnothing name body hbody hbegin hprocess hread
    refine .mk (List.forall_mem_cons.2 ⟨rfl, hmode.isLiteral⟩) hname hparent ?_ ?_ hsome hinner
    · intro _ binding hbinding
      rw [hnothing] at hbinding
      cases hbinding
    · exact NameMode.exists_readFrom_iff.1 ⟨mode, hmode.readFrom⟩

/-- What is read of a block is a well-formed block that is not empty. -/
theorem BlockSketch.wellFormed (hnothing : ∀ name, rules.lookup name = none) (parent : String) :
    (body : BlockSketch) →
    body.Admissible findType rules.reserved parent → ∀ {block : Block}, block.begin? = none →
    block.process? = none → body.ReadAs block.statements →
    block.WellFormed rules findType (some parent) ∧ block.isEmpty = false
  | .keywords sketches, h, block, hbegin, hprocess, hs => by
    simp only [BlockSketch.Admissible] at h
    simp only [BlockSketch.ReadAs] at hs
    refine ⟨KeywordSketch.wellFormed h.2 hbegin hprocess hs ?_, ?_⟩
    · exact KeywordSketch.allDeclare hnothing (some parent) sketches h.2
    · exact isEmpty_of_forall₂ h.1 (KeywordSketch.allReadAs_iff.1 hs)
  | .properties sketches, h, block, hbegin, hprocess, hs => by
    simp only [BlockSketch.Admissible] at h
    simp only [BlockSketch.ReadAs] at hs
    obtain ⟨hne, heach, hdistinct⟩ := h
    refine ⟨.properties hbegin hprocess ?_ ?_, isEmpty_of_forall₂ hne hs⟩
    · exact forall_of_forall₂ hs fun sketch hsketch _ => PropertySketch.declares (heach sketch hsketch)
    · have hname : ∀ sketch ∈ sketches, ∀ s, sketch.ReadAs s →
          unbracketed (s.word 1) = sketch.name := fun sketch hsketch s hread => by
        rw [hread.word, (PropertySketch.unbracketed_written (heach sketch hsketch).name).1]
      refine pairwise_of_forall₂ hs (fun sketch h sketch' h' s s' hread hread' hdistinct => ?_)
        hdistinct
      rwa [hname sketch h s hread, hname sketch' h' s' hread']

theorem KeywordSketch.allDeclare (hnothing : ∀ name, rules.lookup name = none)
    (parent? : Option String) : (sketches : List KeywordSketch) →
    KeywordSketch.AllAdmissible findType rules.reserved parent? sketches → ∀ sketch ∈ sketches,
    ∀ s, sketch.ReadAs s → s.DeclaresKeyword rules findType parent?
  | [], _ => nofun
  | sketch :: sketches, h => by
    simp only [KeywordSketch.AllAdmissible] at h
    exact List.forall_mem_cons.2 ⟨fun _ => KeywordSketch.declares hnothing parent? sketch h.1,
      KeywordSketch.allDeclare hnothing parent? sketches h.2.2⟩

end

end

/-! ## What is written comes back -/

section

variable {findType : String → Option HostType}

theorem PropertySketch.declaredBy {reserved : List String} {sketch : PropertySketch}
    (h : sketch.Admissible findType reserved) (decl : PropertyDecl) (s : Statement)
    (hs : sketch.ReadAs s) (hdecl : decl.WrittenIn findType s) : sketch.DeclaredBy findType decl := by
  obtain ⟨hname, hrequired⟩ := PropertySketch.unbracketed_written h.name
  obtain ⟨a, b, span, span', rfl⟩ := hs
  obtain ⟨type, name, span'', heq, -, htype, hname', hrequired'⟩ := hdecl
  simp only [Statement.pipeline.injEq, List.cons.injEq, Stage.command.injEq] at heq
  obtain ⟨⟨⟨⟨rfl, rfl, -⟩, -⟩, -⟩, -⟩ := heq
  simp only [Element.text, hname] at htype hname' hrequired'
  exact ⟨hname', Bool.eq_iff_iff.2 (hrequired'.trans hrequired.symm), htype⟩

/-- No property is written in what is read of a keyword. -/
theorem KeywordSketch.ReadAs.noProperty {sketch : KeywordSketch} {s : Statement}
    (h : sketch.ReadAs s) (decl : PropertyDecl) : ¬ decl.WrittenIn findType s := by
  obtain ⟨name, mode, body⟩ := sketch
  simp only [KeywordSketch.ReadAs] at h
  obtain ⟨a, mode?, block, span, span', rfl, -⟩ := h
  rintro ⟨type, last, span'', heq, hliteral, -⟩
  simp only [Statement.pipeline.injEq, List.cons.injEq, Stage.command.injEq] at heq
  obtain rfl := eq_script_of_keywordElements heq.1.1.1
  cases hliteral (.script block) (by simp)

/-- No keyword is written in what is read of a property. -/
theorem PropertySketch.ReadAs.noKeyword {sketch : PropertySketch} {s : Statement}
    (h : sketch.ReadAs s) (decl : KeywordDecl) : ¬ decl.WrittenIn findType s := by
  obtain ⟨a, b, span, span', rfl⟩ := h
  obtain ⟨name, mode, body, declSpan⟩ := decl
  simp only [KeywordDecl.WrittenIn]
  rintro ⟨word, mode?, block, span'', heq, -⟩
  simp only [Statement.pipeline.injEq, List.cons.injEq, Stage.command.injEq] at heq
  cases eq_script_of_keywordElements heq.1.1.1.symm

/-- What is read of the same things is related one by one. -/
theorem forall₂_of_common {α β γ : Type} {R : α → γ → Prop} {S : β → γ → Prop} {T : α → β → Prop}
    {xs : List α} {ys : List β} {zs : List γ} (h : List.Forall₂ R xs zs)
    (h' : List.Forall₂ S ys zs) (hT : ∀ x ∈ xs, ∀ y z, R x z → S y z → T x y) :
    List.Forall₂ T xs ys := by
  induction h generalizing ys with
  | nil =>
    cases h'
    exact .nil
  | cons hxz _ ih =>
    cases h' with
    | cons hyz hmore =>
      obtain ⟨hx, hxs⟩ := List.forall_mem_cons.1 hT
      exact .cons (hx _ _ hxz hyz) (ih hmore hxs)

/-- The grammar of a block of keywords is that of the sketches, if each keyword is. -/
theorem KeywordSketch.grammar_declaredBy {sketches : List KeywordSketch} {block : Block}
    (hs : KeywordSketch.AllReadAs sketches block.statements) {g : Grammar}
    (hg : g.WrittenIn findType block)
    (heach : ∀ sketch ∈ sketches, ∀ (decl : KeywordDecl) (s : Statement), sketch.ReadAs s →
      decl.WrittenIn findType s → sketch.DeclaredBy findType decl) :
    (BlockSketch.keywords sketches).DeclaredBy findType g := by
  rw [KeywordSketch.allReadAs_iff] at hs
  cases g with
  | keywords decls span =>
    simp only [Grammar.WrittenIn, Grammar.allWrittenIn_iff] at hg
    simp only [BlockSketch.DeclaredBy, KeywordSketch.allDeclaredBy_iff]
    exact forall₂_of_common hs hg.2 heach
  | properties decls span =>
    -- The grammar has a property, but none is written.
    simp only [Grammar.WrittenIn] at hg
    obtain ⟨-, hne, hdecls⟩ := hg
    have hnone : List.Forall₂ (fun _ _ => False) sketches decls :=
      forall₂_of_common hs hdecls fun _ _ decl _ hread => hread.noProperty decl
    cases hnone with
    | nil => exact absurd rfl hne
    | cons hfalse _ => exact hfalse.elim

mutual

/-- A keyword that is written in what is read of a sketch is the one of the sketch. -/
theorem KeywordSketch.declaredBy {reserved : List String} (parent? : Option String) :
    (sketch : KeywordSketch) → sketch.Admissible findType reserved parent? →
    ∀ (decl : KeywordDecl) (s : Statement), sketch.ReadAs s → decl.WrittenIn findType s →
    sketch.DeclaredBy findType decl
  | .mk name mode body, h, .mk name' mode' body' declSpan, s, hs, hdecl => by
    -- Both speak of one statement, so its parts are the same.
    simp only [KeywordSketch.Admissible] at h
    simp only [KeywordSketch.ReadAs] at hs
    simp only [KeywordDecl.WrittenIn] at hdecl
    obtain ⟨a, mode?, block, span, span', rfl, hmode, -, -, hread⟩ := hs
    obtain ⟨word, mode?', block', span'', heq, rfl, hmode', hbody⟩ := hdecl
    simp only [Statement.pipeline.injEq, List.cons.injEq, Stage.command.injEq] at heq
    obtain ⟨rfl, rfl, rfl⟩ := keywordElements_inj heq.1.1.1
    simp only [KeywordSketch.DeclaredBy]
    exact ⟨rfl, hmode'.unique hmode.readFrom,
      BlockSketch.declaredBy name body h.2.2.2.2 hread hbody⟩

/-- The grammar that is written in what is read of a block is the one of the block. -/
theorem BlockSketch.declaredBy {reserved : List String} (parent : String) :
    (body : BlockSketch) → body.Admissible findType reserved parent → ∀ {block : Block},
    body.ReadAs block.statements → ∀ {g : Grammar}, g.WrittenIn findType block →
    body.DeclaredBy findType g
  | .keywords sketches, h, block, hs, g, hg => by
    simp only [BlockSketch.Admissible] at h
    simp only [BlockSketch.ReadAs] at hs
    exact KeywordSketch.grammar_declaredBy hs hg
      (KeywordSketch.eachDeclaredBy (some parent) sketches h.2)
  | .properties sketches, h, block, hs, g, hg => by
    simp only [BlockSketch.Admissible] at h
    simp only [BlockSketch.ReadAs] at hs
    cases g with
    | keywords decls span =>
      simp only [Grammar.WrittenIn, Grammar.allWrittenIn_iff] at hg
      have hnone : List.Forall₂ (fun _ _ => False) sketches decls :=
        forall₂_of_common hs hg.2 fun _ _ decl _ hread => hread.noKeyword decl
      cases hnone with
      | nil => exact absurd rfl h.1
      | cons hfalse _ => exact hfalse.elim
    | properties decls span =>
      simp only [Grammar.WrittenIn] at hg
      simp only [BlockSketch.DeclaredBy]
      exact forall₂_of_common hs hg.2.2 fun sketch hsketch =>
        PropertySketch.declaredBy (h.2.1 sketch hsketch)

theorem KeywordSketch.eachDeclaredBy {reserved : List String} (parent? : Option String) :
    (sketches : List KeywordSketch) →
    KeywordSketch.AllAdmissible findType reserved parent? sketches → ∀ sketch ∈ sketches,
    ∀ (decl : KeywordDecl) (s : Statement), sketch.ReadAs s → decl.WrittenIn findType s →
    sketch.DeclaredBy findType decl
  | [], _ => nofun
  | sketch :: sketches, h => by
    simp only [KeywordSketch.AllAdmissible] at h
    exact List.forall_mem_cons.2 ⟨KeywordSketch.declaredBy parent? sketch h.1,
      KeywordSketch.eachDeclaredBy parent? sketches h.2.2⟩

end

end

/-- What is read of a forest of keywords passes the check where nothing is bound, and the grammar has
the names, modes, flags and types of the forest. -/
theorem KeywordSketch.check_read (types : TypeTable) (dsl dispatcher : String)
    (reserved : List String) {forest : List KeywordSketch}
    (h : KeywordSketch.AllAdmissible types.find? reserved none forest) {block : Block}
    (hbegin : block.begin? = none) (hprocess : block.process? = none)
    (hread : KeywordSketch.AllReadAs forest block.statements) :
    ∃ g, Grammar.check ⟨dsl, dispatcher, reserved, LayeredTable.lookup {}⟩ types.find? none block =
        .ok g ∧
      (BlockSketch.keywords forest).DeclaredBy types.find? g := by
  let rules : Rules := ⟨dsl, dispatcher, reserved, LayeredTable.lookup {}⟩
  have hwellFormed : block.WellFormed rules types.find? none :=
    KeywordSketch.wellFormed h hbegin hprocess hread
      (KeywordSketch.allDeclare (fun _ => rfl) none forest h)
  have hcheck := Grammar.check_exact rules (fun _ _ => types.find?_congr) none block
  cases hresult : Grammar.check rules types.find? none block with
  | error e =>
    rw [hresult] at hcheck
    exact absurd hwellFormed hcheck
  | ok g =>
    rw [hresult] at hcheck
    exact ⟨g, rfl, KeywordSketch.grammar_declaredBy hread hcheck.2
      (KeywordSketch.eachDeclaredBy none forest h)⟩

/-- A forest of keywords comes back from its script: it is read, it passes the check where nothing
is bound, and the grammar has the names, modes, flags and types of the forest. -/
theorem KeywordSketch.check_source (types : TypeTable) (dsl dispatcher : String)
    (reserved : List String) {tab : List Char} (htab : ∀ x ∈ tab, isSpacing x = true)
    {forest : List KeywordSketch}
    (h : KeywordSketch.AllAdmissible types.find? reserved none forest) :
    ∃ block g, parse (KeywordSketch.source tab forest) = .ok block ∧
      Grammar.check ⟨dsl, dispatcher, reserved, LayeredTable.lookup {}⟩ types.find? none block =
        .ok g ∧
      (BlockSketch.keywords forest).DeclaredBy types.find? g := by
  obtain ⟨block, hparse, hbegin, hprocess, hread⟩ := KeywordSketch.parse_source htab h
  obtain ⟨g, hcheck, hdeclared⟩ :=
    KeywordSketch.check_read types dsl dispatcher reserved h hbegin hprocess hread
  exact ⟨block, g, hparse, hcheck, hdeclared⟩

/-- The sample comes back. -/
theorem KeywordSketch.check_source_sample :
    KeywordSketch.AllAdmissible ({} : TypeTable).find? ["Name"] none KeywordSketch.sample ∧
      ∃ block g, parse (KeywordSketch.source [' ', ' '] KeywordSketch.sample) = .ok block ∧
        Grammar.check ⟨"Deploy", "dispatch", ["Name"], LayeredTable.lookup {}⟩
          ({} : TypeTable).find? none block = .ok g ∧
        (BlockSketch.keywords KeywordSketch.sample).DeclaredBy ({} : TypeTable).find? g := by
  have hadmissible :
      KeywordSketch.AllAdmissible ({} : TypeTable).find? ["Name"] none KeywordSketch.sample := by
    simp only [KeywordSketch.sample, KeywordSketch.AllAdmissible, KeywordSketch.Admissible,
      BlockSketch.Admissible, KeywordSketch.name]
    decide +kernel
  exact ⟨hadmissible, KeywordSketch.check_source {} "Deploy" "dispatch" ["Name"]
    (by simp [isSpacing]) hadmissible⟩

end KeywordScope
