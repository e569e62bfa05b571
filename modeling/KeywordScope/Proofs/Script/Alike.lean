import KeywordScope.Proofs.Script.Shifted
import Mathlib.Data.List.Forall2
import Mathlib.Data.Option.Basic

/-!
# Trees that are alike

Two scripts that differ only in what does not matter to their readers have trees of one shape.

* `Likeness`: in what the pieces of two trees may differ. Words have to be the same ones in any
  spelling, since some of them make a statement a flow statement or a named block.
* `Block.Like`, `Statement.Like`, …: the trees have one shape, and differ in nothing else.
* `Node.Like.within`: what stands in the one tree stands in the other one, up to the likeness.
* `Statement.ofStages_like`, `NamedBlock.ofStatement?_like`, `Block.assemble_like`: what is
  assembled from pieces that are alike is alike.
-/

namespace KeywordScope
namespace Script

/-- In what the pieces of two trees may differ. -/
structure Likeness where
  span : Span → Span → Prop
  /-- Words, and other elements as written. -/
  text : String → String → Prop
  /-- The values of strings. -/
  value : String → String → Prop
  /-- The texts of blocks with a span. -/
  raw : Span → String → String → Prop
  /-- The texts of assigned values. -/
  assigned : String → String → Prop
  sameName_of_text : ∀ {text' text'' : String}, text text' text'' → sameName text' text'' = true

mutual

inductive Block.Like (L : Likeness) : Block → Block → Prop
  | mk {begin? begin?' process? process?' : Option NamedBlock} {endBlock endBlock' : NamedBlock}
      {text text' : String} {span span' : Span} :
      Option.Rel (NamedBlock.Like L) begin? begin?' →
      Option.Rel (NamedBlock.Like L) process? process?' → NamedBlock.Like L endBlock endBlock' →
      L.raw span text text' → L.span span span' →
      Block.Like L (.mk begin? process? endBlock text span)
        (.mk begin?' process?' endBlock' text' span')

inductive NamedBlock.Like (L : Likeness) : NamedBlock → NamedBlock → Prop
  | mk {kind : BlockKind} {unnamed : Bool} {statements statements' : List Statement}
      {span span' : Span} :
      List.Forall₂ (Statement.Like L) statements statements' → L.span span span' →
      NamedBlock.Like L (.mk kind unnamed statements span) (.mk kind unnamed statements' span')

inductive Statement.Like (L : Likeness) : Statement → Statement → Prop
  | pipeline {stages stages' : List Stage} {span span' : Span} :
      List.Forall₂ (Stage.Like L) stages stages' → L.span span span' →
      Statement.Like L (.pipeline stages span) (.pipeline stages' span')
  | flow {keyword keyword' : String} {elements elements' : List Element} {span span' : Span} :
      L.text keyword keyword' → List.Forall₂ (Element.Like L) elements elements' →
      L.span span span' →
      Statement.Like L (.flow keyword elements span) (.flow keyword' elements' span')
  | assignment {target target' value value' : String} {span span' : Span} :
      L.text target target' → L.assigned value value' → L.span span span' →
      Statement.Like L (.assignment target value span) (.assignment target' value' span')

inductive Stage.Like (L : Likeness) : Stage → Stage → Prop
  | command {elements elements' : List Element} {span span' : Span} :
      List.Forall₂ (Element.Like L) elements elements' → L.span span span' →
      Stage.Like L (.command elements span) (.command elements' span')
  | expression {element element' : Element} : Element.Like L element element' →
      Stage.Like L (.expression element) (.expression element')

inductive Element.Like (L : Likeness) : Element → Element → Prop
  | bareword {text text' : String} {span span' : Span} : L.text text text' → L.span span span' →
      Element.Like L (.bareword text span) (.bareword text' span')
  | quoted {value value' text text' : String} {span span' : Span} : L.value value value' →
      L.text text text' → L.span span span' →
      Element.Like L (.quoted value text span) (.quoted value' text' span')
  | variable {name name' text text' : String} {span span' : Span} : L.text name name' →
      L.text text text' → L.span span span' →
      Element.Like L (.variable name text span) (.variable name' text' span')
  | number {text text' : String} {span span' : Span} : L.text text text' → L.span span span' →
      Element.Like L (.number text span) (.number text' span')
  | subExpression {text text' : String} {span span' : Span} : L.text text text' →
      L.span span span' → Element.Like L (.subExpression text span) (.subExpression text' span')
  | hashtable {text text' : String} {span span' : Span} : L.text text text' → L.span span span' →
      Element.Like L (.hashtable text span) (.hashtable text' span')
  | script {block block' : Block} : Block.Like L block block' →
      Element.Like L (.script block) (.script block')

end

section Assembled

variable {L : Likeness}

/-! ## Words -/

theorem BlockKind.ofWord?_congr {word word' : String} (h : sameName word word' = true) :
    ofWord? word = ofWord? word' := by
  have hsame : ∀ kind : BlockKind, sameName kind.word word = sameName kind.word word' :=
    fun kind => sameName_congr h kind.word
  simp only [ofWord?, hsame]

theorem Element.Like.isBareword_eq {element element' : Element} (h : element.Like L element') :
    element'.isBareword = element.isBareword := by
  cases h <;> rfl

theorem Element.Like.text_of_isBareword {element element' : Element} (h : element.Like L element')
    (hword : element.isBareword = true) : L.text element.text element'.text := by
  cases h with
  | bareword htext => exact htext
  | _ => cases hword

theorem Block.Like.statements {block block' : Block} (h : block.Like L block') :
    List.Forall₂ (Statement.Like L) block.statements block'.statements := by
  cases h with
  | mk _ _ hend =>
    cases hend with
    | mk hstatements => exact hstatements

/-! ## Assembled pieces -/

/-- The stage is an expression, or a command that is led by a word. -/
def Stage.isLed : Stage → Bool
  | .command (word :: _) _ => word.isBareword
  | .command [] _ => false
  | .expression _ => true

/-- The statement of stages that are alike. Whether it is a flow statement depends on a word. -/
theorem Statement.ofStages_like {stage stage' : Stage} {stages stages' : List Stage}
    {span span' : Span} (hled : stage.isLed = true) (h : stage.Like L stage')
    (hmore : List.Forall₂ (Stage.Like L) stages stages') (hspan : L.span span span') :
    Statement.Like L (.ofStages (stage :: stages) span) (.ofStages (stage' :: stages') span') := by
  have hpipeline : Statement.Like L (.pipeline (stage :: stages) span)
      (.pipeline (stage' :: stages') span') := .pipeline (.cons h hmore) hspan
  cases h with
  | expression => exact hpipeline
  | command helements =>
    cases helements with
    | nil => exact hpipeline
    | cons hword hrest =>
      cases hmore with
      | cons => exact hpipeline
      | nil =>
        have htext := hword.text_of_isBareword hled
        rw [Statement.ofStages, Statement.ofStages,
          ← hasName_congr (L.sameName_of_text htext) flowWords]
        split
        · exact .flow htext hrest hspan
        · exact hpipeline

/-- A word and a body introduce a named block just if those do that they are like. -/
theorem NamedBlock.ofStatement?_like {statement statement' : Statement}
    (h : statement.Like L statement') : Option.Rel (NamedBlock.Like L)
      (NamedBlock.ofStatement? statement) (NamedBlock.ofStatement? statement') := by
  cases h with
  | flow | assignment => exact .none
  | pipeline hstages _ =>
    rcases hstages with _ | ⟨⟨helements, hspan⟩ | _, hmore⟩
    · exact .none
    · rcases helements with _ | ⟨hword, _ | ⟨hbody, _ | _⟩⟩
      · exact .none
      · cases hword <;> exact .none
      · cases hword with
        | bareword htext =>
          cases hbody with
          | script hblock =>
            cases hmore with
            | cons => exact .none
            | nil =>
              rw [NamedBlock.ofStatement?, NamedBlock.ofStatement?,
                ← BlockKind.ofWord?_congr (L.sameName_of_text htext)]
              rcases BlockKind.ofWord? _ with _ | kind
              · exact .none
              · exact .some (.mk hblock.statements hspan)
          | _ => exact .none
        | _ => cases hbody <;> exact .none
      · cases hword <;> cases hbody <;> exact .none
    · exact .none

theorem NamedBlock.Like.kind_eq {block block' : NamedBlock} (h : block.Like L block') :
    block'.kind = block.kind := by
  cases h
  rfl

theorem rel_isNone {α β : Type} {r : α → β → Prop} {a? : Option α} {b? : Option β}
    (h : Option.Rel r a? b?) : a?.isNone = b?.isNone := by
  cases h <;> rfl

theorem rel_none {α β : Type} {r : α → β → Prop} {a? : Option α} {b? : Option β}
    (h : Option.Rel r a? b?) (ha : a? = none) : b? = none := by
  subst ha
  cases h
  rfl

theorem rel_some {α β : Type} {r : α → β → Prop} {a? : Option α} {b? : Option β}
    (h : Option.Rel r a? b?) {a : α} (ha : a? = some a) : ∃ b, b? = some b ∧ r a b := by
  subst ha
  cases h with
  | some h => exact ⟨_, rfl, h⟩

theorem rel_isEmpty {α β : Type} {r : α → β → Prop} {as : List α} {bs : List β}
    (h : List.Forall₂ r as bs) : as.isEmpty = bs.isEmpty := by
  cases h <;> rfl

theorem rel_head? {α β : Type} {r : α → β → Prop} {as : List α} {bs : List β}
    (h : List.Forall₂ r as bs) : Option.Rel r as.head? bs.head? := by
  cases h with
  | nil => exact .none
  | cons h => exact .some h

theorem rel_getD {α β : Type} {r : α → β → Prop} {a? : Option α} {b? : Option β}
    (h : Option.Rel r a? b?) {a : α} {b : β} (hab : r a b) : r (a?.getD a) (b?.getD b) := by
  cases h with
  | none => exact hab
  | some h => exact h

/-- Blocks of statements that are alike are alike. -/
theorem Block.assemble_like {statements statements' : List Statement} {text text' : String}
    {span span' : Span} (h : List.Forall₂ (Statement.Like L) statements statements')
    (htext : L.raw span text text') (hspan : L.span span span') {block : Block}
    (hblock : Block.assemble statements text span = .ok block) :
    ∃ block', Block.assemble statements' text' span' = .ok block' ∧ block.Like L block' := by
  have hnamed := List.rel_filterMap (fun _ _ h => NamedBlock.ofStatement?_like (L := L) h) h
  have hplain : List.Forall₂ (Statement.Like L)
      (statements.filter fun s => (NamedBlock.ofStatement? s).isNone)
      (statements'.filter fun s => (NamedBlock.ofStatement? s).isNone) :=
    List.rel_filter (fun _ _ hs => by
      simp only [rel_isNone (NamedBlock.ofStatement?_like hs)]) h
  have hkind : ∀ kind : BlockKind, List.Forall₂ (NamedBlock.Like L)
      ((statements.filterMap NamedBlock.ofStatement?).filter fun block => block.kind == kind)
      ((statements'.filterMap NamedBlock.ofStatement?).filter fun block => block.kind == kind) :=
    fun kind => List.rel_filter (fun b b' hb => by
      show (b.kind == kind) = true ↔ (b'.kind == kind) = true
      rw [hb.kind_eq]) hnamed
  unfold Block.assemble at hblock ⊢
  simp only [(hkind _).length_eq, rel_isEmpty hnamed, rel_isEmpty hplain] at hblock
  split at hblock
  · cases hblock
  next hone =>
  split at hblock
  · cases hblock
  next hkinds =>
  obtain rfl := Except.ok.inj hblock
  simp only [hone, hkinds]
  refine ⟨_, rfl, .mk (rel_head? (hkind .begin)) (rel_head? (hkind .process)) ?_ htext hspan⟩
  exact rel_getD (rel_head? (hkind .finish)) (.mk hplain hspan)

end Assembled

/-! ## Pieces of trees -/

/-- The pieces are of one kind, and alike. -/
inductive Node.Like (L : Likeness) : Node → Node → Prop where
  | block {b b' : Block} : b.Like L b' → Node.Like L (.block b) (.block b')
  | named {n n' : NamedBlock} : n.Like L n' → Node.Like L (.named n) (.named n')
  | statement {s s' : Statement} : s.Like L s' → Node.Like L (.statement s) (.statement s')
  | stage {s s' : Stage} : s.Like L s' → Node.Like L (.stage s) (.stage s')
  | element {e e' : Element} : e.Like L e' → Node.Like L (.element e) (.element e')

section Pieces

variable {L : Likeness} {x x' y : Node}

theorem Block.Like.namedBlocks {b b' : Block} (h : b.Like L b') :
    List.Forall₂ (NamedBlock.Like L) b.namedBlocks b'.namedBlocks := by
  have hlist : ∀ {n? n?' : Option NamedBlock}, Option.Rel (NamedBlock.Like L) n? n?' →
      List.Forall₂ (NamedBlock.Like L) n?.toList n?'.toList := by
    intro n? n?' hn
    cases hn with
    | none => exact .nil
    | some hn => exact .cons hn .nil
  cases h with
  | mk hbegin hprocess hend =>
    exact List.rel_append (List.rel_append (hlist hbegin) (hlist hprocess)) (.cons hend .nil)

/-- Pieces that are alike consist of pieces that are alike. -/
theorem Node.Like.children (h : x.Like L x') :
    List.Forall₂ (Node.Like L) x.children x'.children := by
  cases h with
  | block h => exact List.rel_map (fun _ _ => .named) h.namedBlocks
  | named h =>
    cases h with
    | mk hstatements => exact List.rel_map (fun _ _ => .statement) hstatements
  | statement h =>
    cases h with
    | pipeline hstages => exact List.rel_map (fun _ _ => .stage) hstages
    | flow _ helements => exact List.rel_map (fun _ _ => .element) helements
    | assignment => exact .nil
  | stage h =>
    cases h with
    | command helements => exact List.rel_map (fun _ _ => .element) helements
    | expression h => exact .cons (.element h) .nil
  | element h =>
    cases h with
    | script h => exact .cons (.block h) .nil
    | _ => exact .nil

theorem exists_of_rel {α β : Type} {r : α → β → Prop} {as : List α} {bs : List β} {a : α}
    (h : List.Forall₂ r as bs) (ha : a ∈ as) : ∃ b ∈ bs, r a b := by
  induction h with
  | nil => cases ha
  | cons hab _ ih =>
    rcases List.mem_cons.1 ha with rfl | ha
    · exact ⟨_, List.mem_cons_self, hab⟩
    · obtain ⟨b, hb, hab⟩ := ih ha
      exact ⟨b, List.mem_cons_of_mem _ hb, hab⟩

/-- For every piece of the one tree there is one of the other tree that is like it. -/
theorem Node.Like.within (h : x.Like L x') (hy : y.Within x) :
    ∃ y', y'.Within x' ∧ y.Like L y' := by
  induction hy generalizing x' with
  | refl => exact ⟨x', .refl x', h⟩
  | child isChild _ ih =>
    obtain ⟨z', hz', hlike⟩ := exists_of_rel h.children isChild
    obtain ⟨y', hwithin, hlike'⟩ := ih hlike
    exact ⟨y', .child hz' hwithin, hlike'⟩

end Pieces

/-! ## Moved atoms -/

section Atoms

variable {e : Element}

theorem Element.shift_zero (h : ∀ block, e ≠ .script block) : e.shift 0 = e := by
  cases e with
  | script block => exact absurd rfl (h block)
  | _ => rfl

/-- An atom is alike wherever it stands, if texts are like themselves. -/
theorem Element.like_shift {L : Likeness} (h : ∀ block, e ≠ .script block)
    (htext : ∀ text, L.text text text) (hvalue : ∀ value, L.value value value) {first second : Nat}
    (hspan : L.span (e.span.shift first) (e.span.shift second)) :
    (e.shift first).Like L (e.shift second) := by
  cases e with
  | script block => exact absurd rfl (h block)
  | bareword => exact .bareword (htext _) hspan
  | quoted => exact .quoted (hvalue _) (htext _) hspan
  | «variable» => exact .variable (htext _) (htext _) hspan
  | number => exact .number (htext _) hspan
  | subExpression => exact .subExpression (htext _) hspan
  | hashtable => exact .hashtable (htext _) hspan

end Atoms

/-! ## Moved trees -/

/-- The trees differ in their places only. -/
def Likeness.moved (bytes : Nat) : Likeness where
  span span span' := span' = span.shift bytes
  text text text' := text' = text
  value value value' := value' = value
  raw _ text text' := text' = text
  assigned text text' := text' = text
  sameName_of_text := sameName_of_eq

section Moved

variable {bytes : Nat}

mutual

theorem Block.eq_shift (block : Block) {block' : Block}
    (h : block.Like (.moved bytes) block') : block' = block.shift bytes := by
  obtain ⟨begin?, process?, endBlock, text, span⟩ := block
  cases h with
  | mk hbegin hprocess hend htext hspan =>
    rw [Block.shift, NamedBlock.eq_shift? begin? hbegin, NamedBlock.eq_shift? process? hprocess,
      NamedBlock.eq_shift endBlock hend, htext, hspan]

theorem NamedBlock.eq_shift (block : NamedBlock) {block' : NamedBlock}
    (h : block.Like (.moved bytes) block') : block' = block.shift bytes := by
  obtain ⟨kind, unnamed, statements, span⟩ := block
  cases h with
  | mk hstatements hspan =>
    rw [NamedBlock.shift, Statement.eq_shiftAll statements hstatements, hspan]

theorem NamedBlock.eq_shift? (block? : Option NamedBlock) {block?' : Option NamedBlock}
    (h : Option.Rel (NamedBlock.Like (.moved bytes)) block? block?') :
    block?' = NamedBlock.shift? bytes block? := by
  rcases block? with _ | block
  · cases h
    rfl
  · cases h with
    | some hblock => rw [NamedBlock.shift?, NamedBlock.eq_shift block hblock]

theorem Statement.eq_shift (statement : Statement) {statement' : Statement}
    (h : statement.Like (.moved bytes) statement') : statement' = statement.shift bytes := by
  rcases statement with ⟨stages, span⟩ | ⟨keyword, elements, span⟩ | ⟨target, value, span⟩
  · cases h with
    | pipeline hstages hspan => rw [Statement.shift, Stage.eq_shiftAll stages hstages, hspan]
  · cases h with
    | flow hkeyword helements hspan =>
      rw [Statement.shift, Element.eq_shiftAll elements helements, hkeyword, hspan]
  · cases h with
    | assignment htarget hvalue hspan => rw [Statement.shift, htarget, hvalue, hspan]

theorem Statement.eq_shiftAll (statements : List Statement) {statements' : List Statement}
    (h : List.Forall₂ (Statement.Like (.moved bytes)) statements statements') :
    statements' = Statement.shiftAll bytes statements := by
  rcases statements with _ | ⟨statement, statements⟩
  · cases h
    rfl
  · cases h with
    | cons hfirst hmore =>
      rw [Statement.shiftAll, Statement.eq_shift statement hfirst,
        Statement.eq_shiftAll statements hmore]

theorem Stage.eq_shift (stage : Stage) {stage' : Stage}
    (h : stage.Like (.moved bytes) stage') : stage' = stage.shift bytes := by
  rcases stage with ⟨elements, span⟩ | element
  · cases h with
    | command helements hspan => rw [Stage.shift, Element.eq_shiftAll elements helements, hspan]
  · cases h with
    | expression helement => rw [Stage.shift, Element.eq_shift element helement]

theorem Stage.eq_shiftAll (stages : List Stage) {stages' : List Stage}
    (h : List.Forall₂ (Stage.Like (.moved bytes)) stages stages') :
    stages' = Stage.shiftAll bytes stages := by
  rcases stages with _ | ⟨stage, stages⟩
  · cases h
    rfl
  · cases h with
    | cons hfirst hmore =>
      rw [Stage.shiftAll, Stage.eq_shift stage hfirst, Stage.eq_shiftAll stages hmore]

theorem Element.eq_shift (element : Element) {element' : Element}
    (h : element.Like (.moved bytes) element') : element' = element.shift bytes := by
  cases element with
  | script block =>
    cases h with
    | script hblock => rw [Element.shift, Block.eq_shift block hblock]
  | quoted =>
    cases h with
    | quoted hvalue htext hspan => rw [Element.shift, hvalue, htext, hspan]
  | «variable» =>
    cases h with
    | «variable» hname htext hspan => rw [Element.shift, hname, htext, hspan]
  | bareword | number | subExpression | hashtable =>
    cases h
    next htext hspan => rw [Element.shift, htext, hspan]

theorem Element.eq_shiftAll (elements : List Element) {elements' : List Element}
    (h : List.Forall₂ (Element.Like (.moved bytes)) elements elements') :
    elements' = Element.shiftAll bytes elements := by
  rcases elements with _ | ⟨element, elements⟩
  · cases h
    rfl
  · cases h with
    | cons hfirst hmore =>
      rw [Element.shiftAll, Element.eq_shift element hfirst, Element.eq_shiftAll elements hmore]

end

end Moved

end Script
end KeywordScope
