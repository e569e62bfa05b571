import KeywordScope.Proofs.Script.Reading

/-!
# Nodes of a tree

* `Node`: a piece of a tree of any kind. `Node.children` are the pieces that it consists of.
* `Node.Within x y`: `x` is `y`, or a piece of it at any depth.
* `Block.assemble_ok`: what the statements of an assembled block come from, and where they go.
-/

namespace KeywordScope
namespace Script

/-- A piece of a tree. -/
inductive Node where
  | block (block : Block)
  | named (block : NamedBlock)
  | statement (statement : Statement)
  | stage (stage : Stage)
  | element (element : Element)

/-- The begin, process and end blocks of a block. -/
def Block.namedBlocks (block : Block) : List NamedBlock :=
  block.begin?.toList ++ block.process?.toList ++ [block.endBlock]

theorem Block.endBlock_mem (block : Block) : block.endBlock ∈ block.namedBlocks := by
  simp [namedBlocks]

namespace Node

def span : Node → Span
  | block b => b.span
  | named b => b.span
  | statement s => s.span
  | stage s => s.span
  | element e => e.span

/-- The pieces that a piece consists of, in order. An assignment keeps its value as text. -/
def children : Node → List Node
  | block b => b.namedBlocks.map named
  | named b => b.statements.map statement
  | statement (.pipeline stages _) => stages.map stage
  | statement (.flow _ elements _) => elements.map element
  | statement (.assignment ..) => []
  | stage (.command elements _) => elements.map element
  | stage (.expression e) => [element e]
  | element (.script b) => [block b]
  | element _ => []

/-- The first piece is the second, or a piece of it. -/
inductive Within : Node → Node → Prop where
  | refl (x : Node) : Within x x
  | child {x y z : Node} (isChild : y ∈ z.children) (within : Within x y) : Within x z

/-- A piece is the whole, or a piece of one of its children. -/
theorem within_iff {x y : Node} : x.Within y ↔ x = y ∨ ∃ z ∈ y.children, x.Within z := by
  constructor
  · rintro (_ | ⟨isChild, within⟩)
    · exact .inl rfl
    · exact .inr ⟨_, isChild, within⟩
  · rintro (rfl | ⟨z, isChild, within⟩)
    · exact .refl _
    · exact .child isChild within

theorem Within.of_ne {x y : Node} (h : x.Within y) (hne : x ≠ y) :
    ∃ z ∈ y.children, x.Within z :=
  (within_iff.1 h).resolve_left hne

theorem named_mem_children {b : Block} {n : NamedBlock} :
    named n ∈ (block b).children ↔ n ∈ b.namedBlocks := by
  simp [children]

theorem statement_mem_children {n : NamedBlock} {s : Statement} :
    statement s ∈ (named n).children ↔ s ∈ n.statements := by
  simp [children]

/-- Of the elements only a script block has a child, its block. -/
theorem mem_children_element {x : Node} {e : Element} (h : x ∈ (element e).children) :
    ∃ b, e = .script b ∧ x = block b := by
  cases e with
  | script b => exact ⟨b, rfl, List.mem_singleton.1 h⟩
  | _ => cases h

end Node

/-! ## Assembled blocks -/

/-- The named block that a statement introduces has the statements of the end block of its body,
and the span of the command. -/
theorem NamedBlock.ofStatement?_eq_some {s : Statement} {n : NamedBlock}
    (h : NamedBlock.ofStatement? s = some n) :
    ∃ word wordSpan body span span' kind,
      s = .pipeline [.command [.bareword word wordSpan, .script body] span] span' ∧
        BlockKind.ofWord? word = some kind ∧ n = .mk kind false body.statements span := by
  unfold NamedBlock.ofStatement? at h
  split at h
  · next word wordSpan body span span' =>
    obtain ⟨kind, hkind, rfl⟩ := Option.map_eq_some_iff.1 h
    exact ⟨word, wordSpan, body, span, span', kind, rfl, hkind, rfl⟩
  · cases h

/-- The block consists of the statements, as named blocks or in its end block. -/
structure Block.AssembledFrom (statements : List Statement) (text : String) (span : Span)
    (block : Block) : Prop where
  text_eq : block.text = text
  span_eq : block.span = span
  /-- Each named block is that of a statement, or holds all plain statements. -/
  named : ∀ n ∈ block.namedBlocks, (∃ s ∈ statements, NamedBlock.ofStatement? s = some n) ∨
    n = .mk .finish true
      (statements.filter fun s => (NamedBlock.ofStatement? s).isNone) span
  /-- Each statement is a named block of the block, or a statement of its end block. -/
  placed : ∀ s ∈ statements, (∃ n ∈ block.namedBlocks, NamedBlock.ofStatement? s = some n) ∨
    (NamedBlock.ofStatement? s = none ∧ s ∈ block.statements)

/-- Of a kind that does not occur twice, the first one is the only one. -/
private theorem head?_ofKind {blocks : List NamedBlock} {n : NamedBlock} (hn : n ∈ blocks)
    (hone : (blocks.filter fun block => block.kind == n.kind).length ≤ 1) :
    (blocks.filter fun block => block.kind == n.kind).head? = some n := by
  have hmem : n ∈ blocks.filter fun block => block.kind == n.kind := by simp [hn]
  generalize blocks.filter (fun block => block.kind == n.kind) = ofKind at hone hmem
  match ofKind, hone, hmem with
  | [first], _, hmem => rw [List.mem_singleton.1 hmem, List.head?_cons]
  | _ :: _ :: _, hone, _ => simp at hone

theorem mem_of_head?_filter {blocks : List NamedBlock} {p : NamedBlock → Bool}
    {n : NamedBlock} (h : (blocks.filter p).head? = some n) : n ∈ blocks :=
  (List.mem_filter.1 (List.mem_of_mem_head? h)).1

/-- What is known of the statements of an assembled block: there is one named block of a kind at
most, and not both named blocks and plain statements. -/
theorem Block.assemble_eq_ok {statements : List Statement} {text : String} {span : Span}
    {block : Block} (h : Block.assemble statements text span = .ok block) :
    ∃ blocks plain, blocks = statements.filterMap NamedBlock.ofStatement? ∧
      plain = statements.filter (fun s => (NamedBlock.ofStatement? s).isNone) ∧
      (∀ kind, (blocks.filter fun block => block.kind == kind).length ≤ 1) ∧
      (blocks = [] ∨ plain = []) ∧
      block = .mk (blocks.filter fun block => block.kind == .begin).head?
        (blocks.filter fun block => block.kind == .process).head?
        ((blocks.filter fun block => block.kind == .finish).head?.getD (.mk .finish true plain span))
        text span := by
  unfold Block.assemble at h
  simp only at h
  split at h
  · cases h
  next hone =>
  split at h
  · cases h
  next hkinds =>
  refine ⟨_, _, rfl, rfl, fun kind => ?_, ?_, (Except.ok.inj h).symm⟩
  · simp only [List.any_cons, List.any_nil, Bool.or_false, Bool.or_eq_true, decide_eq_true_eq,
      not_or, Nat.not_lt] at hone
    cases kind with
    | begin => exact hone.1
    | process => exact hone.2.1
    | finish => exact hone.2.2
  · simpa only [Bool.and_eq_true, Bool.not_eq_true', List.isEmpty_eq_false_iff, ne_eq, not_and,
      Classical.not_not, Classical.or_iff_not_imp_left] using hkinds

theorem Block.assemble_ok {statements : List Statement} {text : String} {span : Span}
    {block : Block} (h : Block.assemble statements text span = .ok block) :
    block.AssembledFrom statements text span := by
  obtain ⟨blocks, plain, hblocks, hplains, hone, hkinds, rfl⟩ := Block.assemble_eq_ok h
  have hnamed : ∀ {n}, n ∈ blocks ↔ ∃ s ∈ statements, NamedBlock.ofStatement? s = some n := by
    rw [hblocks]
    exact List.mem_filterMap
  refine ⟨rfl, rfl, fun n hn => ?_, fun s hs => ?_⟩
  · simp only [Block.namedBlocks, List.mem_append, Option.mem_toList, List.mem_singleton] at hn
    rcases hn with (hn | hn) | hn
    · exact .inl (hnamed.1 (mem_of_head?_filter hn))
    · exact .inl (hnamed.1 (mem_of_head?_filter hn))
    · rcases hend : (blocks.filter fun block => block.kind == .finish).head? with _ | first
      · rw [Block.endBlock, hend, hplains] at hn
        exact .inr hn
      · rw [Block.endBlock, hend] at hn
        exact .inl (hnamed.1 (hn ▸ mem_of_head?_filter hend))
  · rcases hplain : NamedBlock.ofStatement? s with _ | n
    · -- There is a plain statement, so there are no named blocks.
      have hmem : s ∈ plain := by simp [hplains, hs, hplain]
      obtain rfl := hkinds.resolve_right (List.ne_nil_of_mem hmem)
      exact .inr ⟨rfl, hmem⟩
    · left
      refine ⟨n, ?_, rfl⟩
      have hhead := head?_ofKind (hnamed.2 ⟨s, hs, hplain⟩) (hone n.kind)
      simp only [Block.namedBlocks, Block.begin?, Block.process?, Block.endBlock, List.mem_append,
        Option.mem_toList, List.mem_singleton]
      cases hkind : n.kind with
      | begin =>
        rw [hkind] at hhead
        exact .inl (.inl hhead)
      | process =>
        rw [hkind] at hhead
        exact .inl (.inr hhead)
      | finish =>
        rw [hkind] at hhead
        exact .inr (by rw [hhead, Option.getD_some])

end Script
end KeywordScope
