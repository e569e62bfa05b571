import KeywordScope.Proofs.Script.Node

/-!
# Shifted trees

A text that stands further on in a source has the same tree there, with all spans moved.

* `Block.shift bytes`: the block with all spans in it moved to the right, and so for all pieces.
* `Block.respan span`: the block with a span of its own. The unnamed end block has the span of its
  block, and moves along.
* `Statement.ofStages_shift`, `NamedBlock.ofStatement?_shift`, `Block.assemble_shift`: what is
  assembled from shifted pieces is shifted.
-/

namespace KeywordScope

theorem Span.shift_shift (span : Span) (first second : Nat) :
    (span.shift first).shift second = span.shift (first + second) := by
  simp only [Span.shift, Nat.add_assoc]

namespace Script

/-! ## Moving spans -/

mutual

/-- The block with all spans moved to the right. -/
def Block.shift (bytes : Nat) : Block → Block
  | .mk begin? process? endBlock text span =>
    .mk (NamedBlock.shift? bytes begin?) (NamedBlock.shift? bytes process?)
      (endBlock.shift bytes) text (span.shift bytes)

/-- The named block with all spans moved to the right. -/
def NamedBlock.shift (bytes : Nat) : NamedBlock → NamedBlock
  | .mk kind unnamed statements span =>
    .mk kind unnamed (Statement.shiftAll bytes statements) (span.shift bytes)

/-- The named block, if there is one, with all spans moved to the right. -/
def NamedBlock.shift? (bytes : Nat) : Option NamedBlock → Option NamedBlock
  | none => none
  | some block => some (block.shift bytes)

/-- The statement with all spans moved to the right. -/
def Statement.shift (bytes : Nat) : Statement → Statement
  | .pipeline stages span => .pipeline (Stage.shiftAll bytes stages) (span.shift bytes)
  | .flow keyword elements span =>
    .flow keyword (Element.shiftAll bytes elements) (span.shift bytes)
  | .assignment target value span => .assignment target value (span.shift bytes)

/-- The statements with all spans moved to the right. -/
def Statement.shiftAll (bytes : Nat) : List Statement → List Statement
  | [] => []
  | statement :: statements => statement.shift bytes :: Statement.shiftAll bytes statements

/-- The stage with all spans moved to the right. -/
def Stage.shift (bytes : Nat) : Stage → Stage
  | .command elements span => .command (Element.shiftAll bytes elements) (span.shift bytes)
  | .expression element => .expression (element.shift bytes)

/-- The stages with all spans moved to the right. -/
def Stage.shiftAll (bytes : Nat) : List Stage → List Stage
  | [] => []
  | stage :: stages => stage.shift bytes :: Stage.shiftAll bytes stages

/-- The element with all spans moved to the right. -/
def Element.shift (bytes : Nat) : Element → Element
  | .bareword text span => .bareword text (span.shift bytes)
  | .quoted value text span => .quoted value text (span.shift bytes)
  | .variable name text span => .variable name text (span.shift bytes)
  | .number text span => .number text (span.shift bytes)
  | .subExpression text span => .subExpression text (span.shift bytes)
  | .hashtable text span => .hashtable text (span.shift bytes)
  | .script block => .script (block.shift bytes)

/-- The elements with all spans moved to the right. -/
def Element.shiftAll (bytes : Nat) : List Element → List Element
  | [] => []
  | element :: elements => element.shift bytes :: Element.shiftAll bytes elements

end

section Shift

variable {bytes : Nat}

theorem Statement.shiftAll_eq (statements : List Statement) :
    Statement.shiftAll bytes statements = statements.map (Statement.shift bytes) := by
  induction statements with
  | nil => rfl
  | cons first statements ih => rw [Statement.shiftAll, ih, List.map_cons]

theorem Statement.isEmpty_shiftAll (statements : List Statement) :
    (Statement.shiftAll bytes statements).isEmpty = statements.isEmpty := by
  cases statements <;> rfl

theorem NamedBlock.shift?_eq (block? : Option NamedBlock) :
    NamedBlock.shift? bytes block? = block?.map (NamedBlock.shift bytes) := by
  cases block? <;> rfl

@[simp]
theorem Element.isBareword_shift (element : Element) :
    (element.shift bytes).isBareword = element.isBareword := by
  cases element <;> rfl

@[simp]
theorem Block.text_shift (block : Block) : (block.shift bytes).text = block.text := by
  cases block
  rfl

@[simp]
theorem Element.text_shift (element : Element) : (element.shift bytes).text = element.text := by
  cases element with
  | script block => exact block.text_shift
  | _ => rfl

end Shift

/-! ## Shifts one after the other -/

section ShiftShift

variable (first second : Nat)

mutual

theorem Block.shift_shift (block : Block) :
    (block.shift first).shift second = block.shift (first + second) := by
  obtain ⟨begin?, process?, endBlock, text, span⟩ := block
  rw [Block.shift, Block.shift, Block.shift, NamedBlock.shift?_shift begin?,
    NamedBlock.shift?_shift process?, NamedBlock.shift_shift endBlock, Span.shift_shift]

theorem NamedBlock.shift_shift (block : NamedBlock) :
    (block.shift first).shift second = block.shift (first + second) := by
  obtain ⟨kind, unnamed, statements, span⟩ := block
  rw [NamedBlock.shift, NamedBlock.shift, NamedBlock.shift, Statement.shiftAll_shift statements,
    Span.shift_shift]

theorem NamedBlock.shift?_shift (block? : Option NamedBlock) :
    NamedBlock.shift? second (NamedBlock.shift? first block?) =
      NamedBlock.shift? (first + second) block? := by
  rcases block? with _ | block
  · rfl
  · rw [NamedBlock.shift?, NamedBlock.shift?, NamedBlock.shift?, NamedBlock.shift_shift block]

theorem Statement.shift_shift (statement : Statement) :
    (statement.shift first).shift second = statement.shift (first + second) := by
  rcases statement with ⟨stages, span⟩ | ⟨keyword, elements, span⟩ | ⟨target, value, span⟩
  · rw [Statement.shift, Statement.shift, Statement.shift, Stage.shiftAll_shift stages,
      Span.shift_shift]
  · rw [Statement.shift, Statement.shift, Statement.shift, Element.shiftAll_shift elements,
      Span.shift_shift]
  · rw [Statement.shift, Statement.shift, Statement.shift, Span.shift_shift]

theorem Statement.shiftAll_shift (statements : List Statement) :
    Statement.shiftAll second (Statement.shiftAll first statements) =
      Statement.shiftAll (first + second) statements := by
  rcases statements with _ | ⟨statement, statements⟩
  · rfl
  · rw [Statement.shiftAll, Statement.shiftAll, Statement.shiftAll,
      Statement.shift_shift statement, Statement.shiftAll_shift statements]

theorem Stage.shift_shift (stage : Stage) :
    (stage.shift first).shift second = stage.shift (first + second) := by
  rcases stage with ⟨elements, span⟩ | element
  · rw [Stage.shift, Stage.shift, Stage.shift, Element.shiftAll_shift elements, Span.shift_shift]
  · rw [Stage.shift, Stage.shift, Stage.shift, Element.shift_shift element]

theorem Stage.shiftAll_shift (stages : List Stage) :
    Stage.shiftAll second (Stage.shiftAll first stages) =
      Stage.shiftAll (first + second) stages := by
  rcases stages with _ | ⟨stage, stages⟩
  · rfl
  · rw [Stage.shiftAll, Stage.shiftAll, Stage.shiftAll, Stage.shift_shift stage,
      Stage.shiftAll_shift stages]

theorem Element.shift_shift (element : Element) :
    (element.shift first).shift second = element.shift (first + second) := by
  cases element with
  | script block => rw [Element.shift, Element.shift, Element.shift, Block.shift_shift block]
  | _ => simp only [Element.shift, Span.shift_shift]

theorem Element.shiftAll_shift (elements : List Element) :
    Element.shiftAll second (Element.shiftAll first elements) =
      Element.shiftAll (first + second) elements := by
  rcases elements with _ | ⟨element, elements⟩
  · rfl
  · rw [Element.shiftAll, Element.shiftAll, Element.shiftAll, Element.shift_shift element,
      Element.shiftAll_shift elements]

end

end ShiftShift

/-! ## Spans of blocks -/

/-- The block with another text and span. Its unnamed end block has the span of the block. -/
def Block.respan (text : String) (span : Span) : Block → Block
  | .mk begin? process? (.mk kind unnamed statements own) _ _ =>
    .mk begin? process? (.mk kind unnamed statements (if unnamed then span else own)) text span

theorem Block.respan_respan (block : Block) (text text' : String) (span span' : Span) :
    (block.respan text span).respan text' span' = block.respan text' span' := by
  obtain ⟨begin?, process?, ⟨kind, unnamed, statements, own⟩, _, _⟩ := block
  cases unnamed <;> rfl

theorem Block.shift_respan (bytes : Nat) (block : Block) (text : String) (span : Span) :
    (block.respan text span).shift bytes = (block.shift bytes).respan text (span.shift bytes) := by
  obtain ⟨begin?, process?, ⟨kind, unnamed, statements, own⟩, _, _⟩ := block
  cases unnamed <;> rfl

/-! ## Assembled pieces -/

section Assembled

variable {bytes : Nat}

theorem Statement.ofStages_shift (stages : List Stage) (span : Span) :
    Statement.ofStages (Stage.shiftAll bytes stages) (span.shift bytes) =
      (Statement.ofStages stages span).shift bytes := by
  rcases stages with _ | ⟨⟨_ | ⟨word, elements⟩, own⟩ | element, _ | ⟨next, stages⟩⟩
  all_goals try rfl
  simp only [Stage.shiftAll, Stage.shift, Element.shiftAll, Statement.ofStages, Element.text_shift]
  split
  · rfl
  · rfl

theorem Block.statements_shift (block : Block) :
    (block.shift bytes).statements = Statement.shiftAll bytes block.statements := by
  obtain ⟨begin?, process?, ⟨kind, unnamed, statements, own⟩, text, span⟩ := block
  rfl

theorem NamedBlock.ofStatement?_shift (statement : Statement) :
    NamedBlock.ofStatement? (statement.shift bytes) =
      (NamedBlock.ofStatement? statement).map (NamedBlock.shift bytes) := by
  rcases statement with ⟨stages, outer⟩ | _ | _
  · rcases stages with _ | ⟨⟨_ | ⟨word, _ | ⟨body, _ | ⟨further, elements⟩⟩⟩, span⟩ | element, more⟩
    · rfl
    · rfl
    · cases word <;> rfl
    · -- The form of a named block, if nothing else follows.
      cases word <;> cases body <;> cases more <;> try rfl
      next text own body =>
      show (BlockKind.ofWord? text).map _ = ((BlockKind.ofWord? text).map _).map _
      rw [Option.map_map, Block.statements_shift]
      rfl
    · cases word <;> cases body <;> rfl
    · rfl
  · rfl
  · rfl

theorem NamedBlock.kind_shift (block : NamedBlock) : (block.shift bytes).kind = block.kind := by
  cases block
  rfl

/-- Shifted statements have the named blocks of the statements, shifted. -/
theorem filterMap_ofStatement?_shift (statements : List Statement) :
    (Statement.shiftAll bytes statements).filterMap NamedBlock.ofStatement? =
      (statements.filterMap NamedBlock.ofStatement?).map (NamedBlock.shift bytes) := by
  rw [Statement.shiftAll_eq, List.filterMap_map, List.map_filterMap]
  exact congrArg (List.filterMap · statements) (funext NamedBlock.ofStatement?_shift)

theorem filter_plain_shift (statements : List Statement) :
    (Statement.shiftAll bytes statements).filter
        (fun statement => (NamedBlock.ofStatement? statement).isNone) =
      Statement.shiftAll bytes
        (statements.filter fun statement => (NamedBlock.ofStatement? statement).isNone) := by
  rw [Statement.shiftAll_eq, Statement.shiftAll_eq, List.filter_map]
  refine congrArg _ (congrArg (List.filter · statements) (funext fun statement => ?_))
  rw [Function.comp_apply, NamedBlock.ofStatement?_shift, Option.isNone_map]

/-- A block of shifted statements is the block of the statements, shifted. -/
theorem Block.assemble_shift (statements : List Statement) (text : String) (span : Span) :
    Block.assemble (Statement.shiftAll bytes statements) text (span.shift bytes) =
      (Block.assemble statements text span).map (Block.shift bytes) := by
  have hkind : ∀ kind : BlockKind, ((statements.filterMap NamedBlock.ofStatement?).map
      (NamedBlock.shift bytes)).filter (fun block => block.kind == kind) =
      ((statements.filterMap NamedBlock.ofStatement?).filter fun block => block.kind == kind).map
        (NamedBlock.shift bytes) := by
    intro kind
    rw [List.filter_map]
    refine congrArg _ (congrArg (List.filter · _) (funext fun block => ?_))
    rw [Function.comp_apply, NamedBlock.kind_shift]
  unfold Block.assemble
  simp only [filterMap_ofStatement?_shift, filter_plain_shift, hkind, List.length_map,
    List.isEmpty_map, List.head?_map, Statement.isEmpty_shiftAll]
  split
  · rfl
  split
  · rfl
  · rw [Except.map, Block.shift, NamedBlock.shift?_eq, NamedBlock.shift?_eq,
      ← Option.getD_map (NamedBlock.shift bytes)]
    rfl

end Assembled

/-- The text and span of a block are of no account for what else is in it. -/
theorem Block.assemble_respan (statements : List Statement) (text text' : String)
    (span span' : Span) :
    Block.assemble statements text' span' =
      (Block.assemble statements text span).map (Block.respan text' span') := by
  unfold Block.assemble
  dsimp only
  split
  · rfl
  split
  · rfl
  · rcases hend : ((statements.filterMap NamedBlock.ofStatement?).filter
      fun block => block.kind == .finish).head? with _ | named
    · rw [hend]
      rfl
    · -- A named block that a statement introduces is not the unnamed one.
      obtain ⟨statement, -, hnamed⟩ := List.mem_filterMap.1 (mem_of_head?_filter hend)
      obtain ⟨_, _, _, _, _, _, -, -, rfl⟩ := NamedBlock.ofStatement?_eq_some hnamed
      rw [hend]
      rfl

end Script
end KeywordScope
