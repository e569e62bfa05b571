import KeywordScope.Proofs.Script.Edges

/-!
# Texts of blocks

The text of a block, as a source of its own, has the tree of the block.

* `Reading.parse_text`: the text between the braces has the tree of the block, with all spans moved.
* `EndsContinued text`: the blanks at the end of the text begin with a newline that is continued.
* `parse_trim`: a text without the blanks around it has the same tree, unless it ends so.
* `parse_block`: the blocks in the tree of a source. `parse_block_continued`: one that ends so.
-/

namespace KeywordScope
namespace Script

variable {c d : Cursor} {b : Block} {parts : List Piece}

/-- A block among the parts of a reading is read somewhere. -/
theorem Reading.block_of_mem {piece : Piece} (h : Reading c piece d parts)
    (hb : .element (.script b) ∈ parts) :
    ∃ c d parts, Reading c (.element (.script b)) d parts := by
  rcases h.of_mem hb with ⟨a, e, _, parts', -, hread⟩ | ⟨_, _, _, -, heq⟩
  · exact ⟨a, e, parts', hread⟩
  · cases heq

/-- Blocks of moved statements, with a text and span of their own. -/
theorem Block.assemble_moved {bytes : Nat} {statements : List Statement} {text text' : String}
    {span span' : Span}
    (h : Block.assemble (Statement.shiftAll bytes statements) text span = .ok b) :
    ∃ own, Block.assemble statements text' span' = .ok own ∧
      b = (own.shift bytes).respan text span := by
  rw [Block.assemble_respan _ text' text (span'.shift bytes) span, Block.assemble_shift] at h
  rcases hown : Block.assemble statements text' span' with _ | own
  · rw [hown] at h
    cases h
  · rw [hown] at h
    exact ⟨own, rfl, (Except.ok.inj h).symm⟩

/-- Statements that are read up to the end of a source make its tree. -/
theorem parse_of_reading {text : List Char} {offset : Nat} {statements : List Statement}
    {own : Block} (h : Reading (Cursor.skipSeparators ⟨0, text⟩) (.statements statements) ⟨offset, []⟩ parts)
    (assembled : Block.assemble statements (String.ofList text) ⟨0, offset⟩ = .ok own) :
    parse (String.ofList text) = .ok own := by
  have hstart : Cursor.start (String.ofList text) = ⟨0, text⟩ :=
    congrArg (Cursor.mk 0) String.toList_ofList
  refine parse_eq_ok_iff.2 ⟨statements, ⟨offset, []⟩, parts, rfl, hstart ▸ h, ?_⟩
  have htext : Cursor.textTo ⟨0, text⟩ ⟨offset, []⟩ = String.ofList text := by
    rw [Cursor.textTo, List.length_nil, Nat.sub_zero, List.take_length]
  rw [hstart, htext]
  exact assembled

/-- The text between the braces of a block, as a source of its own, has the tree of the block. -/
theorem Reading.parse_text (h : Reading c (.element (.script b)) d parts) :
    ∃ own, parse b.text = .ok own ∧ own.text = b.text ∧
      b = (own.shift (b.span.start + 1)).respan b.text b.span := by
  generalize hpiece : Piece.element (.script b) = piece at h
  cases h with
  | @script _ e rest after statements _ _ opens inner closes assembled =>
    obtain rfl := Element.script.inj (Piece.element.inj hpiece)
    obtain ⟨_, hgap⟩ := (c.seek rest).passes_skipSeparators
    obtain ⟨_, hinner⟩ := inner.forward
    obtain ⟨text, htext⟩ : ∃ text, (c.seek rest).Passes text e := ⟨_, hgap.trans hinner⟩
    have hopen := (Cursor.passes_seek_cons opens).offset_eq
    have hstart : c.seek rest = Cursor.placed (c.offset + 1) ('}' :: after) ⟨0, text⟩ := by
      rw [Cursor.placed, Cursor.mk.injEq, ← closes, Nat.zero_add]
      exact ⟨hopen, htext.rest_eq⟩
    have hend : e = Cursor.placed (c.offset + 1) ('}' :: after) ⟨utf8Length text, []⟩ := by
      rw [Cursor.placed, Cursor.mk.injEq, ← closes, List.nil_append, Nat.add_comm]
      exact ⟨htext.offset_eq.trans (congrArg (· + _) hopen), rfl⟩
    have hclosing : Closing ('}' :: after) := by
      rintro _ ⟨⟩
      exact .inr (by decide)
    have hseam : Seam text ('}' :: after) := by
      refine .of_head ?_
      rintro _ ⟨⟩
      decide
    rw [hend] at inner hinner
    have hskip := hstart ▸ hinner.length_le
    rw [hstart, Cursor.skipSeparators_eq_placed hskip] at inner
    have hof : (Cursor.skipSeparators ⟨0, text⟩).Of text :=
      Cursor.Of.skipSeparators ⟨[], .refl _⟩
    obtain ⟨own, _, hown, rfl, -⟩ := inner.placed hclosing hseam _ _ rfl rfl hof fun _ => rfl
    have hb := Block.assemble_ok assembled
    have hshown : b.text = String.ofList text := hb.text_eq.trans htext.textTo_eq
    have hspan : b.span.start = c.offset := congrArg Span.start hb.span_eq
    rw [← hb.text_eq, ← hb.span_eq] at assembled
    obtain ⟨block, hblock, heq⟩ : ∃ block,
        Block.assemble own (String.ofList text) ⟨0, utf8Length text⟩ = .ok block ∧
          b = (block.shift (c.offset + 1)).respan b.text b.span := Block.assemble_moved assembled
    refine ⟨block, ?_, (Block.assemble_ok hblock).text_eq.trans hshown.symm, hspan ▸ heq⟩
    rw [hshown]
    exact parse_of_reading hown hblock
  | atom _ isRead =>
    have hread := Piece.element.inj hpiece
    exact absurd hread.symm ((Atom.stands_read isRead).2 b)
  | _ => cases hpiece

/-! ## Blanks around a text -/

/-- The blanks at the end of the text begin with a newline that a backtick continues. -/
def EndsContinued (text : String) : Prop :=
  ∃ before blanks, (∀ x ∈ blanks, isBlank x = true) ∧
    (text.toList = before ++ '\x60' :: '\n' :: blanks ∨
      text.toList = before ++ '\x60' :: '\r' :: '\n' :: blanks)

/-- How many bytes the blanks at the beginning of the text have. -/
def blankLength (text : String) : Nat :=
  utf8Length (text.toList.takeWhile isBlank)

/-- A text has blanks on both sides of what is left of it without them. -/
theorem trim_split (text : String) : ∃ core blanks, trim text = String.ofList core ∧
    text.toList = text.toList.takeWhile isBlank ++ (core ++ blanks) ∧
    ∀ x ∈ blanks, isBlank x = true := by
  refine ⟨dropBlankEnd (text.toList.dropWhile isBlank),
    ((text.toList.dropWhile isBlank).reverse.takeWhile isBlank).reverse, rfl, ?_, ?_⟩
  · rw [dropBlankEnd, ← List.reverse_append, List.takeWhile_append_dropWhile, List.reverse_reverse,
      List.takeWhile_append_dropWhile]
  · exact fun x hx => List.mem_takeWhile_imp (List.mem_reverse.1 hx)

/-- Unless the text ends in a continued line, the blanks at its end continue none. -/
theorem seam_of_not_endsContinued {text : String} (h : ¬ EndsContinued text)
    {before core blanks : List Char} (htext : text.toList = before ++ (core ++ blanks))
    (hblanks : ∀ x ∈ blanks, isBlank x = true) : Seam core blanks := by
  constructor
  · rintro ⟨⟨start, rfl⟩, ⟨more, rfl⟩⟩
    refine h ⟨before ++ start, more, fun x hx => hblanks x (List.mem_cons_of_mem _ hx), .inl ?_⟩
    rw [htext]
    simp
  · rintro ⟨⟨start, rfl⟩, ⟨more, rfl⟩⟩
    refine h ⟨before ++ start, more, fun x hx => hblanks x ?_, .inr ?_⟩
    · exact List.mem_cons_of_mem _ (List.mem_cons_of_mem _ hx)
    · rw [htext]
      simp
  · rintro ⟨⟨start, rfl⟩, ⟨more, rfl⟩⟩
    refine h ⟨before ++ start, more, fun x hx => hblanks x (List.mem_cons_of_mem _ hx), .inr ?_⟩
    rw [htext]
    simp

/-- A source without the blanks around it has the same tree, unless it ends in a continued line. -/
theorem parse_trim {source : String} {tree : Block} (h : parse source = .ok tree)
    (hcontinued : ¬ EndsContinued source) :
    ∃ own, parse (trim source) = .ok own ∧
      tree = (own.shift (blankLength source)).respan tree.text tree.span := by
  obtain ⟨_, d, parts, hd, reading, assembled⟩ := parse_eq_ok_iff.1 h
  obtain ⟨core, blanks, htrim, hsource, hblanks⟩ := trim_split source
  have hseam := seam_of_not_endsContinued hcontinued hsource hblanks
  -- The blanks in front are a gap, and what follows them is the text in front of blanks.
  have hlead : ∀ x ∈ source.toList.takeWhile isBlank, isBlank x = true :=
    fun x hx => List.mem_takeWhile_imp hx
  have hstart : (Cursor.start source).skipSeparators =
      (Cursor.placed (blankLength source) blanks ⟨0, core⟩).skipSeparators := by
    have hfirst := reading.edged
    have hplace : Cursor.start source =
        ⟨0, source.toList.takeWhile isBlank ++ (core ++ blanks)⟩ := congrArg (Cursor.mk 0) hsource
    rw [hplace] at hfirst ⊢
    exact Cursor.skipSeparators_blanks hlead 0 (core ++ blanks) hfirst
  rw [hstart] at reading
  have hof : (Cursor.skipSeparators ⟨0, core⟩).Of core := Cursor.Of.skipSeparators ⟨[], .refl _⟩
  obtain ⟨statements, ⟨offset, rest⟩, parts', hrest, reading', rfl⟩ :=
    reading.trimmed hblanks hseam hd (blankLength source) _ hof
      (Cursor.separators_trimmed hblanks ⟨0, core⟩) _ rfl
  obtain rfl : rest = [] := hrest
  have htree := Block.assemble_ok assembled
  rw [← htree.text_eq, ← htree.span_eq] at assembled
  obtain ⟨own, hown, heq⟩ : ∃ own,
      Block.assemble statements (String.ofList core) ⟨0, offset⟩ = .ok own ∧
        tree = (own.shift (blankLength source)).respan tree.text tree.span :=
    Block.assemble_moved assembled
  rw [htrim]
  exact ⟨own, parse_of_reading reading' hown, heq⟩

/-! ## Blocks of a tree -/

/-- The text of a block in the tree of a source has the tree of the block: as a source of its own it
is accepted, and all spans in its tree, moved behind the opening brace, are those in the block. Only
the block itself, and its end block if that is unnamed, have another span. What is handed to a host,
the text without the blanks around it, has that tree, too, unless the text ends in a continued
line. -/
theorem parse_block {source : String} {tree b : Block} (h : parse source = .ok tree)
    (hb : (Node.element (.script b)).Within (.block tree)) :
    (∃ own, parse b.text = .ok own ∧ own.text = b.text ∧
        b = (own.shift (b.span.start + 1)).respan b.text b.span) ∧
      (¬ EndsContinued b.text → ∃ own, parse b.toScriptBlock.source = .ok own ∧
        b = (own.shift (blankLength b.text + (b.span.start + 1))).respan b.text b.span) := by
  obtain ⟨statements, d, parts, -, reading, assembled⟩ := parse_eq_ok_iff.1 h
  obtain ⟨s, hs, hwithin⟩ := within_assembled (Block.assemble_ok assembled) hb
  obtain ⟨_, _, _, hread⟩ :=
    reading.block_of_mem (reading.element_mem (List.mem_map_of_mem hs) hwithin)
  obtain ⟨own, hown, htext, heq⟩ := hread.parse_text
  refine ⟨⟨own, hown, htext, heq⟩, fun hcontinued => ?_⟩
  obtain ⟨core, hcore, hmoved⟩ := parse_trim hown hcontinued
  refine ⟨core, hcore, heq.trans ?_⟩
  rw [hmoved, Block.shift_respan, Block.shift_shift, Block.respan_respan]

/-- The body of the only statement of a block, if that is a word and a body. -/
def Block.body? (block : Block) : Option Block :=
  match block.statements with
  | [.pipeline [.command [_, .script body] _] _] => some body
  | _ => none

theorem Block.within_of_body? {block body : Block} (h : block.body? = some body) :
    (Node.element (.script body)).Within (.block block) := by
  unfold Block.body? at h
  split at h
  · next word body' span span' hstatements =>
    cases h
    have hmem : .pipeline [.command [word, .script body] span] span' ∈ block.statements := by
      rw [hstatements]
      exact List.mem_singleton_self _
    have hbody : Node.element (.script body) ∈
        (Node.stage (.command [word, .script body] span)).children :=
      List.mem_cons_of_mem _ (List.mem_singleton_self _)
    exact .child (Node.named_mem_children.2 block.endBlock_mem)
      (.child (Node.statement_mem_children.2 hmem)
        (.child (List.mem_singleton_self _) (.child hbody (.refl _))))
  · cases h

theorem parse_of_mem {source : String} {tree : Block} (h : tree ∈ (parse source).toOption) :
    parse source = .ok tree := by
  rcases hparse : parse source with _ | tree'
  · rw [hparse] at h
    cases h
  · rw [hparse] at h
    rw [Option.some.inj h]

/-- A source with a tree in which something holds of the body. -/
theorem exists_body {source : String} {P : Block → Bool}
    (h : (parse source).toOption.any (fun tree => tree.body?.any P) = true) :
    ∃ tree b, parse source = .ok tree ∧ (Node.element (.script b)).Within (.block tree) ∧
      P b = true := by
  obtain ⟨tree, htree, hbody⟩ := (Option.any_eq_true _ _).1 h
  obtain ⟨b, hb, hP⟩ := (Option.any_eq_true _ _).1 hbody
  exact ⟨tree, b, parse_of_mem htree, Block.within_of_body? hb, hP⟩

/-- The elements of a statement that is a single command. -/
def Statement.commandElements : Statement → List Element
  | .pipeline [.command elements _] _ => elements
  | _ => []

theorem Statement.within_of_mem_commandElements {s : Statement} {e : Element}
    (h : e ∈ s.commandElements) : (Node.element e).Within (.statement s) := by
  unfold Statement.commandElements at h
  split at h
  · exact .child (List.mem_singleton_self _) (.child (List.mem_map_of_mem h) (.refl _))
  · cases h

/-- A source with a tree in which something holds of an element of a command. -/
theorem exists_element {source : String} {P : Element → Bool}
    (h : (parse source).toOption.any (fun tree =>
      tree.statements.any fun s => s.commandElements.any P) = true) :
    ∃ tree e, parse source = .ok tree ∧ (Node.element e).Within (.block tree) ∧ P e = true := by
  obtain ⟨tree, htree, hany⟩ := (Option.any_eq_true _ _).1 h
  obtain ⟨s, hs, hany⟩ := List.any_eq_true.1 hany
  obtain ⟨e, he, hP⟩ := List.any_eq_true.1 hany
  exact ⟨tree, e, parse_of_mem htree, .child (Node.named_mem_children.2 tree.endBlock_mem)
    (.child (Node.statement_mem_children.2 hs) (Statement.within_of_mem_commandElements he)), hP⟩

theorem not_endsContinued {text : String} (h : '\x60' ∉ text.toList) : ¬ EndsContinued text := by
  rintro ⟨before, blanks, -, heq | heq⟩
  all_goals
    rw [heq] at h
    simp at h

/-- A body with a number right in front of the closing brace. -/
theorem parse_block_sample : ∃ tree b, parse "Stage { Foo 5}" = .ok tree ∧
    (Node.element (.script b)).Within (.block tree) ∧ b.text = " Foo 5" ∧
    (∃ own, parse " Foo 5" = .ok own ∧ own.text = b.text ∧
      b = (own.shift (b.span.start + 1)).respan b.text b.span) ∧
    ∃ own, parse "Foo 5" = .ok own ∧
      b = (own.shift (blankLength b.text + (b.span.start + 1))).respan b.text b.span := by
  have hread : (parse "Stage { Foo 5}").toOption.any (fun tree =>
      tree.body?.any fun b => decide (b.text = " Foo 5")) = true := by
    decide +kernel
  obtain ⟨tree, b, htree, hwithin, htext⟩ := exists_body hread
  have htext : b.text = " Foo 5" := of_decide_eq_true htext
  have hends : ¬ EndsContinued b.text := by
    rw [htext]
    exact not_endsContinued (by decide +kernel)
  obtain ⟨hown, hhost⟩ := parse_block htree hwithin
  have hhost := hhost hends
  have htrim : b.toScriptBlock.source = "Foo 5" := by
    rw [Block.toScriptBlock, htext]
    decide +kernel
  rw [htrim] at hhost
  refine ⟨tree, b, htree, hwithin, htext, ?_, hhost⟩
  rw [htext] at hown ⊢
  exact hown

/-- The text that is handed to a host for a body that ends in a continued line: nothing follows the
backtick there that it could continue, and the text is no script, whereas the body is one. -/
theorem parse_block_continued : ∃ tree b e, parse "Stage \x7b 5 \x60\n\x7d" = .ok tree ∧
    (Node.element (.script b)).Within (.block tree) ∧ b.toScriptBlock.source = "5 \x60" ∧
    parse b.toScriptBlock.source = .error e := by
  have hread : (parse "Stage \x7b 5 \x60\n\x7d").toOption.any (fun tree =>
      tree.body?.any fun b => decide (b.toScriptBlock.source = "5 \x60")) = true := by
    decide +kernel
  obtain ⟨tree, b, htree, hwithin, hb⟩ := exists_body hread
  have hhost : b.toScriptBlock.source = "5 \x60" := of_decide_eq_true hb
  have hfails : (parse "5 \x60").isOk = false := by
    decide +kernel
  rcases hparse : parse "5 \x60" with e | own
  · exact ⟨tree, b, e, htree, hwithin, hhost, hhost ▸ hparse⟩
  · rw [hparse] at hfails
    cases hfails

end Script
end KeywordScope
