import KeywordScope.Proofs.Script.Blocks
import KeywordScope.Proofs.Script.Detached
import Mathlib.Data.List.Infix

/-!
# Scripts one after the other

Two scripts with a semicolon and a newline between them are one script.

* `Block.IsPlain`: a block without begin, process and end blocks.
* `LoneQuote source quote`: a quote without a partner in a group of a source.
* `parse_joined_iff`: the statements of the whole are those of the first script and then those of
  the second, moved behind it, just if no such quote of the first finds a partner in the second.
-/

namespace KeywordScope
namespace Script

/-- The block has statements, and no begin, process or end block. -/
def Block.IsPlain (block : Block) : Prop :=
  block.begin? = none ∧ block.process? = none ∧ block.endBlock.unnamed = true

/-- In a group of the source there is a quote without a partner. It is given with all that follows
it. -/
def LoneQuote (source : String) (quote : List Char) : Prop :=
  ∃ parts e c, Produced source parts ∧ .element e ∈ parts ∧ e.isGroup = true ∧
    Cursor.Of source.toList c ∧ c.offset = e.span.start ∧ quote ∈ Group.unpaired c.rest

theorem LoneQuote.suffix {source : String} {quote : List Char} (h : LoneQuote source quote) :
    quote <:+ source.toList := by
  obtain ⟨_, _, c, _, _, _, hc, -, hquote⟩ := h
  exact (Group.suffix_of_unpaired hquote).trans hc.suffix

/-! ## Plain blocks -/

/-- Of the statements of a plain block, none introduces a named block. -/
theorem Block.IsPlain.assembled {statements : List Statement} {text : String} {span : Span}
    {block : Block} (h : block.IsPlain) (hblock : Block.assemble statements text span = .ok block) :
    block.statements = statements ∧ ∀ s ∈ statements, NamedBlock.ofStatement? s = none := by
  obtain ⟨blocks, plain, hblocks, hplain, -, -, rfl⟩ := Block.assemble_eq_ok hblock
  obtain ⟨hbegin, hprocess, hend⟩ := h
  have hnone : ∀ {p : NamedBlock → Bool}, (blocks.filter p).head? = none →
      ∀ n ∈ blocks, p n = false := by
    intro p hp n hn
    rw [List.head?_eq_none_iff, List.filter_eq_nil_iff] at hp
    exact Bool.eq_false_iff.2 (hp n hn)
  have hfinish : (blocks.filter fun block => block.kind == .finish).head? = none := by
    rcases hfirst : (blocks.filter fun block => block.kind == .finish).head? with _ | named
    · exact hfirst
    · -- An end block that a statement introduces is not the unnamed one.
      rw [Block.endBlock, hfirst] at hend
      have hmem := mem_of_head?_filter hfirst
      rw [hblocks] at hmem
      obtain ⟨statement, -, hnamed⟩ := List.mem_filterMap.1 hmem
      obtain ⟨_, _, _, _, _, _, -, -, rfl⟩ := NamedBlock.ofStatement?_eq_some hnamed
      cases hend
  have hnil : blocks = [] := by
    rw [List.eq_nil_iff_forall_not_mem]
    intro n hn
    have hkinds := And.intro (hnone hbegin n hn) (And.intro (hnone hprocess n hn) (hnone hfinish n hn))
    cases hkind : n.kind <;> simp [hkind] at hkinds
  have hall : ∀ s ∈ statements, NamedBlock.ofStatement? s = none :=
    List.filterMap_eq_nil_iff.1 (hblocks.symm.trans hnil)
  refine ⟨?_, hall⟩
  rw [Block.statements, Block.endBlock, hfinish, hplain]
  exact List.filter_eq_self.2 fun s hs => by rw [hall s hs]; rfl

theorem Produced.unique {source : String} {parts parts' : List Piece} (h : Produced source parts)
    (h' : Produced source parts') : parts' = parts := by
  obtain ⟨_, _, -, reading⟩ := h
  obtain ⟨_, _, -, reading'⟩ := h'
  exact (reading.unique reading' rfl).2.2

/-- All quotes without a partner stay so just if those in each group do. -/
theorem stayUnpaired_iff {source : String} {parts : List Piece} {after : List Char}
    (h : Produced source parts) : StayUnpaired source.toList after parts ↔
      ∀ quote, LoneQuote source quote → Quoted.read? (quote ++ after) = none := by
  constructor
  · rintro hstay quote ⟨parts', e, c, hparts', he, hgroup, hc, hoffset, hquote⟩
    obtain rfl := h.unique hparts'
    exact hstay e he hgroup c hc hoffset quote hquote
  · intro hquotes e he hgroup c hc hoffset quote hquote
    exact hquotes quote ⟨parts, e, c, h, he, hgroup, hc, hoffset, hquote⟩

/-! ## The second script behind the first -/

section Joined

variable {text after : List Char} {c d : Cursor}

/-- What is read of a text has the same spans there. -/
theorem Reading.shift_zero {statement : Statement} {parts : List Piece}
    (h : Reading c (.statement statement) d parts) (hc : c.Of text) :
    statement.shift 0 = statement := by
  have hplaced : ∀ c : Cursor, c.placed 0 [] = c := by
    intro c
    rw [Cursor.placed, List.append_nil]
    rfl
  have hF := follows_detached 0 text .nil
  have hfine : ∀ e, .element e ∈ parts → e.StaysUnpaired text [] :=
    fun _ _ _ c _ _ => Group.stayUnpaired_nil c.rest
  obtain ⟨d', -, own, _, hown, hlike⟩ := h.follow hF hfine trivial _ ⟨hc, rfl⟩
  rw [hplaced] at hown
  obtain ⟨heq, -, -⟩ := h.unique hown rfl
  rw [← Statement.eq_shift statement hlike]
  exact Piece.statement.inj heq

/-- The statements of a text in front of a semicolon are read as of the text alone, and then those
that follow. The induction is on the reading; only its statements, one after the other, are of
account. -/
theorem Reading.append {piece : Piece} {parts parts' : List Piece} {more : List Statement}
    {start stop : Cursor} (h : Reading c piece d parts)
    (hmore : Reading start (.statements more) stop parts') (hafter : Detached after)
    (hstart : ∀ c : Cursor, c.Of text → c.skipSeparators.rest = [] →
      (c.placed 0 after).skipSeparators = start)
    (hd : d.rest = []) :
    StayUnpaired text after parts → c.Of text →
      ∀ C, (c.rest ≠ [] ∧ C = c.placed 0 after ∨ c.rest = [] ∧ C = start) →
        ∀ statements, piece = .statements statements →
          ∃ parts, Reading C (.statements (statements ++ more)) stop parts := by
  induction h with
  | @noStatements c stop =>
    rintro - - C hplace _ ⟨⟩
    obtain ⟨-, rfl⟩ := hplace.resolve_left fun h => h.1 hd
    exact ⟨_, hmore⟩
  | @statements c d e statement statements _ _ goOn first isEnd _ _ ihMore =>
    rintro hunpaired hc C hplace _ ⟨⟩
    have hne : c.rest ≠ [] := fun hnil => goOn (.inl hnil)
    obtain ⟨-, rfl⟩ := hplace.resolve_right fun h => hne h.1
    have hF := follows_detached 0 text hafter
    obtain ⟨_, ⟨hdText, rfl⟩, own, _, first', hlike⟩ := first.follow hF
      (fun e he => hunpaired e (List.mem_append_left _ he)) trivial _ ⟨hc, rfl⟩
    rw [Statement.eq_shift statement hlike, first.shift_zero hc] at first'
    have hnext : d.skipInline.skipSeparators.rest ≠ [] ∧
        (d.placed 0 after).skipInline.skipSeparators =
          d.skipInline.skipSeparators.placed 0 after ∨
        d.skipInline.skipSeparators.rest = [] ∧
          (d.placed 0 after).skipInline.skipSeparators = start := by
      rw [hafter.skipInline_placed]
      rcases Cursor.skipSeparators_placed with hsame | ⟨hnil, -⟩
      · exact .inl hsame
      · exact .inr ⟨hnil, hstart _ hdText.skipInline hnil⟩
    obtain ⟨_, more'⟩ := ihMore hd (fun e he => hunpaired e (List.mem_append_right _ he))
      hdText.skipInline.skipSeparators _ hnext _ rfl
    have isEnd' : (d.placed 0 after).skipInline.atStatementEnd = true := by
      rw [hafter.skipInline_placed, hafter.atStatementEnd_placed, isEnd]
    refine ⟨_, .statements ?_ first' isEnd' more'⟩
    rw [Cursor.head?_placed hne]
    rintro (hnil | hbrace)
    · exact hne (List.append_eq_nil_iff.1 hnil).1
    · exact goOn (.inr hbrace)
  | _ =>
    intro _ _ _ _ _ heq
    cases heq

theorem Cursor.Of.placed (h : c.Of text) (after : List Char) :
    (c.placed 0 after).Of (text ++ after) := by
  obtain ⟨before, hpasses⟩ := h
  have hplaced : (Cursor.placed 0 after ⟨0, text⟩).Passes before (c.placed 0 after) := hpasses.placed
  exact ⟨before, hplaced⟩

/-- If statements that begin with those of a text are read of the source, no quote of the text finds
a partner behind it: a statement ends where its span does, so its groups do not go on there. The
induction is on the reading; only its statements, one after the other, are of account. -/
theorem Reading.stayUnpaired {piece : Piece} {parts : List Piece} (h : Reading c piece d parts)
    (hafter : Detached after) :
    c.Of text → ∀ C, (c.rest ≠ [] → C = c.placed 0 after) →
      ∀ statements more stop parts', piece = .statements statements →
        Reading C (.statements (statements ++ more)) stop parts' →
          StayUnpaired text after parts := by
  induction h with
  | noStatements =>
    intros
    exact .nil
  | @statements c d e statement statements _ _ goOn first _ _ _ ihMore =>
    rintro hc C hplace _ more stop parts' ⟨⟩ h'
    obtain rfl := hplace fun hnil => goOn (.inl hnil)
    rw [List.cons_append] at h'
    cases h' with
    | @statements _ D _ _ _ _ _ _ first' _ more' =>
      have hC := hc.placed after
      obtain ⟨_, hpasses⟩ := first.passes hc
      obtain ⟨_, hpasses'⟩ := first'.passes hC
      have hd : d.Of text := hc.passes hpasses
      have hspan : statement.span = c.spanTo d := (first.laid hc).reaches
      have hspan' : statement.span = (c.placed 0 after).spanTo D := (first'.laid hC).reaches
      obtain rfl : D = d.placed 0 after :=
        (hC.passes hpasses').eq_of_offset (hd.placed after)
          (congrArg Span.stop (hspan'.symm.trans hspan))
      obtain ⟨_, _, hown, -, hunpaired⟩ :=
        first'.placed hafter.closing (hafter.seam text) c d rfl rfl hc fun _ => hafter.endsNumber
      obtain ⟨-, -, rfl⟩ := first.unique hown rfl
      refine hunpaired.append (ihMore hd.skipInline.skipSeparators _ (fun hne => ?_) _ more _ _ rfl
        more')
      rw [hafter.skipInline_placed]
      exact (Cursor.skipSeparators_placed.resolve_right fun h => hne h.1).2
  | _ =>
    intro _ _ _ _ _ _ _ heq
    cases heq

end Joined

/-! ## Joined scripts -/

section Sources

variable {a b : String}

/-- Behind the first script and what joins the two, the second one begins. -/
theorem Cursor.joined {c : Cursor} (hc : c.Of a.toList) (hend : c.skipSeparators.rest = []) :
    (c.placed 0 (";\n" ++ b).toList).skipSeparators =
      ((Cursor.start b).placed (utf8Length a.toList + 2) []).skipSeparators := by
  obtain ⟨before, hbefore⟩ := hc.skipSeparators
  have hplace : c.skipSeparators.placed 0 (";\n" ++ b).toList =
      ⟨utf8Length a.toList, ';' :: '\n' :: b.toList⟩ := by
    have hall : a.toList = before := by
      have hrest := hbefore.rest_eq
      rwa [hend, List.append_nil] at hrest
    rw [Cursor.placed, hend, hbefore.offset_eq, hall, String.toList_append]
    simp
  have hsecond : (Cursor.start b).placed (utf8Length a.toList + 2) [] =
      ⟨utf8Length a.toList + 1 + 1, b.toList⟩ := by
    rw [Cursor.placed, List.append_nil, Cursor.start, Nat.zero_add]
  rcases Cursor.skipSeparators_placed with ⟨hne, -⟩ | ⟨-, hgap⟩
  · exact absurd hend hne
  rw [hplace] at hgap
  rw [hsecond]
  exact hgap.elim id id

theorem Cursor.start_joined (a b : String) :
    Cursor.start (a ++ ";\n" ++ b) = (Cursor.start a).placed 0 (";\n" ++ b).toList := by
  rw [String.append_assoc, Cursor.start, String.toList_append]
  rfl

/-- Two scripts joined by a semicolon and a newline are one script with the statements of both, those
of the second moved behind the first, just if no quote without a partner in a group of the first
finds one in what follows it. -/
theorem parse_joined_iff {A B : Block} (ha : parse a = .ok A) (hb : parse b = .ok B)
    (hA : A.IsPlain) (hB : B.IsPlain) :
    (∃ tree, parse (a ++ ";\n" ++ b) = .ok tree ∧ tree.IsPlain ∧ tree.statements =
        A.statements ++ Statement.shiftAll (utf8Length a.toList + 2) B.statements) ↔
      ∀ quote, LoneQuote a quote → Quoted.read? (quote ++ (";\n" ++ b).toList) = none := by
  obtain ⟨statementsA, endA, partsA, hendA, readA, assembledA⟩ := parse_eq_ok_iff.1 ha
  obtain ⟨statementsB, endB, partsB, hendB, readB, assembledB⟩ := parse_eq_ok_iff.1 hb
  obtain ⟨hstatementsA, hplainA⟩ := hA.assembled assembledA
  obtain ⟨hstatementsB, hplainB⟩ := hB.assembled assembledB
  have hafter : Detached (";\n" ++ b).toList := by
    rw [String.toList_append]
    rintro _ ⟨⟩
    rfl
  have hofA : (Cursor.start a).Of a.toList := ⟨[], .refl _⟩
  rw [hstatementsA, hstatementsB, ← stayUnpaired_iff ⟨_, _, hendA, readA⟩]
  constructor
  · rintro ⟨tree, hparse, hplain, hstatements⟩
    obtain ⟨statements, stop, parts, -, reading, assembled⟩ := parse_eq_ok_iff.1 hparse
    rw [(hplain.assembled assembled).1] at hstatements
    rw [hstatements, Cursor.start_joined] at reading
    refine readA.stayUnpaired hafter hofA.skipSeparators _ (fun hne => ?_) _ _ _ _ rfl reading
    exact (Cursor.skipSeparators_placed.resolve_right fun h => hne h.1).2
  · intro hunpaired
    have hF := follows_detached (utf8Length a.toList + 2) b.toList .nil
    have hfine : ∀ e, .element e ∈ partsB → e.StaysUnpaired b.toList [] :=
      fun _ _ _ c _ _ => Group.stayUnpaired_nil c.rest
    have hofB : (Cursor.start b).Of b.toList := ⟨[], .refl _⟩
    obtain ⟨stop, ⟨-, rfl⟩, _, _, readB', hlike⟩ := readB.follow hF hfine (.inr rfl) _
      (hF.separators ⟨hofB, rfl⟩ (.inr rfl))
    rw [Statement.eq_shiftAll statementsB hlike] at readB'
    obtain ⟨parts, reading⟩ := readA.append readB' hafter (fun c hc hnil => Cursor.joined hc hnil)
      hendA hunpaired hofA.skipSeparators (Cursor.start (a ++ ";\n" ++ b)).skipSeparators
      (by
        rw [Cursor.start_joined]
        rcases Cursor.skipSeparators_placed with hsame | ⟨hnil, -⟩
        · exact .inl hsame
        · exact .inr ⟨hnil, Cursor.joined hofA hnil⟩)
      _ rfl
    have hplain : ∀ s ∈ statementsA ++ Statement.shiftAll (utf8Length a.toList + 2) statementsB,
        NamedBlock.ofStatement? s = none := by
      refine List.forall_mem_append.2 ⟨hplainA, ?_⟩
      rw [Statement.shiftAll_eq, List.forall_mem_map]
      intro s hs
      rw [NamedBlock.ofStatement?_shift, hplainB s hs, Option.map_none]
    have hend : (endB.placed (utf8Length a.toList + 2) []).rest = [] := by
      rw [Cursor.placed_rest, hendB, List.append_nil]
    exact ⟨_, parse_eq_ok_iff.2 ⟨_, _, parts, hend, reading, assemble_plain _ _ hplain⟩,
      ⟨rfl, rfl, rfl⟩, rfl⟩

end Sources

theorem Block.isPlain_iff {block : Block} : block.IsPlain ↔
    (block.begin?.isNone && block.process?.isNone && block.endBlock.unnamed) = true := by
  simp only [IsPlain, Bool.and_eq_true, Option.isNone_iff_eq_none, and_assoc]

/-- A plain source with a number of statements. -/
theorem exists_plain {source : String} {count : Nat}
    (h : (parse source).toOption.any (fun tree => tree.begin?.isNone && tree.process?.isNone &&
      tree.endBlock.unnamed && tree.statements.length == count) = true) :
    ∃ tree, parse source = .ok tree ∧ tree.IsPlain ∧ tree.statements.length = count := by
  obtain ⟨tree, htree, hplain⟩ := (Option.any_eq_true _ _).1 h
  obtain ⟨hplain, hcount⟩ := Bool.and_eq_true_iff.1 hplain
  exact ⟨tree, parse_of_mem htree, Block.isPlain_iff.2 hplain, beq_iff_eq.1 hcount⟩

/-- A quote without a partner in the first script, and none in the second. -/
theorem parse_joined_sample : ∃ A B, parse "Stage (it's)" = .ok A ∧ parse "Gate" = .ok B ∧
    A.IsPlain ∧ B.IsPlain ∧
    ∃ tree, parse ("Stage (it's)" ++ ";\n" ++ "Gate") = .ok tree ∧ tree.IsPlain ∧ tree.statements =
      A.statements ++ Statement.shiftAll (utf8Length "Stage (it's)".toList + 2) B.statements := by
  obtain ⟨A, hA, hplainA, -⟩ : ∃ tree, parse "Stage (it's)" = .ok tree ∧ tree.IsPlain ∧
      tree.statements.length = 1 := exists_plain (by decide +kernel)
  obtain ⟨B, hB, hplainB, -⟩ : ∃ tree, parse "Gate" = .ok tree ∧ tree.IsPlain ∧
      tree.statements.length = 1 := exists_plain (by decide +kernel)
  have hquotes : ∀ quote ∈ "Stage (it's)".toList.tails,
      Quoted.read? (quote ++ (";\n" ++ "Gate").toList) = none := by decide +kernel
  refine ⟨A, B, hA, hB, hplainA, hplainB, (parse_joined_iff hA hB hplainA hplainB).2 fun quote h => ?_⟩
  exact hquotes quote ((List.mem_tails _ _).2 h.suffix)

/-- A quote without a partner in each of the scripts. In the whole the two make a string, and the
group of the first script goes on up to the end of the second: there is one statement. -/
theorem parse_joined_lone_quotes : ∃ A B tree, parse "Stage (it's)" = .ok A ∧
    parse "Gate (it's)" = .ok B ∧ A.IsPlain ∧ B.IsPlain ∧
    parse ("Stage (it's)" ++ ";\n" ++ "Gate (it's)") = .ok tree ∧ tree.statements ≠ A.statements ++
      Statement.shiftAll (utf8Length "Stage (it's)".toList + 2) B.statements := by
  obtain ⟨A, hA, hplainA, hcountA⟩ : ∃ tree, parse "Stage (it's)" = .ok tree ∧ tree.IsPlain ∧
      tree.statements.length = 1 := exists_plain (by decide +kernel)
  obtain ⟨B, hB, hplainB, hcountB⟩ : ∃ tree, parse "Gate (it's)" = .ok tree ∧ tree.IsPlain ∧
      tree.statements.length = 1 := exists_plain (by decide +kernel)
  obtain ⟨tree, htree, -, hcount⟩ : ∃ tree,
      parse ("Stage (it's)" ++ ";\n" ++ "Gate (it's)") = .ok tree ∧ tree.IsPlain ∧
        tree.statements.length = 1 := exists_plain (by decide +kernel)
  refine ⟨A, B, tree, hA, hB, hplainA, hplainB, htree, fun heq => ?_⟩
  have hlength := congrArg List.length heq
  rw [List.length_append, Statement.shiftAll_eq, List.length_map, hcount, hcountA, hcountB] at hlength
  cases hlength

end Script
end KeywordScope
