import KeywordScope.Proofs.Script.Blocks
import KeywordScope.Proofs.Script.Places
import KeywordScope.Proofs.Script.Regapped

/-!
# Continued statements

A backtick at the end of a line continues the statement behind every element but a word.

* `Regap.Behind G e`: the gap stands behind the element, which is no word.
* `inherited_fits`: of two neighbouring pieces one holds the element, or the gap stands outside of
  both.
* `parse_regapped`: with another gap behind the element, the source has the same tree.
* `parse_continued_iff`: so it has with a backtick and a newline, but not behind a word.
-/

namespace KeywordScope
namespace Script

namespace Regap

/-- The source, with the gap. -/
def source (G : Regap) : List Char :=
  G.front ++ G.after

/-- The source with the new gap. -/
def source' (G : Regap) : List Char :=
  G.front ++ G.after'

/-- The gap stands behind the element, which is no word. -/
structure Behind (G : Regap) (e : Element) : Prop where
  stop_eq : e.span.stop = G.stop
  start_lt : e.span.start < G.stop
  noWord : e.isBareword = false

end Regap

/-- The piece begins behind the gap. Further stages and elements may begin with the gap itself. -/
def Piece.BeginsBehind (G : Regap) (c : Cursor) : Piece → Prop
  | .stages _ => G.stop ≤ c.offset
  | .elements _ => G.stop ≤ c.offset
  | _ => G.stop < c.offset

theorem Piece.BeginsBehind.le {G : Regap} {c : Cursor} {piece : Piece}
    (h : piece.BeginsBehind G c) : G.stop ≤ c.offset := by
  cases piece with
  | stages | elements => exact h
  | _ => exact Nat.le_of_lt h

namespace Regap

/-- The piece ends in front of the gap, or begins behind it, or it holds the element. -/
structure Fits (G : Regap) (e : Element) (c : Cursor) (piece : Piece) (d : Cursor)
    (parts : List Piece) : Prop where
  of : c.Of G.source
  place : d.offset < G.stop ∨ piece.BeginsBehind G c ∨ piece.Holds e

/-- The gap between statements ends in front of the gap, or begins behind it. -/
def Clear (G : Regap) (c : Cursor) : Prop :=
  c.skipSeparators.offset < G.stop ∨ G.stop < c.offset

variable {G : Regap} {e : Element}

/-- Where the gap begins, it is skipped. -/
theorem stop_lt_skipInline {c : Cursor} (hc : c.Of G.source) (h : G.stop ≤ c.offset) :
    G.stop < c.skipInline.offset := by
  have hgap : Cursor.Of G.source ⟨G.stop, G.after⟩ := ⟨G.front, rfl, (Nat.zero_add _).symm⟩
  obtain ⟨_, hpasses⟩ := c.passes_skipInline
  rcases Nat.eq_or_lt_of_le h with hstop | hlt
  · obtain rfl := hc.eq_of_offset hgap hstop.symm
    have hlt := G.stop_lt_resume
    rw [skipInline_gap, Cursor.placed_offset]
    omega
  · exact Nat.lt_of_lt_of_le hlt hpasses.le

end Regap

/-- What a piece holds stands between its ends. -/
theorem Reading.holds_between {source : List Char} {c d : Cursor} {piece : Piece}
    {parts : List Piece} {e : Element} (h : Reading c piece d parts) (hc : c.Of source)
    (he : piece.Holds e) : c.offset ≤ e.span.start ∧ e.span.stop ≤ d.offset := by
  obtain ⟨a, b, _, _, hbefore, ⟨_, -, -, hspan⟩, hafter⟩ := h.stands hc (h.mem_of_holds he)
  rw [hspan]
  exact ⟨hbefore.le, hafter.le⟩

namespace Regap

variable {G : Regap} {e : Element}

/-- Of two pieces, one after the other, that make up a piece, one holds what that holds. So the gap
stands in none of them, or in one and behind an element of it. -/
theorem Fits.split (hb : G.Behind e) {all first more : Piece} {c b d d' f : Cursor}
    {parts left right : List Piece} (h : G.Fits e c all f parts)
    (hholds : all.Holds e → first.Holds e ∨ more.Holds e) (hgap : ∃ gap, c.Passes gap b)
    (hfirst : Reading b first d left) (hgap' : ∃ gap, d.Passes gap d')
    (hmore : Reading d' more f right) (hbegins : all.BeginsBehind G c → first.BeginsBehind G b)
    (hbegins' : d.Of G.source → G.stop ≤ d.offset → more.BeginsBehind G d') :
    G.Fits e b first d left ∧ (d'.offset < G.stop ∨ G.stop ≤ d.offset) ∧
      G.Fits e d' more f right := by
  obtain ⟨_, hgap⟩ := hgap
  obtain ⟨_, hgap'⟩ := hgap'
  obtain ⟨_, hpasses⟩ := hfirst.forward
  obtain ⟨_, hpasses'⟩ := hmore.forward
  have hbOf := h.of.passes hgap
  have hdOf := hbOf.passes hpasses
  have hdOf' := hdOf.passes hgap'
  have hle := hgap.le
  have hle' := hpasses.le
  have hle'' := hgap'.le
  have hle''' := hpasses'.le
  have hstop := hb.stop_eq
  have hstart := hb.start_lt
  rcases h.place with hfront | hback | he
  · exact ⟨⟨hbOf, .inl (by omega)⟩, .inl (by omega), hdOf', .inl hfront⟩
  · have hstop' : G.stop ≤ d.offset := by
      have := hback.le
      omega
    exact ⟨⟨hbOf, .inr (.inl (hbegins hback))⟩, .inr hstop', hdOf',
      .inr (.inl (hbegins' hdOf hstop'))⟩
  · rcases hholds he with he | he
    · have hstop' : G.stop ≤ d.offset := by
        have := (hfirst.holds_between hbOf he).2
        omega
      exact ⟨⟨hbOf, .inr (.inr he)⟩, .inr hstop', hdOf', .inr (.inl (hbegins' hdOf hstop'))⟩
    · have hstart' := (hmore.holds_between hdOf' he).1
      exact ⟨⟨hbOf, .inl (by omega)⟩, .inl (by omega), hdOf', .inr (.inr he)⟩

theorem inherited_fits (hb : G.Behind e) : Inherited (G.Fits e) G.Clear where
  statements {c d f} _ _ _ _ h first more := by
    obtain ⟨_, hpasses⟩ := first.forward
    obtain ⟨_, hgap⟩ := d.passes_skipInline
    obtain ⟨_, hgap'⟩ := d.skipInline.passes_skipSeparators
    obtain ⟨hfirst, hclear, hmore⟩ := h.split hb (fun he => holds_cons he rfl rfl) ⟨[], .refl c⟩
      first ⟨_, hgap.trans hgap'⟩ more id
      (fun hd hstop => Nat.lt_of_lt_of_le (stop_lt_skipInline hd hstop) hgap'.le)
    exact ⟨hfirst, hclear.imp_right (stop_lt_skipInline (hfirst.of.passes hpasses)), hmore⟩
  assignment h begins _ := by
    obtain ⟨_, hpasses⟩ := passes_assignment? begins
    have hplace := h.place.imp_right fun h => h.resolve_right holds_assignment
    refine ⟨h.of.passes hpasses, hplace.imp_right fun hback => .inl ?_⟩
    exact Nat.le_trans hback.le hpasses.le
  pipeline {c d _} _ _ _ _ _ h first more := by
    obtain ⟨hfirst, -, hmore⟩ := h.split hb (fun he => holds_cons (holds_ofStages he) rfl rfl)
      ⟨[], .refl c⟩ first ⟨[], .refl d⟩ more id fun _ hstop => hstop
    exact ⟨hfirst, hmore⟩
  stages {_ _ e _} _ _ _ _ h goOn first more := by
    obtain ⟨_, hpipe⟩ := passes_pipe? goOn
    have hlt := hpipe.lt (pipe?_shorter goOn)
    obtain ⟨hfirst, -, hmore⟩ := h.split hb (fun he => holds_cons he rfl rfl) ⟨_, hpipe⟩ first
      ⟨[], .refl e⟩ more (fun hback => Nat.lt_of_le_of_lt hback.le hlt) fun _ hstop => hstop
    exact ⟨hfirst, hmore⟩
  command {c d _} _ _ _ _ h first more := by
    obtain ⟨hfirst, -, hmore⟩ := h.split hb (fun he => holds_cons (holds_command he) rfl rfl)
      ⟨[], .refl c⟩ first ⟨[], .refl d⟩ more id fun _ hstop => hstop
    exact ⟨hfirst, hmore⟩
  expression h _ := ⟨h.of, h.place.imp_right (Or.imp_right holds_expression)⟩
  elements {c d _} _ _ _ _ h first more := by
    obtain ⟨hfirst, -, hmore⟩ := h.split hb (fun he => holds_cons he rfl rfl) c.passes_skipInline
      first ⟨[], .refl d⟩ more (stop_lt_skipInline h.of) fun _ hstop => hstop
    exact ⟨hfirst, hmore⟩
  script {c d rest after} _ block _ _ h opens inner closes assembled := by
    have hopen := Cursor.passes_seek_cons opens
    have hclose := Cursor.passes_seek_cons closes
    obtain ⟨_, hgap⟩ := (c.seek rest).passes_skipSeparators
    obtain ⟨_, hpasses⟩ := inner.forward
    have hinside := (h.of.passes hopen).skipSeparators
    have hle := hopen.le
    have hle' := hgap.le
    have hle'' := hpasses.le
    have hlt : d.offset < (d.seek after).offset :=
      hclose.lt (by rw [closes]; exact Nat.lt_succ_self _)
    have hstop := hb.stop_eq
    have hstart := hb.start_lt
    rcases h.place with hfront | hback | he
    · exact ⟨.inl (by omega), hinside, .inl (by omega)⟩
    · have hback : G.stop < c.offset := hback
      exact ⟨.inr (by omega), hinside, .inr (.inl (Nat.lt_of_lt_of_le hback (by omega)))⟩
    · rcases holds_script assembled he with rfl | he
      · have hspan : block.span = c.spanTo (d.seek after) := (Block.assemble_ok assembled).span_eq
        have hstop : (d.seek after).offset = G.stop := by
          rw [← hstop, Element.span, hspan]
          rfl
        exact ⟨.inl (by omega), hinside, .inl (by omega)⟩
      · have hstart' := (inner.holds_between hinside he).1
        exact ⟨.inl (by omega), hinside, .inr (.inr he)⟩

/-- The readers find the same with the new gap. -/
theorem follows_regapped (hb : G.Behind e) :
    Follows G.likeness G.Reach (G.Fits e) G.Clear where
  span h h' := h.span h'
  raw h h' hpasses hpasses' hspan := by
    refine (h.textTo_cases h' hpasses hpasses').imp_right ?_
    rintro ⟨hgap, htext⟩
    exact ⟨hspan.trans hgap, htext⟩
  assigned h h' hpasses hpasses' begins hfits := by
    obtain ⟨_, htarget⟩ := passes_assignment? begins
    have hplace := hfits.place.imp_right fun h => h.resolve_right holds_assignment
    refine h.textTo_eq h' hpasses hpasses' (hplace.imp_right fun hback => ?_)
    exact Nat.lt_of_lt_of_le hback htarget.le
  inline h := h.inline
  separators h hclear := h.separators hclear
  stop h _ := by rw [h.nil_iff, h.head?_iff (by decide)]
  statementEnd h := h.atStatementEnd_eq
  stageEnd h := h.atStageEnd_eq
  noValue h hnone := rel_none h.assignment? hnone
  value h hfound := by
    obtain ⟨⟨target', v'⟩, hfound', htarget, hreach⟩ := rel_some h.assignment? hfound
    exact ⟨target', v', hfound', htarget, hreach⟩
  noPipe h hnone := rel_none h.pipe? hnone
  pipe h hfound := rel_some h.pipe? hfound
  brace {_ _ x _} hx h hrest := by
    have hx : x ∉ InlineGap.heads := by
      rcases hx with rfl | rfl
      · decide
      · decide
    obtain ⟨rest', hrest', hseek, -⟩ := h.cons hx hrest
    exact ⟨rest', hrest', hseek⟩
  noBrace h hother := mt (h.head?_iff (by decide)).1 hother
  atom h hread hfits := by
    refine h.atom hread (hfits.place.imp_right (Or.imp_right fun he => ?_))
    obtain rfl := holds_atom hread he
    obtain ⟨⟨_, -, -, hspan⟩, -⟩ := Atom.stands_read hread
    refine ⟨?_, hb.noWord⟩
    rw [← hb.stop_eq, hspan]
    rfl

/-- With another gap behind an element that is no word, a source has the same tree, but for spans
and the texts of the blocks that the gap stands in. -/
theorem parse_regapped (hb : G.Behind e) {block : Block}
    (h : parse (String.ofList G.source) = .ok block) (he : (Node.element e).Within (.block block)) :
    ∃ block', parse (String.ofList G.source') = .ok block' ∧ block.Like G.likeness block' := by
  obtain ⟨statements, d, parts, hd, hreading, hassembled⟩ := parse_eq_ok_iff.1 h
  have hF := follows_regapped hb
  have hstart : G.Reach (Cursor.start (String.ofList G.source))
      (Cursor.start (String.ofList G.source')) := by
    rw [Cursor.start, Cursor.start, String.toList_ofList, String.toList_ofList]
    exact .front (b := ⟨0, G.front⟩) ⟨[], .refl _⟩
  have hof := Cursor.Of.start (String.ofList G.source)
  rw [String.toList_ofList] at hof
  obtain ⟨s, hs, hwithin⟩ := within_assembled (Block.assemble_ok hassembled) he
  have hholds : (Piece.statements statements).Holds e := ⟨_, List.mem_map_of_mem hs, hwithin⟩
  have hclear : (Cursor.start (String.ofList G.source)).skipSeparators.offset < G.stop :=
    Nat.lt_of_le_of_lt (hreading.holds_between hof.skipSeparators hholds).1 hb.start_lt
  obtain ⟨d', hRd, statements', parts', hreading', hstatements⟩ := hreading.follow_of_fits hF
    (inherited_fits hb) ⟨hof.skipSeparators, .inr (.inr hholds)⟩ _ (hstart.separators (.inl hclear))
  obtain ⟨_, hgap⟩ := (Cursor.start (String.ofList G.source)).passes_skipSeparators
  obtain ⟨_, hgap'⟩ := (Cursor.start (String.ofList G.source')).passes_skipSeparators
  obtain ⟨_, hpasses⟩ := hreading.forward
  obtain ⟨_, hpasses'⟩ := hreading'.forward
  obtain ⟨block', hassembled', hlike⟩ := Block.assemble_like hstatements
    (hF.raw hstart hRd (hgap.trans hpasses) (hgap'.trans hpasses') (.refl _))
    (hF.span hstart hRd) hassembled
  exact ⟨block', parse_eq_ok_iff.2
    ⟨statements', d', parts', hRd.nil_iff.2 hd, hreading', hassembled'⟩, hlike⟩

end Regap

/-! ## Words -/

/-- The elements of a tree are read in the source. -/
theorem exists_reading {source : String} {block : Block} (h : parse source = .ok block)
    {e : Element} (he : (Node.element e).Within (.block block)) :
    ∃ statements d parts, Reading (Cursor.start source).skipSeparators (.statements statements) d
      parts ∧ .element e ∈ parts := by
  obtain ⟨statements, d, parts, -, hreading, hassembled⟩ := parse_eq_ok_iff.1 h
  obtain ⟨s, hs, hwithin⟩ := within_assembled (Block.assemble_ok hassembled) he
  exact ⟨statements, d, parts, hreading, hreading.element_mem (List.mem_map_of_mem hs) hwithin⟩

/-- A word goes on as long as characters of words come. -/
theorem parse_endsWord {source : String} {block : Block} (h : parse source = .ok block)
    {e : Element} (he : (Node.element e).Within (.block block)) (hword : e.isBareword = true)
    {front after : List Char} (hsource : source.toList = front ++ after)
    (hstop : e.span.stop = utf8Length front) : EndsWord after := by
  obtain ⟨statements, d, parts, hreading, hmem⟩ := exists_reading h he
  have hstart := (Cursor.Of.start source).skipSeparators
  rw [hsource] at hstart
  rcases hreading.of_mem hmem with ⟨a, b, _, _, hpasses, hread⟩ | ⟨_, _, _, -, rfl⟩
  · have ha := hstart.passes hpasses
    obtain ⟨_, htaken, -, hspan⟩ := (hread.laid ha).reaches
    have hend : Cursor.Of (front ++ after) ⟨utf8Length front, after⟩ :=
      ⟨front, rfl, (Nat.zero_add _).symm⟩
    rw [hspan] at hstop
    have hb : b = ⟨utf8Length front, after⟩ := (ha.passes htaken).eq_of_offset hend hstop
    cases hread with
    | script => cases hword
    | atom _ isRead =>
      have hrest := congrArg Cursor.rest hb
      cases Atom.lexeme_of_read isRead with
      | word _ _ _ _ _ isWord =>
        obtain rfl : _ = after := hrest
        exact Atom.splitWord?_head isWord
      | @group isTable => cases isTable <;> cases hword
      | quoted | named | number => cases hword
  · cases hword

/-! ## Continued lines -/

/-- A gap behind an element within a statement may be a backtick and a newline as well as any
spaces, tabs and continued lines: the source has the same tree then, but for spans and the texts of
the blocks that the gap stands in. This holds just if the element is no word. -/
theorem parse_continued_iff {source : String} {block : Block} (h : parse source = .ok block)
    {e : Element} (he : (Node.element e).Within (.block block)) {front gap back : List Char}
    (hsource : source.toList = front ++ (gap ++ back)) (hstop : e.span.stop = utf8Length front)
    (hgap : InlineGap gap) (hne : gap ≠ []) :
    (∃ block', parse (String.ofList (front ++ '\x60' :: '\n' :: back)) = .ok block' ∧
      block.Like (.regapped front gap ['\x60', '\n']) block') ↔ e.isBareword = false := by
  constructor
  · rintro ⟨block', hblock', hlike⟩
    rw [Bool.eq_false_iff]
    intro hword
    obtain ⟨_, he', hlike'⟩ := (Node.Like.block hlike).within he
    cases hlike' with
    | element hlike' =>
      cases hlike' with
      | @bareword _ _ span span' _ hspan =>
        -- The word ends in front of the backtick, which might stand in it.
        have hstop' : span'.stop = utf8Length front := by
          rw [hspan, ← hstop]
          exact if_pos (Nat.le_of_eq hstop)
        have hends := parse_endsWord hblock' he' rfl String.toList_ofList hstop'
        exact absurd (hends '\x60' rfl) (by decide)
      | _ => cases hword
  · intro hword
    obtain ⟨statements, d, parts, hreading, hmem⟩ := exists_reading h he
    have hstart := (Cursor.Of.start source).skipSeparators
    rw [hsource] at hstart
    obtain ⟨hends, hlt⟩ := hreading.ends_front hstart hmem hword hstop
    let G : Regap := ⟨front, gap, ['\x60', '\n'], back, hgap, .newline .nil, hne,
      List.cons_ne_nil _ _, hends⟩
    have hb : G.Behind e := ⟨hstop, hlt, hword⟩
    have hsame : String.ofList G.source = source := by
      show String.ofList (front ++ (gap ++ back)) = source
      rw [← hsource, String.ofList_toList]
    exact G.parse_regapped hb (hsame ▸ h) he

/-- Behind a string, a gap that goes on in the next line. -/
theorem parse_continued_sample : ∃ block e, parse "Stage \x22a\x22 \t\x60\n b" = .ok block ∧
    (Node.element e).Within (.block block) ∧ e.span.stop = 9 ∧ e.isBareword = false ∧
    ∃ block', parse "Stage \x22a\x22\x60\nb" = .ok block' ∧
      block.Like (.regapped "Stage \x22a\x22".toList [' ', '\t', '\x60', '\n', ' '] ['\x60', '\n'])
        block' := by
  have hread : (parse "Stage \x22a\x22 \t\x60\n b").toOption.any (fun tree =>
      tree.statements.any fun s =>
        s.commandElements.any fun e => e.span.stop == 9 && !e.isBareword) = true := by
    decide +kernel
  obtain ⟨block, e, hparse, hwithin, hfound⟩ := exists_element hread
  simp only [Bool.and_eq_true, beq_iff_eq, Bool.not_eq_true'] at hfound
  obtain ⟨hstop, hword⟩ := hfound
  have hgap : InlineGap [' ', '\t', '\x60', '\n', ' '] :=
    .blank rfl (.blank rfl (.newline (.blank rfl .nil)))
  have hsource : "Stage \x22a\x22 \t\x60\n b".toList =
      "Stage \x22a\x22".toList ++ ([' ', '\t', '\x60', '\n', ' '] ++ ['b']) := by
    decide +kernel
  have hlike :=
    (parse_continued_iff hparse hwithin hsource hstop hgap (List.cons_ne_nil _ _)).2 hword
  exact ⟨block, e, hparse, hwithin, hstop, hword, hlike⟩

/-- Behind a word the backtick stands in the word, and the next line is a statement of its own. -/
theorem parse_continued_word : ∃ block block', parse "Stage Foo Bar" = .ok block ∧
    block.statements.map (fun s => s.commandElements.map fun e => (e.text, e.span)) =
      [[("Stage", ⟨0, 5⟩), ("Foo", ⟨6, 9⟩), ("Bar", ⟨10, 13⟩)]] ∧
    parse "Stage Foo\x60\nBar" = .ok block' ∧
    block'.statements.map (fun s => s.commandElements.map fun e => (e.text, e.span)) =
      [[("Stage", ⟨0, 5⟩), ("Foo\x60", ⟨6, 10⟩)], [("Bar", ⟨11, 14⟩)]] ∧
    ∀ L : Likeness, ¬ block.Like L block' := by
  have hread : (parse "Stage Foo Bar").toOption.any (fun tree => decide
      (tree.statements.map (fun s => s.commandElements.map fun e => (e.text, e.span)) =
        [[("Stage", ⟨0, 5⟩), ("Foo", ⟨6, 9⟩), ("Bar", ⟨10, 13⟩)]])) = true := by
    decide +kernel
  have hread' : (parse "Stage Foo\x60\nBar").toOption.any (fun tree => decide
      (tree.statements.map (fun s => s.commandElements.map fun e => (e.text, e.span)) =
        [[("Stage", ⟨0, 5⟩), ("Foo\x60", ⟨6, 10⟩)], [("Bar", ⟨11, 14⟩)]])) = true := by
    decide +kernel
  obtain ⟨block, hblock, htexts⟩ := (Option.any_eq_true _ _).1 hread
  obtain ⟨block', hblock', htexts'⟩ := (Option.any_eq_true _ _).1 hread'
  have htexts := of_decide_eq_true htexts
  have htexts' := of_decide_eq_true htexts'
  refine ⟨block, block', parse_of_mem hblock, htexts, parse_of_mem hblock', htexts', ?_⟩
  intro L hlike
  have hlength := hlike.statements.length_eq
  have hone := congrArg List.length htexts
  have htwo := congrArg List.length htexts'
  simp only [List.length_map, List.length_cons, List.length_nil] at hone htwo
  omega

end Script
end KeywordScope
