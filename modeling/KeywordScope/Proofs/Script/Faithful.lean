import KeywordScope.Proofs.Script.Node
import KeywordScope.Proofs.Script.Passage

/-!
# Faithful trees

The spans and texts in a tree are those of the source.

* `Node.Faithful source x`: what the span and the text of a piece say of the source, and how the
  spans of its parts lie in it.
* `Reading.laid`: whatever is read is faithful, and lies in order between the cursors.
* `parse_faithful`: every piece of the tree of a source is faithful.
-/

namespace KeywordScope
namespace Script

namespace Node

/-- The piece is a block. Its begin, process and end blocks may stand in any order. -/
def isBlock : Node → Bool
  | block _ => true
  | _ => false

/-- From where to where a piece goes, and which text of the source it shows. -/
def Extent (source : List Char) : Node → Prop
  | statement (.pipeline stages span) => span.Joins (stages.map Stage.span)
  | statement (.flow keyword elements span) =>
    ∃ word : Span, word.Covers source keyword.toList ∧
      span.Joins (word :: elements.map Element.span) ∧
      (word :: elements.map Element.span).Pairwise Span.Before
  | statement (.assignment target value span) =>
    ∃ between, span.Covers source ('$' :: target.toList ++ between ++ value.toList)
  | stage (.command elements span) => span.Joins (elements.map Element.span)
  | element e => e.span.Covers source e.shown.toList
  | _ => True

/-- The span of the piece lies in the source, between characters; the parts lie in it, one after the
other; and it begins, ends and reads as it should. -/
structure Faithful (source : List Char) (x : Node) : Prop where
  bounds : x.span.start ≤ x.span.stop ∧ x.span.stop ≤ utf8Length source
  inside : ∃ text, x.span.Covers source text
  encloses : ∀ y ∈ x.children, x.span.Encloses y.span
  ordered : x.isBlock = false → (x.children.map span).Pairwise Span.Before
  extent : x.Extent source

/-- The piece and all pieces of it are faithful. -/
def Exact (source : List Char) (y : Node) : Prop :=
  ∀ x : Node, x.Within y → x.Faithful source

variable {source : List Char}

theorem Exact.faithful {y : Node} (h : y.Exact source) : y.Faithful source :=
  h y (.refl y)

theorem Exact.child {y z : Node} (h : z.Exact source) (hy : y ∈ z.children) : y.Exact source :=
  fun x hx => h x (.child hy hx)

theorem Faithful.exact {y : Node} (h : y.Faithful source)
    (hchildren : ∀ z ∈ y.children, z.Exact source) : y.Exact source := by
  intro x hx
  rcases within_iff.1 hx with rfl | ⟨z, hz, hxz⟩
  · exact h
  · exact hchildren z hz x hxz

/-- A piece is faithful if its parts lie in order within its span. -/
theorem exact_of_row {y : Node} (hinside : ∃ text, y.span.Covers source text)
    (hrow : Row y.span.start (y.children.map span) y.span.stop)
    (hchildren : ∀ z ∈ y.children, z.Exact source) (hextent : y.Extent source) :
    y.Exact source := by
  refine Faithful.exact ⟨?_, hinside, ?_, fun _ => hrow.pairwise, hextent⟩ hchildren
  · obtain ⟨text, htext⟩ := hinside
    exact htext.bounds
  · intro z hz
    exact hrow.encloses (List.mem_map_of_mem hz)

/-- A flow statement is the command that it is written as. -/
theorem exact_flow {keyword : String} {wordSpan span : Span} {elements : List Element}
    (h : (stage (.command (.bareword keyword wordSpan :: elements) span)).Exact source) :
    (statement (.flow keyword elements span)).Exact source := by
  have hword := h.child (y := element (.bareword keyword wordSpan)) (by simp [children])
  have hordered := h.faithful.ordered rfl
  rw [children, List.map_map] at hordered
  refine Faithful.exact ⟨h.faithful.bounds, h.faithful.inside, ?_, fun _ => ?_, ?_⟩ ?_
  · intro z hz
    exact h.faithful.encloses z (List.mem_cons_of_mem _ hz)
  · rw [children, List.map_map]
    exact hordered.tail
  · exact ⟨wordSpan, hword.faithful.extent, h.faithful.extent, hordered⟩
  · intro z hz
    exact h.child (List.mem_cons_of_mem _ hz)

/-! ## Blocks -/

/-- The named block that a statement introduces. -/
theorem exact_named {s : Statement} {n : NamedBlock} (hs : (statement s).Exact source)
    (h : NamedBlock.ofStatement? s = some n) :
    (named n).Exact source ∧ s.span.Encloses n.span := by
  obtain ⟨word, wordSpan, body, span, span', kind, rfl, -, rfl⟩ := NamedBlock.ofStatement?_eq_some h
  have hstage : (stage (.command [.bareword word wordSpan, .script body] span)).Exact source :=
    hs.child (by simp [children])
  have hscript : (element (.script body)).Exact source := hstage.child (by simp [children])
  have hblock : (block body).Exact source := hscript.child (by simp [children])
  have hend : (named body.endBlock).Exact source :=
    hblock.child (named_mem_children.2 body.endBlock_mem)
  refine ⟨Faithful.exact ?_ fun z hz => hend.child hz, ?_⟩
  · refine ⟨hstage.faithful.bounds, hstage.faithful.inside, ?_, fun _ => ?_, trivial⟩
    · intro z hz
      have hbody := hstage.faithful.encloses (element (.script body)) (by simp [children])
      have hnamed := hblock.faithful.encloses _ (named_mem_children.2 body.endBlock_mem)
      exact hbody.trans (hnamed.trans (hend.faithful.encloses z hz))
    · exact hend.faithful.ordered rfl
  · refine hs.faithful.encloses
      (stage (.command [.bareword word wordSpan, .script body] span)) (by simp [children])

/-- A block whose statements lie in order within its span. -/
theorem exact_assembled {statements : List Statement} {text : String} {span : Span} {b : Block}
    (hb : b.AssembledFrom statements text span) (hinside : ∃ text, span.Covers source text)
    (hrow : Row span.start (statements.map Statement.span) span.stop)
    (hstatements : ∀ s ∈ statements, (statement s).Exact source) : (block b).Exact source := by
  have hbounds : span.start ≤ span.stop ∧ span.stop ≤ utf8Length source := by
    obtain ⟨text, htext⟩ := hinside
    exact htext.bounds
  have hnamed : ∀ n ∈ b.namedBlocks, (named n).Exact source ∧ span.Encloses n.span := by
    intro n hn
    rcases hb.named n hn with ⟨s, hs, hsn⟩ | rfl
    · obtain ⟨hexact, hencloses⟩ := exact_named (hstatements s hs) hsn
      exact ⟨hexact, (hrow.encloses (List.mem_map_of_mem hs)).trans hencloses⟩
    · refine ⟨Faithful.exact ⟨hbounds, hinside, ?_, fun _ => ?_, trivial⟩ ?_, .refl _⟩
      · intro z hz
        obtain ⟨s, hs, rfl⟩ := List.mem_map.1 hz
        exact hrow.encloses (List.mem_map_of_mem (List.mem_filter.1 hs).1)
      · rw [children, List.map_map]
        exact hrow.pairwise.sublist (List.filter_sublist.map _)
      · intro z hz
        obtain ⟨s, hs, rfl⟩ := List.mem_map.1 hz
        exact hstatements s (List.mem_filter.1 hs).1
  refine Faithful.exact ⟨?_, ?_, ?_, (fun h => by cases h), trivial⟩ ?_
  · rw [Node.span, hb.span_eq]
    exact hbounds
  · rw [Node.span, hb.span_eq]
    exact hinside
  · intro z hz
    obtain ⟨n, hn, rfl⟩ := List.mem_map.1 hz
    rw [Node.span, hb.span_eq]
    exact (hnamed n hn).2
  · intro z hz
    obtain ⟨n, hn, rfl⟩ := List.mem_map.1 hz
    exact (hnamed n hn).1

end Node

/-! ## Readings -/

/-- The nodes that a piece puts side by side. -/
def Piece.nodes : Piece → List Node
  | .statements list => list.map .statement
  | .statement s => [.statement s]
  | .stages list => list.map .stage
  | .stage s => [.stage s]
  | .elements list => list.map .element
  | .element e => [.element e]

/-- The stage is a command that is led by a word, or an expression. -/
def Stage.LedByWord : Stage → Prop
  | .command elements _ => ∃ text span rest, elements = .bareword text span :: rest
  | .expression _ => True

/-- Where a piece that is read from `c` to `d` goes. A list of stages or elements ends with the last
of them; behind a statement there may be a gap. -/
def Piece.Reaches (c d : Cursor) : Piece → Prop
  | .statements _ => True
  | .statement s => s.span = c.spanTo d
  | .stages list => endOf c.offset (list.map Stage.span) = d.offset
  | .stage s => s.span = c.spanTo d ∧ s.LedByWord
  | .elements list => endOf c.offset (list.map Element.span) = d.offset
  | .element e => e.Stands c d

/-- The piece is faithful, and lies in order between the two cursors. -/
structure Laid (source : List Char) (c : Cursor) (piece : Piece) (d : Cursor) : Prop where
  passes : ∃ taken, c.Passes taken d
  row : Row c.offset (piece.nodes.map Node.span) d.offset
  exact : ∀ x ∈ piece.nodes, x.Exact source
  reaches : piece.Reaches c d

/-- The cursor is a place of the source. -/
def Cursor.Of (source : List Char) (c : Cursor) : Prop :=
  ∃ before, Cursor.Passes ⟨0, source⟩ before c

theorem Cursor.Of.passes {source taken : List Char} {c d : Cursor} (h : c.Of source)
    (hp : c.Passes taken d) : d.Of source := by
  obtain ⟨before, hc⟩ := h
  exact ⟨before ++ taken, hc.trans hp⟩

theorem Cursor.Of.covers {source taken : List Char} {c d : Cursor} (h : c.Of source)
    (hp : c.Passes taken d) : (c.spanTo d).Covers source taken := by
  obtain ⟨before, hc⟩ := h
  exact hc.covers hp

theorem Cursor.Of.skipInline {source : List Char} {c : Cursor} (h : c.Of source) :
    c.skipInline.Of source :=
  h.passes c.passes_skipInline.choose_spec

theorem Cursor.Of.skipSeparators {source : List Char} {c : Cursor} (h : c.Of source) :
    c.skipSeparators.Of source :=
  h.passes c.passes_skipSeparators.choose_spec

section Laid

variable {source : List Char}

theorem laid_nothing {c : Cursor} {piece : Piece} (hnodes : piece.nodes = [])
    (hreaches : piece.Reaches c c) : Laid source c piece c := by
  refine ⟨⟨[], .refl c⟩, ?_, ?_, hreaches⟩
  · rw [hnodes]
    exact Nat.le_refl _
  · rw [hnodes]
    exact nofun

/-- A single piece lies between the cursors that its span tells. -/
theorem laid_single {c d : Cursor} {piece : Piece} {x : Node} (hnodes : piece.nodes = [x])
    (hpasses : ∃ taken, c.Passes taken d) (hspan : x.span = c.spanTo d) (hexact : x.Exact source)
    (hreaches : piece.Reaches c d) : Laid source c piece d := by
  have hle : c.offset ≤ d.offset := hpasses.choose_spec.le
  refine ⟨hpasses, ?_, ?_, hreaches⟩
  · rw [hnodes, List.map_singleton, hspan]
    exact ⟨Nat.le_refl _, hle, Nat.le_refl _⟩
  · rw [hnodes]
    exact List.forall_mem_singleton.2 hexact

/-- A piece goes in front of others, perhaps with gaps around it. -/
theorem laid_cons {c b d d' e : Cursor} {first more all : Piece} (x : Node)
    (hall : all.nodes = x :: more.nodes) (hx : first.nodes = [x])
    (hspan : x.span = b.spanTo d) (hb : ∃ taken, c.Passes taken b) (hfirst : Laid source b first d)
    (hd : ∃ taken, d.Passes taken d') (hmore : Laid source d' more e)
    (hreaches : all.Reaches c e) : Laid source c all e := by
  obtain ⟨_, hb⟩ := hb
  obtain ⟨_, hd⟩ := hd
  obtain ⟨_, hpasses⟩ := hfirst.passes
  obtain ⟨_, hpasses'⟩ := hmore.passes
  refine ⟨⟨_, hb.trans (hpasses.trans (hd.trans hpasses'))⟩, ?_, ?_, hreaches⟩
  · rw [hall, List.map_cons, hspan]
    exact ⟨hb.le, hpasses.le, hmore.row.mono hd.le (Nat.le_refl _)⟩
  · rw [hall]
    refine List.forall_mem_cons.2 ⟨hfirst.exact x ?_, hmore.exact⟩
    rw [hx]
    exact List.mem_singleton_self x

theorem Statement.ofStages_cases (stages : List Stage) (span : Span) :
    Statement.ofStages stages span = .pipeline stages span ∨
      ∃ word elements span', stages = [.command (word :: elements) span'] ∧
        Statement.ofStages stages span = .flow word.text elements span := by
  unfold Statement.ofStages
  split
  · next word elements span' =>
    split
    · exact .inr ⟨word, elements, span', rfl, rfl⟩
    · exact .inl rfl
  · exact .inl rfl

theorem laid_element {c d : Cursor} {e : Element} (hc : c.Of source) (he : e.Stands c d)
    (hchildren : ∀ x ∈ (Node.element e).children, x.Exact source) :
    Laid source c (.element e) d := by
  obtain ⟨taken, hpasses, hshown, hspan⟩ := id he
  have hcovers := hc.covers hpasses
  rw [← hspan] at hcovers
  have hsame : ∀ x ∈ (Node.element e).children, x.span = e.span := by
    intro x hx
    obtain ⟨b, rfl, rfl⟩ := Node.mem_children_element hx
    rfl
  have hordered : ((Node.element e).children.map Node.span).Pairwise Span.Before := by
    cases e with
    | script b => exact List.pairwise_singleton _ _
    | _ => exact .nil
  refine laid_single rfl ⟨taken, hpasses⟩ hspan ?_ he
  refine Node.Faithful.exact ⟨hcovers.bounds, ⟨taken, hcovers⟩, ?_, fun _ => hordered, ?_⟩ hchildren
  · intro x hx
    rw [hsame x hx]
    exact .refl _
  · rw [Node.Extent, hshown, String.toList_ofList]
    exact hcovers

theorem laid_script {c d : Cursor} {rest after : List Char} {statements : List Statement}
    {b : Block} (hc : c.Of source) (opens : c.rest = '{' :: rest)
    (inner : Laid source (c.seek rest).skipSeparators (.statements statements) d)
    (closes : d.rest = '}' :: after)
    (assembled : Block.assemble statements ((c.seek rest).textTo d) (c.spanTo (d.seek after)) =
      .ok b) : Laid source c (.element (.script b)) (d.seek after) := by
  have hb := Block.assemble_ok assembled
  have hopen := Cursor.passes_seek_cons opens
  have hclose := Cursor.passes_seek_cons closes
  obtain ⟨gap, hgap⟩ := (c.seek rest).passes_skipSeparators
  obtain ⟨taken, htaken⟩ := inner.passes
  have hinside := hgap.trans htaken
  have hall := hopen.trans (hinside.trans hclose)
  refine laid_element hc ⟨_, hall, ?_, hb.span_eq⟩ ?_
  · simp only [Element.shown, hb.text_eq, hinside.textTo_eq, String.ofList_append,
      String.append_assoc]
  · intro x hx
    obtain rfl := List.mem_singleton.1 hx
    have hrow := inner.row
    rw [Piece.nodes, List.map_map] at hrow
    refine Node.exact_assembled hb ⟨_, hc.covers hall⟩ ?_ fun s hs => ?_
    · exact hrow.mono (hopen.trans hgap).le hclose.le
    · exact inner.exact _ (List.mem_map_of_mem hs)

/-- A piece that consists of others, which lie in order between its ends. -/
theorem laid_whole {c d : Cursor} {parts whole : Piece} {x : Node} (hc : c.Of source)
    (hwhole : whole.nodes = [x]) (hspan : x.span = c.spanTo d) (hchildren : x.children = parts.nodes)
    (hparts : Laid source c parts d) (hextent : x.Extent source) (hreaches : whole.Reaches c d) :
    Laid source c whole d := by
  obtain ⟨taken, hpasses⟩ := hparts.passes
  refine laid_single hwhole ⟨taken, hpasses⟩ hspan ?_ hreaches
  refine Node.exact_of_row ⟨taken, ?_⟩ ?_ ?_ hextent
  · rw [hspan]
    exact hc.covers hpasses
  · rw [hspan, hchildren]
    exact hparts.row
  · rw [hchildren]
    exact hparts.exact

theorem laid_command {c d e : Cursor} {element : Element} {elements : List Element}
    (hc : c.Of source) (word : element.isBareword = true)
    (first : Laid source c (.element element) d) (more : Laid source d (.elements elements) e) :
    Laid source c (.stage (.command (element :: elements) (c.spanTo e))) e := by
  obtain ⟨_, _, _, hspan⟩ := first.reaches
  have hreaches : endOf element.span.stop (elements.map Element.span) = e.offset := by
    rw [hspan]
    exact more.reaches
  have hall : Laid source c (.elements (element :: elements)) e :=
    laid_cons (.element element) rfl rfl hspan ⟨[], .refl c⟩ first ⟨[], .refl d⟩ more hreaches
  refine laid_whole hc rfl rfl rfl hall ?_ ⟨rfl, ?_⟩
  · exact Span.joins_cons (by rw [hspan]; rfl) hreaches
  · cases element with
    | bareword text span => exact ⟨text, span, elements, rfl⟩
    | _ => cases word

theorem laid_pipeline {c d e : Cursor} {stage : Stage} {stages : List Stage} (hc : c.Of source)
    (first : Laid source c (.stage stage) d) (more : Laid source d (.stages stages) e) :
    Laid source c (.statement (.ofStages (stage :: stages) (c.spanTo e))) e := by
  obtain ⟨hspan, hword⟩ := first.reaches
  have hreaches : endOf stage.span.stop (stages.map Stage.span) = e.offset := by
    rw [hspan]
    exact more.reaches
  have hall : Laid source c (.stages (stage :: stages)) e :=
    laid_cons (.stage stage) rfl rfl hspan ⟨[], .refl c⟩ first ⟨[], .refl d⟩ more hreaches
  rcases Statement.ofStages_cases (stage :: stages) (c.spanTo e) with
    hsame | ⟨word, elements, span, hstages, hsame⟩
  · rw [hsame]
    exact laid_whole hc rfl rfl rfl hall
      (Span.joins_cons (by rw [hspan]; rfl) hreaches) rfl
  · -- The statement is the one stage that there is, so it ends where that does.
    obtain ⟨rfl, rfl⟩ := List.cons.inj hstages
    obtain rfl : span = c.spanTo e := by
      have hend : d.offset = e.offset := more.reaches
      exact hspan.trans (congrArg (Span.mk c.offset) hend)
    obtain ⟨text, span, rest, hled⟩ := hword
    obtain ⟨rfl, rfl⟩ := List.cons.inj hled
    rw [hsame]
    exact laid_single rfl hall.passes rfl
      (Node.exact_flow (first.exact _ (List.mem_singleton_self _))) rfl

theorem laid_assignment {c v d : Cursor} {target : String} {elements : List Element}
    (hc : c.Of source) (begins : assignment? c = some (target, v))
    (value : Laid source v (.elements elements) d) :
    Laid source c (.statement (.assignment target (v.textTo d) (c.spanTo d))) d := by
  obtain ⟨gap, htarget⟩ := passes_assignment? begins
  obtain ⟨taken, hvalue⟩ := value.passes
  have hcovers := hc.covers (htarget.trans hvalue)
  refine laid_single rfl ⟨_, htarget.trans hvalue⟩ rfl ?_ rfl
  refine Node.Faithful.exact ⟨hcovers.bounds, ⟨_, hcovers⟩, nofun, fun _ => .nil, gap, ?_⟩ nofun
  rw [hvalue.textTo_eq, String.toList_ofList]
  exact hcovers

/-- Whatever is read is faithful, and lies in order between the cursors. -/
theorem Reading.laid {c d : Cursor} {piece : Piece} {parts : List Piece}
    (h : Reading c piece d parts) (hc : c.Of source) : Laid source c piece d := by
  induction h with
  | noStatements => exact laid_nothing rfl trivial
  | @statements c d e statement _ _ _ _ _ _ _ ihFirst ihMore =>
    have first := ihFirst hc
    obtain ⟨_, hfirst⟩ := first.passes
    obtain ⟨_, hgap⟩ := d.passes_skipInline
    obtain ⟨_, hgap'⟩ := d.skipInline.passes_skipSeparators
    have hd := (hc.passes hfirst).skipInline.skipSeparators
    exact laid_cons (.statement statement) rfl rfl first.reaches ⟨[], .refl c⟩ first
      ⟨_, hgap.trans hgap'⟩ (ihMore hd) trivial
  | assignment begins _ ih =>
    exact laid_assignment hc begins (ih (hc.passes (passes_assignment? begins).choose_spec))
  | pipeline _ _ _ ihFirst ihMore =>
    have first := ihFirst hc
    obtain ⟨_, hfirst⟩ := first.passes
    exact laid_pipeline hc first (ihMore (hc.passes hfirst))
  | noStages => exact laid_nothing rfl rfl
  | @stages c d e f stage stages _ _ goOn _ _ ihFirst ihMore =>
    obtain ⟨gap, hgap⟩ := passes_pipe? goOn
    have first := ihFirst (hc.passes hgap)
    obtain ⟨_, hfirst⟩ := first.passes
    have more := ihMore ((hc.passes hgap).passes hfirst)
    refine laid_cons (.stage stage) rfl rfl first.reaches.1 ⟨gap, hgap⟩ first ⟨[], .refl e⟩ more ?_
    rw [Piece.Reaches, List.map_cons, endOf, first.reaches.1]
    exact more.reaches
  | command _ word _ ihFirst ihMore =>
    have first := ihFirst hc
    obtain ⟨_, hfirst⟩ := first.passes
    exact laid_command hc word first (ihMore (hc.passes hfirst))
  | expression _ _ ih =>
    have only := ih hc
    obtain ⟨_, _, _, hspan⟩ := only.reaches
    exact laid_whole hc rfl hspan (Eq.refl (Piece.element _).nodes) only trivial ⟨hspan, trivial⟩
  | noElements => exact laid_nothing rfl rfl
  | @elements c d e element elements _ _ _ _ _ ihFirst ihMore =>
    obtain ⟨gap, hgap⟩ := c.passes_skipInline
    have first := ihFirst hc.skipInline
    obtain ⟨_, hfirst⟩ := first.passes
    have more := ihMore (hc.skipInline.passes hfirst)
    obtain ⟨_, _, _, hspan⟩ := first.reaches
    refine laid_cons (.element element) rfl rfl hspan ⟨gap, hgap⟩ first ⟨[], .refl d⟩ more ?_
    rw [Piece.Reaches, List.map_cons, endOf, hspan]
    exact more.reaches
  | script opens _ closes assembled ih =>
    exact laid_script hc opens (ih (hc.passes (Cursor.passes_seek_cons opens)).skipSeparators) closes
      assembled
  | atom _ isRead =>
    obtain ⟨hstands, hnoBlock⟩ := Atom.stands_read isRead
    refine laid_element hc hstands fun x hx => ?_
    obtain ⟨b, hb, -⟩ := Node.mem_children_element hx
    exact absurd hb (hnoBlock b)

end Laid

/-- Every piece of the tree of a source is faithful to it, and the tree as a whole shows it. -/
theorem parse_faithful {source : String} {block : Block} (h : parse source = .ok block) :
    block.text = source ∧ block.span = ⟨0, utf8Length source.toList⟩ ∧
      ∀ x : Node, x.Within (.block block) → x.Faithful source.toList := by
  obtain ⟨statements, d, parts, hend, reading, assembled⟩ := parse_eq_ok_iff.1 h
  have hb := Block.assemble_ok assembled
  have hstart : (Cursor.start source).Of source.toList := ⟨[], .refl _⟩
  have hlaid := reading.laid hstart.skipSeparators
  obtain ⟨gap, hgap⟩ := (Cursor.start source).passes_skipSeparators
  obtain ⟨taken, htaken⟩ := hlaid.passes
  have hall := hgap.trans htaken
  have htaken : gap ++ taken = source.toList := by
    have := hall.rest_eq
    rw [hend, List.append_nil] at this
    exact this.symm
  rw [htaken] at hall
  refine ⟨?_, ?_, ?_⟩
  · rw [hb.text_eq, hall.textTo_eq, String.ofList_toList]
  · rw [hb.span_eq, Cursor.spanTo, hall.offset_eq]
    exact congrArg (Span.mk 0) (Nat.zero_add _)
  · have hrow := hlaid.row
    rw [Piece.nodes, List.map_map] at hrow
    refine Node.exact_assembled hb ⟨_, hstart.covers hall⟩ ?_ fun s hs => ?_
    · exact hrow.mono hgap.le (Nat.le_refl _)
    · exact hlaid.exact _ (List.mem_map_of_mem hs)

/-- Named blocks, two stages, a flow statement, an assignment and wide characters. -/
def sampleScript : String :=
  "begin \x7b Größe \x7b Int [a] \x7d | (1) \x7d\n" ++
    "end \x7b if ($x) \x7b \x7d; $y = 'z' 2 \x7d # é"

theorem parse_faithful_sample :
    ∃ block, parse sampleScript = .ok block ∧ block.text = sampleScript ∧ block.span = ⟨0, 72⟩ ∧
      ∀ x : Node, x.Within (.block block) → x.Faithful sampleScript.toList := by
  have accepted : (parse sampleScript).isOk = true := by decide +kernel
  cases h : parse sampleScript with
  | error => simp [h, Except.isOk, Except.toBool] at accepted
  | ok block =>
    obtain ⟨htext, hspan, hfaithful⟩ := parse_faithful h
    have hlength : utf8Length sampleScript.toList = 72 := by decide +kernel
    exact ⟨block, rfl, htext, by rw [hspan, hlength], hfaithful⟩

end Script
end KeywordScope
