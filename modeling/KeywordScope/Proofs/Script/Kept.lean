import KeywordScope.Proofs.Script.Faithful
import KeywordScope.Proofs.Script.Written

/-!
# What becomes of what is read

After they are read, statements are put together anew: a command becomes a flow statement, the value
of an assignment becomes its text, and the statements of a block become its begin, process and end
blocks.

* `Piece.Holds e`: the tree of the piece holds the element, which is then one of those read.
* `Node.Carries parts x e`: the element is found in the piece, with its text and span.
* `Swallowed parts e`: the element stands in a begin or process block directly inside a begin,
  process or end block.
* `parse_keeps`: each element that is read is found in the tree, unless it is swallowed. A named
  block takes the statements of the end block of its body, and nothing keeps the others.
-/

namespace KeywordScope
namespace Script

/-- Among the parts is a statement that consists of the word and the body, and is the named block. -/
def Heads (parts : List Piece) (n : NamedBlock) (word : Element) (body : Block) : Prop :=
  ∃ span span', .statement (.pipeline [.command [word, .script body] span] span') ∈ parts ∧
    NamedBlock.ofStatement? (.pipeline [.command [word, .script body] span] span') = some n

/-- The element is found in the piece, with its text and span. -/
inductive Node.Carries (parts : List Piece) : Node → Element → Prop where
  /-- As an element of a command, or as an expression. -/
  | element (e : Element) : Carries parts (.element e) e
  /-- As the word in front of a flow statement. -/
  | keyword {keyword : String} {elements : List Element} {span : Span} :
      Carries parts (.statement (.flow keyword elements span))
        (.bareword keyword ⟨span.start, span.start + utf8Length keyword.toList⟩)
  /-- As the variable in front of an assignment. -/
  | target {target value : String} {span : Span} :
      Carries parts (.statement (.assignment target value span))
        (.variable target ("$" ++ target)
          ⟨span.start, span.start + utf8Length ('$' :: target.toList)⟩)
  /-- In the text of the value of an assignment, which the span of the assignment ends with. -/
  | value {target value : String} {span inner : Span} {e : Element}
      (stands : inner.Covers value.toList e.shown.toList)
      (place : e.span = inner.shift (span.stop - utf8Length value.toList)) :
      Carries parts (.statement (.assignment target value span)) e
  /-- As the word in front of a named block. -/
  | word {n : NamedBlock} {word : Element} {body : Block} (heads : Heads parts n word body) :
      Carries parts (.named n) word
  /-- As the body of a named block. -/
  | braces {n : NamedBlock} {word : Element} {body : Block} (heads : Heads parts n word body) :
      Carries parts (.named n) (.script body)
  /-- In the end block of the body of a named block, whose statements the named block has. -/
  | endBlock {n : NamedBlock} {word e : Element} {body : Block} (heads : Heads parts n word body)
      (carries : Carries parts (.named body.endBlock) e) : Carries parts (.named n) e
  | child {x y : Node} {e : Element} (isChild : y ∈ x.children) (carries : Carries parts y e) :
      Carries parts x e

/-- The element stands in a begin or process block directly inside a named block. -/
def Swallowed (parts : List Piece) (e : Element) : Prop :=
  ∃ n word body m, Heads parts n word body ∧ (body.begin? = some m ∨ body.process? = some m) ∧
    (Node.named m).Carries parts e

/-! ## Where elements stand -/

/-- The element stands somewhere between the two cursors. -/
def Element.StandsBetween (e : Element) (c d : Cursor) : Prop :=
  ∃ a b before after, c.Passes before a ∧ e.Stands a b ∧ b.Passes after d

theorem Element.Stands.between {e : Element} {c d : Cursor} (h : e.Stands c d) :
    e.StandsBetween c d :=
  ⟨c, d, [], [], .refl c, h, .refl d⟩

theorem Element.StandsBetween.widen {e : Element} {c c' d d' : Cursor} (h : e.StandsBetween c d)
    (hc : ∃ taken, c'.Passes taken c) (hd : ∃ taken, d.Passes taken d') :
    e.StandsBetween c' d' := by
  obtain ⟨a, b, before, after, hbefore, he, hafter⟩ := h
  obtain ⟨gap, hc⟩ := hc
  obtain ⟨gap', hd⟩ := hd
  exact ⟨a, b, _, _, hc.trans hbefore, he, hafter.trans hd⟩

theorem Cursor.Passes.split {c d : Cursor} {first second : List Char}
    (h : c.Passes (first ++ second) d) : ∃ m, c.Passes first m ∧ m.Passes second d := by
  refine ⟨⟨c.offset + utf8Length first, second ++ d.rest⟩, ⟨?_, rfl⟩, ⟨rfl, ?_⟩⟩
  · rw [h.rest_eq, List.append_assoc]
  · rw [h.offset_eq, utf8Length_append, Nat.add_assoc]

/-- The variable in front of an assignment stands where the assignment begins. -/
theorem stands_targetElement {c v : Cursor} {target : String}
    (h : assignment? c = some (target, v)) : (targetElement c target).StandsBetween c v := by
  obtain ⟨gap, hall⟩ := passes_assignment? h
  obtain ⟨m, htarget, hgap⟩ := hall.split
  refine ⟨c, m, [], gap, .refl c, ⟨_, htarget, ?_, ?_⟩, hgap⟩
  · have hshown : (targetElement c target).shown = "$" ++ target := rfl
    rw [hshown, String.ofList_cons, String.ofList_toList]
    rfl
  · rw [Cursor.spanTo, htarget.offset_eq]
    rfl

/-- An element that is read in one of two passages stands in both together. -/
theorem stands_append {b c d d' f : Cursor} {e : Element} {left right : List Piece}
    (he : .element e ∈ left ++ right) (hb : ∃ taken, c.Passes taken b)
    (hleft : ∃ taken, b.Passes taken d) (hd : ∃ taken, d.Passes taken d')
    (hright : ∃ taken, d'.Passes taken f) (first : .element e ∈ left → e.StandsBetween b d)
    (more : .element e ∈ right → e.StandsBetween d' f) : e.StandsBetween c f := by
  obtain ⟨_, hb⟩ := hb
  obtain ⟨_, hleft⟩ := hleft
  obtain ⟨_, hd⟩ := hd
  obtain ⟨_, hright⟩ := hright
  rcases List.mem_append.1 he with he | he
  · exact (first he).widen ⟨_, hb⟩ ⟨_, hd.trans hright⟩
  · exact (more he).widen ⟨_, hb.trans (hleft.trans hd)⟩ ⟨[], .refl f⟩

section Reading

variable {source : List Char} {c d : Cursor} {piece : Piece} {parts : List Piece}

theorem Reading.passes (h : Reading c piece d parts) (hc : c.Of source) :
    ∃ taken, c.Passes taken d :=
  (h.laid hc).passes

/-- Each element that is read stands in what is passed. -/
theorem Reading.stands (h : Reading c piece d parts) (hc : c.Of source) {e : Element}
    (he : .element e ∈ parts) : e.StandsBetween c d := by
  induction h with
  | noStatements | noStages | noElements => cases he
  | @statements c d _ _ _ _ _ _ first _ more ihFirst ihMore =>
    obtain ⟨_, hfirst⟩ := first.passes hc
    obtain ⟨_, hgap⟩ := d.passes_skipInline
    obtain ⟨_, hgap'⟩ := d.skipInline.passes_skipSeparators
    have hd := (hc.passes hfirst).skipInline.skipSeparators
    exact stands_append he ⟨[], .refl c⟩ ⟨_, hfirst⟩ ⟨_, hgap.trans hgap'⟩ (more.passes hd)
      (ihFirst hc) (ihMore hd)
  | @assignment c v d _ _ _ _ begins value ih =>
    obtain ⟨_, hbegins⟩ := passes_assignment? begins
    have hv := hc.passes hbegins
    rcases List.mem_append.1 he with he | he
    · rcases List.mem_cons.1 he with he | he
      · obtain rfl := Piece.element.inj he
        exact (stands_targetElement begins).widen ⟨[], .refl c⟩ (value.passes hv)
      · exact (ih hv he).widen ⟨_, hbegins⟩ ⟨[], .refl d⟩
    · cases List.mem_singleton.1 he
  | @pipeline c d _ _ _ _ _ _ first more ihFirst ihMore =>
    obtain ⟨_, hfirst⟩ := first.passes hc
    have hd := hc.passes hfirst
    rcases List.mem_append.1 he with he | he
    · exact stands_append he ⟨[], .refl c⟩ ⟨_, hfirst⟩ ⟨[], .refl d⟩ (more.passes hd) (ihFirst hc)
        (ihMore hd)
    · cases List.mem_singleton.1 he
  | @stages _ _ d _ _ _ _ _ goOn first more ihFirst ihMore =>
    obtain ⟨_, hgap⟩ := passes_pipe? goOn
    obtain ⟨_, hfirst⟩ := first.passes (hc.passes hgap)
    have hd := (hc.passes hgap).passes hfirst
    exact stands_append he ⟨_, hgap⟩ ⟨_, hfirst⟩ ⟨[], .refl d⟩ (more.passes hd)
      (ihFirst (hc.passes hgap)) (ihMore hd)
  | @command c d _ _ _ _ _ first _ more ihFirst ihMore =>
    obtain ⟨_, hfirst⟩ := first.passes hc
    have hd := hc.passes hfirst
    exact stands_append he ⟨[], .refl c⟩ ⟨_, hfirst⟩ ⟨[], .refl d⟩ (more.passes hd) (ihFirst hc)
      (ihMore hd)
  | expression _ _ ih => exact ih hc he
  | @elements c d _ _ _ _ _ _ first more ihFirst ihMore =>
    obtain ⟨_, hfirst⟩ := first.passes hc.skipInline
    have hd := hc.skipInline.passes hfirst
    exact stands_append he c.passes_skipInline ⟨_, hfirst⟩ ⟨[], .refl d⟩ (more.passes hd)
      (ihFirst hc.skipInline) (ihMore hd)
  | @script c d rest after statements b parts opens inner closes assembled ih =>
    have hopen := Cursor.passes_seek_cons opens
    have hclose := Cursor.passes_seek_cons closes
    obtain ⟨_, hgap⟩ := (c.seek rest).passes_skipSeparators
    rcases List.mem_append.1 he with he | he
    · exact (ih (hc.passes hopen).skipSeparators he).widen ⟨_, hopen.trans hgap⟩ ⟨_, hclose⟩
    · obtain rfl := Piece.element.inj (List.mem_singleton.1 he)
      exact ((Reading.script opens inner closes assembled).laid hc).reaches.between
  | atom _ isRead =>
    obtain rfl := Piece.element.inj (List.mem_singleton.1 he)
    exact (Atom.stands_read isRead).1.between

/-- The statements of a piece are among its parts. -/
theorem Reading.statement_mem (h : Reading c piece d parts) {s : Statement}
    (hs : .statement s ∈ piece.nodes) : .statement s ∈ parts := by
  induction h with
  | statements _ _ _ _ ihFirst ihMore =>
    rcases List.mem_cons.1 hs with hs | hs
    · exact List.mem_append_left _ (ihFirst (List.mem_singleton.2 hs))
    · exact List.mem_append_right _ (ihMore hs)
  | assignment | pipeline =>
    obtain rfl := Node.statement.inj (List.mem_singleton.1 hs)
    exact List.mem_append_right _ (List.mem_singleton_self _)
  | _ => simp [Piece.nodes] at hs

/-- An element of an assembled block is one of its statements' elements. -/
theorem within_assembled {statements : List Statement} {text : String} {span : Span} {b : Block}
    {e : Element} (hb : b.AssembledFrom statements text span)
    (h : (Node.element e).Within (.block b)) :
    ∃ s ∈ statements, (Node.element e).Within (.statement s) := by
  obtain ⟨_, hy, hwithin⟩ := h.of_ne nofun
  obtain ⟨n, hn, rfl⟩ := List.mem_map.1 hy
  obtain ⟨_, hz, hinner⟩ := hwithin.of_ne nofun
  obtain ⟨t, ht, rfl⟩ := List.mem_map.1 hz
  rcases hb.named n hn with ⟨s, hs, hnamed⟩ | rfl
  · obtain ⟨word, wordSpan, body, span, span', kind, rfl, -, rfl⟩ :=
      NamedBlock.ofStatement?_eq_some hnamed
    refine ⟨_, hs, ?_⟩
    -- From the statement through its command and the body to the end block.
    refine .child (List.mem_singleton_self _) (.child (y := .element (.script body)) ?_
      (.child (List.mem_singleton_self _) (.child (Node.named_mem_children.2 body.endBlock_mem)
        (.child (Node.statement_mem_children.2 ht) hinner))))
    simp [Node.children]
  · exact ⟨t, (List.mem_filter.1 ht).1, hinner⟩

/-- The element is among those of the piece. -/
def Piece.Holds (piece : Piece) (e : Element) : Prop :=
  ∃ x ∈ piece.nodes, (Node.element e).Within x

/-- What a piece holds that puts another one in front of others. -/
theorem holds_cons {all first more : Piece} {x : Node} {e : Element} (h : all.Holds e)
    (hall : all.nodes = x :: more.nodes) (hfirst : first.nodes = [x]) :
    first.Holds e ∨ more.Holds e := by
  obtain ⟨y, hy, hwithin⟩ := h
  rw [hall] at hy
  rcases List.mem_cons.1 hy with rfl | hy
  · exact .inl ⟨_, hfirst ▸ List.mem_singleton_self _, hwithin⟩
  · exact .inr ⟨y, hy, hwithin⟩

theorem holds_assignment {target value : String} {span : Span} {e : Element} :
    ¬ (Piece.statement (.assignment target value span)).Holds e := by
  rintro ⟨x, hx, hwithin⟩
  obtain rfl := List.mem_singleton.1 hx
  obtain ⟨_, hy, -⟩ := hwithin.of_ne nofun
  cases hy

theorem holds_ofStages {stages : List Stage} {span : Span} {e : Element}
    (h : (Piece.statement (.ofStages stages span)).Holds e) : (Piece.stages stages).Holds e := by
  obtain ⟨x, hx, hwithin⟩ := h
  obtain rfl := List.mem_singleton.1 hx
  rcases Statement.ofStages_cases stages span with hsame | ⟨word, elements, span', hled, hsame⟩
  all_goals
    rw [hsame] at hwithin
    obtain ⟨y, hy, hinner⟩ := hwithin.of_ne nofun
  · exact ⟨y, hy, hinner⟩
  · subst hled
    exact ⟨_, List.mem_singleton_self _, .child (List.mem_cons_of_mem _ hy) hinner⟩

theorem holds_command {elements : List Element} {span : Span} {e : Element}
    (h : (Piece.stage (.command elements span)).Holds e) : (Piece.elements elements).Holds e := by
  obtain ⟨x, hx, hwithin⟩ := h
  obtain rfl := List.mem_singleton.1 hx
  exact hwithin.of_ne nofun

theorem holds_expression {element e : Element} (h : (Piece.stage (.expression element)).Holds e) :
    (Piece.element element).Holds e := by
  obtain ⟨x, hx, hwithin⟩ := h
  obtain rfl := List.mem_singleton.1 hx
  exact hwithin.of_ne nofun

theorem holds_script {statements : List Statement} {text : String} {span : Span} {block : Block}
    {e : Element} (hblock : Block.assemble statements text span = .ok block)
    (h : (Piece.element (.script block)).Holds e) :
    e = .script block ∨ (Piece.statements statements).Holds e := by
  obtain ⟨x, hx, hwithin⟩ := h
  obtain rfl := List.mem_singleton.1 hx
  rcases Node.within_iff.1 hwithin with hsame | ⟨y, hy, hinner⟩
  · exact .inl (Node.element.inj hsame)
  · obtain rfl := List.mem_singleton.1 hy
    obtain ⟨s, hs, hinner⟩ := within_assembled (Block.assemble_ok hblock) hinner
    exact .inr ⟨_, List.mem_map_of_mem hs, hinner⟩

/-- An atom holds no element but itself. -/
theorem holds_atom {read : Consumed Element c} {e : Element} (hread : Atom.read c = .ok read)
    (h : (Piece.element read.value).Holds e) : e = read.value := by
  obtain ⟨x, hx, hwithin⟩ := h
  obtain rfl := List.mem_singleton.1 hx
  rcases Node.within_iff.1 hwithin with hsame | ⟨y, hy, -⟩
  · exact Node.element.inj hsame
  · obtain ⟨b, hb, -⟩ := Node.mem_children_element hy
    exact absurd hb ((Atom.stands_read hread).2 b)

theorem Reading.mem_of_holds (h : Reading c piece d parts) {e : Element} (he : piece.Holds e) :
    .element e ∈ parts := by
  have hcons : ∀ {all first more : Piece} {x : Node} {left right : List Piece}, all.Holds e →
      all.nodes = x :: more.nodes → first.nodes = [x] → (first.Holds e → .element e ∈ left) →
      (more.Holds e → .element e ∈ right) → .element e ∈ left ++ right := by
    intro all first more x left right he hall hfirst ihFirst ihMore
    rcases holds_cons he hall hfirst with he | he
    · exact List.mem_append_left _ (ihFirst he)
    · exact List.mem_append_right _ (ihMore he)
  induction h with
  | noStatements | noStages | noElements => cases he.choose_spec.1
  | statements _ _ _ _ ihFirst ihMore | stages _ _ _ ihFirst ihMore
  | elements _ _ _ ihFirst ihMore => exact hcons he rfl rfl ihFirst ihMore
  | assignment => exact absurd he holds_assignment
  | pipeline _ _ _ ihFirst ihMore =>
    exact List.mem_append_left _ (hcons (holds_ofStages he) rfl rfl ihFirst ihMore)
  | command _ _ _ ihFirst ihMore => exact hcons (holds_command he) rfl rfl ihFirst ihMore
  | expression _ _ ih => exact ih (holds_expression he)
  | script _ _ _ assembled ih =>
    rcases holds_script assembled he with rfl | he
    · exact List.mem_append_right _ (List.mem_singleton_self _)
    · exact List.mem_append_left _ (ih he)
  | atom _ isRead =>
    obtain rfl := holds_atom isRead he
    exact List.mem_singleton_self _

/-- All elements of what is read are among its parts. -/
theorem Reading.element_mem (h : Reading c piece d parts) {x : Node} (hx : x ∈ piece.nodes)
    {e : Element} (he : (Node.element e).Within x) : .element e ∈ parts :=
  h.mem_of_holds ⟨x, hx, he⟩

end Reading

/-! ## What the pieces carry -/

namespace Node

variable {parts : List Piece} {e : Element}

theorem Carries.of_element {e' : Element} (h : (Node.element e').Carries parts e) :
    e = e' ∨ ∃ b, e' = .script b ∧ (block b).Carries parts e := by
  cases h with
  | element => exact .inl rfl
  | child isChild carries =>
    obtain ⟨b, rfl, rfl⟩ := mem_children_element isChild
    exact .inr ⟨b, rfl, carries⟩

theorem Carries.of_command {elements : List Element} {span : Span}
    (h : (stage (.command elements span)).Carries parts e) :
    ∃ e' ∈ elements, (Node.element e').Carries parts e := by
  cases h with
  | child isChild carries =>
    obtain ⟨e', he', rfl⟩ := List.mem_map.1 isChild
    exact ⟨e', he', carries⟩

theorem Carries.of_pipeline {stages : List Stage} {span : Span}
    (h : (statement (.pipeline stages span)).Carries parts e) :
    ∃ s ∈ stages, (stage s).Carries parts e := by
  cases h with
  | child isChild carries =>
    obtain ⟨s, hs, rfl⟩ := List.mem_map.1 isChild
    exact ⟨s, hs, carries⟩

theorem Carries.of_block {b : Block} (h : (block b).Carries parts e) :
    ∃ n ∈ b.namedBlocks, (named n).Carries parts e := by
  cases h with
  | child isChild carries =>
    obtain ⟨n, hn, rfl⟩ := List.mem_map.1 isChild
    exact ⟨n, hn, carries⟩

/-- The word that leads a command begins where the command does. -/
theorem Exact.word_span {source : List Char} {word : String} {wordSpan span : Span}
    {elements : List Element}
    (h : (stage (.command (.bareword word wordSpan :: elements) span)).Exact source) :
    wordSpan = ⟨span.start, span.start + utf8Length word.toList⟩ := by
  have hword := h.child (y := element (.bareword word wordSpan)) (by simp [children])
  have hstop := Span.Covers.stop_eq hword.faithful.extent
  have hstart : wordSpan.start = span.start := Option.some.inj h.faithful.extent.1
  obtain ⟨start, stop⟩ := wordSpan
  rw [← hstart]
  exact congrArg (Span.mk start) hstop

/-- What a stage carries is carried by the statement that the stages make. -/
theorem carries_ofStages {source : List Char} {c d f : Cursor} {first : Stage}
    {stages : List Stage} {x : Node} (hfirst : Laid source c (.stage first) d)
    (hx : x ∈ (first :: stages).map stage) (h : x.Carries parts e) :
    (statement (.ofStages (first :: stages) (c.spanTo f))).Carries parts e := by
  rcases Statement.ofStages_cases (first :: stages) (c.spanTo f) with
    hsame | ⟨word, elements, span, hstages, hsame⟩
  · rw [hsame]
    exact .child hx h
  · obtain ⟨rfl, rfl⟩ := List.cons.inj hstages
    obtain rfl := List.mem_singleton.1 hx
    obtain ⟨hspan, text, wordSpan, rest, hled⟩ := hfirst.reaches
    obtain ⟨rfl, rfl⟩ := List.cons.inj hled
    rw [hsame]
    obtain ⟨e', he', hcarries⟩ := h.of_command
    rcases List.mem_cons.1 he' with rfl | he'
    · have hword := (hfirst.exact _ (List.mem_singleton_self _)).word_span
      obtain rfl : span = c.spanTo d := hspan
      rcases hcarries.of_element with rfl | ⟨b, hb, -⟩
      · rw [hword]
        exact .keyword
      · cases hb
    · exact .child (List.mem_map_of_mem he') hcarries

/-- The text of the value of an assignment carries what was read of it. -/
theorem carries_value {c v d : Cursor} {target : String}
    (h : e.StandsBetween v d) :
    (statement (.assignment target (v.textTo d) (c.spanTo d))).Carries parts e := by
  obtain ⟨a, b, before, after, hbefore, ⟨taken, htaken, hshown, hspan⟩, hafter⟩ := h
  have hall := (hbefore.trans htaken).trans hafter
  have hlength := hall.offset_eq
  rw [hall.textTo_eq]
  have hplace : d.offset - utf8Length (before ++ taken ++ after) = v.offset := by omega
  have hstands : (Span.mk (utf8Length before) (utf8Length (before ++ taken))).Covers
      (before ++ taken ++ after) taken := ⟨before, after, rfl, rfl, rfl⟩
  refine .value (by rwa [hshown, String.toList_ofList, String.toList_ofList]) ?_
  rw [String.toList_ofList, Cursor.spanTo, hplace, hspan, Cursor.spanTo, htaken.offset_eq,
    hbefore.offset_eq, Span.shift, utf8Length_append]
  simp only [Span.mk.injEq]
  omega

/-- What a statement of an assembled block carries is carried by the block, unless the statement
makes a named block and its body has a begin or process block of its own. -/
theorem carries_assembled {statements : List Statement} {text : String} {span : Span} {b : Block}
    {s : Statement} (hb : b.AssembledFrom statements text span) (hs : s ∈ statements)
    (hread : .statement s ∈ parts) (h : (statement s).Carries parts e) :
    (block b).Carries parts e ∨ Swallowed parts e := by
  rcases hb.placed s hs with ⟨n, hn, hnamed⟩ | ⟨-, hplain⟩
  · obtain ⟨word, wordSpan, body, span, span', kind, rfl, -, -⟩ :=
      NamedBlock.ofStatement?_eq_some hnamed
    have heads : Heads parts n (.bareword word wordSpan) body := ⟨span, span', hread, hnamed⟩
    have hblock : (named n).Carries parts e → (block b).Carries parts e :=
      .child (named_mem_children.2 hn)
    obtain ⟨x, hx, hstage⟩ := h.of_pipeline
    obtain rfl := List.mem_singleton.1 hx
    obtain ⟨e', he', helement⟩ := hstage.of_command
    simp only [List.mem_cons, List.not_mem_nil, or_false] at he'
    rcases he' with rfl | rfl
    · obtain rfl | ⟨_, hscript, -⟩ := helement.of_element
      · exact .inl (hblock (.word heads))
      · cases hscript
    · obtain rfl | ⟨_, hscript, hbody⟩ := helement.of_element
      · exact .inl (hblock (.braces heads))
      obtain rfl := Element.script.inj hscript
      obtain ⟨m, hm, hinner⟩ := hbody.of_block
      simp only [Block.namedBlocks, List.mem_append, Option.mem_toList, List.mem_singleton] at hm
      rcases hm with hm | rfl
      · exact .inr ⟨n, _, body, m, heads, hm, hinner⟩
      · exact .inl (hblock (.endBlock heads hinner))
  · exact .inl (.child (named_mem_children.2 b.endBlock_mem)
      (.child (statement_mem_children.2 hplain) h))

end Node

/-! ## Readings -/

/-- The element is carried by one of the nodes, or is swallowed. -/
def Kept (parts : List Piece) (nodes : List Node) (e : Element) : Prop :=
  (∃ x ∈ nodes, x.Carries parts e) ∨ Swallowed parts e

section Kept

variable {source : List Char} {c d : Cursor} {piece : Piece} {parts all left right : List Piece}
  {e : Element} {x y : Node} {nodes : List Node}

/-- What some nodes carry is carried by a node that carries what each of them does. -/
theorem Kept.gather (h : Kept all nodes e)
    (hy : ∀ x ∈ nodes, x.Carries all e → y.Carries all e) : Kept all [y] e :=
  h.imp_left fun ⟨x, hx, hcarries⟩ => ⟨y, List.mem_singleton_self y, hy x hx hcarries⟩

theorem Kept.of_children (h : Kept all nodes e) (hy : y.children = nodes) : Kept all [y] e := by
  subst hy
  exact h.gather fun _ => .child

theorem kept_cons (he : .element e ∈ left ++ right)
    (first : .element e ∈ left → Kept all [x] e) (more : .element e ∈ right → Kept all nodes e) :
    Kept all (x :: nodes) e := by
  rcases List.mem_append.1 he with he | he
  · refine (first he).imp_left fun ⟨y, hy, hcarries⟩ => ⟨y, ?_, hcarries⟩
    exact List.mem_cons.2 (.inl (List.mem_singleton.1 hy))
  · exact (more he).imp_left fun ⟨y, hy, hcarries⟩ => ⟨y, List.mem_cons_of_mem x hy, hcarries⟩

/-- Each element that is read is kept by the nodes that are read with it. -/
theorem Reading.keeps (h : Reading c piece d parts) (hc : c.Of source) (hall : parts ⊆ all)
    (he : .element e ∈ parts) : Kept all piece.nodes e := by
  induction h with
  | noStatements | noStages | noElements => cases he
  | statements _ first _ _ ihFirst ihMore =>
    obtain ⟨hleft, hright⟩ := List.append_subset.1 hall
    obtain ⟨_, hfirst⟩ := first.passes hc
    exact kept_cons he (ihFirst hc hleft)
      (ihMore (hc.passes hfirst).skipInline.skipSeparators hright)
  | assignment begins value ih =>
    have hv := hc.passes (passes_assignment? begins).choose_spec
    refine .inl ⟨_, List.mem_singleton_self _, ?_⟩
    rcases List.mem_append.1 he with he | he
    · rcases List.mem_cons.1 he with he | he
      · obtain rfl := Piece.element.inj he
        exact .target
      · exact Node.carries_value (value.stands hv he)
    · cases List.mem_singleton.1 he
  | pipeline _ first _ ihFirst ihMore =>
    obtain ⟨hboth, -⟩ := List.append_subset.1 hall
    obtain ⟨hleft, hright⟩ := List.append_subset.1 hboth
    obtain ⟨_, hfirst⟩ := first.passes hc
    rcases List.mem_append.1 he with he | he
    · refine (kept_cons he (ihFirst hc hleft) (ihMore (hc.passes hfirst) hright)).gather ?_
      exact fun x hx hcarries => Node.carries_ofStages (first.laid hc) hx hcarries
    · cases List.mem_singleton.1 he
  | stages goOn first _ ihFirst ihMore =>
    obtain ⟨hleft, hright⟩ := List.append_subset.1 hall
    have hd := hc.passes (passes_pipe? goOn).choose_spec
    obtain ⟨_, hfirst⟩ := first.passes hd
    exact kept_cons he (ihFirst hd hleft) (ihMore (hd.passes hfirst) hright)
  | command first _ _ ihFirst ihMore =>
    obtain ⟨hleft, hright⟩ := List.append_subset.1 hall
    obtain ⟨_, hfirst⟩ := first.passes hc
    have hboth := kept_cons he (ihFirst hc hleft) (ihMore (hc.passes hfirst) hright)
    exact hboth.of_children rfl
  | expression _ _ ih => exact (ih hc hall he).of_children rfl
  | elements _ first _ ihFirst ihMore =>
    obtain ⟨hleft, hright⟩ := List.append_subset.1 hall
    obtain ⟨_, hfirst⟩ := first.passes hc.skipInline
    exact kept_cons he (ihFirst hc.skipInline hleft)
      (ihMore (hc.skipInline.passes hfirst) hright)
  | script opens inner _ assembled ih =>
    obtain ⟨hinner, -⟩ := List.append_subset.1 hall
    have hd := (hc.passes (Cursor.passes_seek_cons opens)).skipSeparators
    rcases List.mem_append.1 he with he | he
    · rcases ih hd hinner he with ⟨x, hx, hcarries⟩ | hswallowed
      · obtain ⟨s, hs, rfl⟩ := List.mem_map.1 hx
        refine (Node.carries_assembled (Block.assemble_ok assembled) hs
          (hinner (inner.statement_mem hx)) hcarries).imp_left fun hblock => ?_
        exact ⟨_, List.mem_singleton_self _, .child (List.mem_singleton_self _) hblock⟩
      · exact .inr hswallowed
    · obtain rfl := Piece.element.inj (List.mem_singleton.1 he)
      exact .inl ⟨_, List.mem_singleton_self _, .element _⟩
  | atom =>
    obtain rfl := Piece.element.inj (List.mem_singleton.1 he)
    exact .inl ⟨_, List.mem_singleton_self _, .element _⟩

end Kept

/-- What is produced for a source that has a tree is what the tree is made of. -/
theorem Produced.assembled {source : String} {block : Block} {parts : List Piece}
    (hparts : Produced source parts) (h : parse source = .ok block) :
    ∃ statements d,
      Reading (Cursor.start source).skipSeparators (.statements statements) d parts ∧
      Block.assemble statements ((Cursor.start source).textTo d)
        ((Cursor.start source).spanTo d) = .ok block := by
  obtain ⟨statements, d, -, reading⟩ := hparts
  obtain ⟨statements', d', _, -, reading', assembled⟩ := parse_eq_ok_iff.1 h
  obtain ⟨_, hread⟩ := reading.isRead
  obtain ⟨_, hread'⟩ := reading'.isRead
  obtain ⟨rfl, rfl, -⟩ := Reached.mk.inj (Except.ok.inj (hread.symm.trans hread'))
  exact ⟨statements, d, reading, assembled⟩

/-- Each element that is read in a source is found in its tree, with its text and span, unless it
stands in a begin or process block directly inside a begin, process or end block. -/
theorem parse_keeps {source : String} {block : Block} {parts : List Piece}
    (h : parse source = .ok block) (hparts : Produced source parts) {e : Element}
    (he : .element e ∈ parts) : (Node.block block).Carries parts e ∨ Swallowed parts e := by
  obtain ⟨statements, d, reading, assembled⟩ := hparts.assembled h
  have hstart : (Cursor.start source).Of source.toList := ⟨[], .refl _⟩
  rcases reading.keeps hstart.skipSeparators (List.Subset.refl parts) he with
    ⟨x, hx, hcarries⟩ | hswallowed
  · obtain ⟨s, hs, rfl⟩ := List.mem_map.1 hx
    exact Node.carries_assembled (Block.assemble_ok assembled) hs (reading.statement_mem hx) hcarries
  · exact .inr hswallowed

/-! ## A script that loses a word -/

/-- A word that introduces no named block is carried by a piece only if there is an element or a
statement in it. -/
theorem Node.Carries.exists_within {parts : List Piece} {x : Node} {word : String} {span : Span}
    (h : x.Carries parts (.bareword word span)) (hword : BlockKind.ofWord? word = none) :
    ∃ y : Node, y.Within x ∧ ((∃ e, y = .element e) ∨ ∃ s, y = .statement s) := by
  generalize he : Element.bareword word span = e at h
  induction h with
  | element e => exact ⟨_, .refl _, .inl ⟨e, rfl⟩⟩
  | keyword | target | value => exact ⟨_, .refl _, .inr ⟨_, rfl⟩⟩
  | word heads =>
    obtain ⟨_, _, -, hnamed⟩ := heads
    obtain ⟨word', _, _, _, _, kind, hs, hkind, -⟩ := NamedBlock.ofStatement?_eq_some hnamed
    simp only [Statement.pipeline.injEq, List.cons.injEq, Stage.command.injEq, ← he,
      Element.bareword.injEq] at hs
    rw [← hs.1.1.1.1.1, hword] at hkind
    cases hkind
  | braces => cases he
  | @endBlock n _ _ body heads _ ih =>
    obtain ⟨y, hwithin, hy⟩ := ih he
    refine ⟨y, ?_, hy⟩
    obtain ⟨_, _, -, hnamed⟩ := heads
    obtain ⟨_, _, body', _, _, _, hs, -, rfl⟩ := NamedBlock.ofStatement?_eq_some hnamed
    simp only [Statement.pipeline.injEq, List.cons.injEq, Stage.command.injEq,
      Element.script.injEq] at hs
    obtain rfl : body = body' := hs.1.1.1.2.1
    obtain ⟨z, hz, hwithin⟩ := hwithin.of_ne (by rcases hy with ⟨_, rfl⟩ | ⟨_, rfl⟩ <;> nofun)
    exact .child hz hwithin
  | child isChild _ ih =>
    obtain ⟨y, hwithin, hy⟩ := ih he
    exact ⟨y, .child isChild hwithin, hy⟩

/-- A process block directly inside a begin block. -/
def swallowing : String :=
  "begin \x7b process \x7b Foo \x7d \x7d"

/-- A single statement in front of the end of its block or of the source. -/
private theorem readsInside_lone {text separator after : List Char} {P : Statement → Prop}
    (hopens : Opens text) (hseparates : Separates separator after)
    (hafter : after = [] ∨ after.head? = some '}')
    (h : Reads text (separator ++ after) .statement P) :
    ReadsInside (text ++ separator) after fun ss => ∃ s, ss = [s] ∧ P s := by
  intro c gap hgap hc
  obtain ⟨_, d, parts, hread, hd, s, _, rfl, hP, rfl⟩ :=
    readsInside_cons (Q := (· = [])) hopens hseparates h (readsInside_nil hafter) c gap hgap
      (by rw [hc, List.append_nil])
  exact ⟨_, d, parts, hread, hd, s, rfl, hP⟩

/-- A statement that consists of a word and a body. -/
private def IsWordBlock (word : String) (Q : Block → Prop) (s : Statement) : Prop :=
  ∃ a b span span', s = .pipeline [.command [.bareword word a, .script b] span] span' ∧ Q b

private theorem reads_wordBlock {word inner after : List Char} {P : List Statement → Prop}
    {Q : Block → Prop} (hword : IsWord word) (hafter : EndsStatement after)
    (hflow : hasName flowWords (String.ofList word) = false)
    (hinner : ReadsInside inner ('}' :: after) P)
    (hassemble : ∀ ss text span, P ss → ∃ b, Block.assemble ss text span = .ok b ∧ Q b) :
    Reads (word ++ ' ' :: ('{' :: inner ++ ['}'])) after .statement
      (IsWordBlock (String.ofList word) Q) := by
  intro c hc
  obtain ⟨_, d, parts, hread, hd, a, _, span, span', rfl, b, rfl, hb⟩ :=
    reads_command hword (by rintro _ ⟨⟩; decide) hflow hafter (reads_body hafter hinner hassemble)
      c hc
  exact ⟨_, d, parts, hread, hd, a, b, span, span', rfl, hb⟩

/-- The statement is the word `Foo`. -/
private def IsFoo (s : Statement) : Prop :=
  ∃ a span span', s = .pipeline [.command [.bareword "Foo" a] span] span'

private theorem isWord_foo : IsWord "Foo".toList :=
  isWord_cons (by decide) (by decide) (by decide) (by decide) (by decide)

private theorem isWord_process : IsWord "process".toList :=
  isWord_cons (by decide) (by decide) (by decide) (by decide) (by decide)

private theorem isWord_begin : IsWord "begin".toList :=
  isWord_cons (by decide) (by decide) (by decide) (by decide) (by decide)

private theorem isSpacing_space : ∀ x ∈ [' '], isSpacing x = true :=
  List.forall_mem_singleton.2 rfl

private theorem reads_foo (after : List Char) :
    Reads "Foo".toList ([' '] ++ '}' :: after) .statement IsFoo := by
  have hends := (separates_space after).endsStatement
  intro c hc
  obtain ⟨_, d, parts, hread, hd, a, _, span, span', rfl, rfl⟩ :=
    reads_command isWord_foo (by rintro _ ⟨⟩; decide) (by decide) hends (reads_noElements hends) c
      (by rw [hc, List.append_nil])
  exact ⟨_, d, parts, hread, hd, a, span, span', by rw [String.ofList_toList]⟩

private theorem reads_process (after : List Char) :
    Reads ("process".toList ++ ' ' :: ('{' :: ([' '] ++ ("Foo".toList ++ [' '])) ++ ['}']))
      ([' '] ++ '}' :: after) .statement
      (IsWordBlock "process" fun b => ∃ s ∈ b.statements, IsFoo s) := by
  have hinner := (readsInside_lone isWord_foo.opens (separates_space _) (.inr rfl)
    (reads_foo ([' '] ++ '}' :: after))).spaced isSpacing_space
  rw [← String.ofList_toList (s := "process")]
  refine reads_wordBlock isWord_process (separates_space after).endsStatement (by decide) hinner ?_
  rintro _ text span ⟨s, rfl, hs⟩
  have hplain : NamedBlock.ofStatement? s = none := by
    obtain ⟨_, _, _, rfl⟩ := hs
    rfl
  exact ⟨_, assemble_plain text span (List.forall_mem_singleton.2 hplain), s,
    List.mem_singleton_self s, hs⟩

/-- The statement is a begin block whose only statement is a process block, with the word in it. -/
private def IsSwallowing : Statement → Prop :=
  IsWordBlock "begin" fun body => body.statements = [] ∧
    ∃ n s, body.process? = some n ∧ s ∈ n.statements ∧ IsFoo s

private theorem readsInside_swallowing :
    ReadsInside swallowing.toList [] fun ss => ∃ s, ss = [s] ∧ IsSwallowing s := by
  have hseparates : Separates [] [] :=
    ⟨[], nofun, fun c hc => by
      rw [Cursor.skipInline_solid (by rw [hc]; exact nofun)]
      exact ⟨hc, by simp [Cursor.atStatementEnd, hc]⟩⟩
  have hinner := (readsInside_lone (isWord_process.opens.append _) (separates_space _) (.inr rfl)
    (reads_process [])).spaced isSpacing_space
  have hbegin := reads_wordBlock (Q := fun body => body.statements = [] ∧
      ∃ n s, body.process? = some n ∧ s ∈ n.statements ∧ IsFoo s)
    isWord_begin hseparates.endsStatement (by decide) hinner ?_
  · have hall := readsInside_lone (isWord_begin.opens.append _) hseparates (.inl rfl) hbegin
    rw [String.ofList_toList] at hall
    exact hall
  · rintro _ text span ⟨_, rfl, a, body, span', span'', rfl, s, hs, hfoo⟩
    exact ⟨_, rfl, rfl, _, s, rfl, hs, hfoo⟩

/-- A begin block alone, whose body has no statements of its own, makes an empty tree. -/
private theorem not_within_begin {a span span' whole : Span} {body : Block} {text : String}
    (hbody : body.statements = []) : ∃ block,
      Block.assemble [.pipeline [.command [.bareword "begin" a, .script body] span] span'] text
          whole = .ok block ∧
        ∀ y, Node.Within y (.block block) →
          (∀ e, y ≠ .element e) ∧ ∀ s, y ≠ .statement s := by
  refine ⟨.mk (some (.mk .begin false body.statements span)) none (.mk .finish true [] whole) text
    whole, rfl, fun y hy => ?_⟩
  rw [hbody] at hy
  rcases Node.within_iff.1 hy with rfl | ⟨z, hz, hy⟩
  · exact ⟨nofun, nofun⟩
  obtain ⟨n, hn, rfl⟩ := List.mem_map.1 hz
  rcases Node.within_iff.1 hy with rfl | ⟨z, hz, hy⟩
  · exact ⟨nofun, nofun⟩
  have hnone : ∀ n ∈ (Block.mk (some (.mk .begin false [] span)) none (.mk .finish true [] whole) text
      whole).namedBlocks, n.statements = [] := by
    simp [Block.namedBlocks, Block.begin?, Block.process?, Block.endBlock, NamedBlock.statements]
  rw [Node.children, hnone n hn] at hz
  cases hz

/-- The word in the process block is read, and there is nothing in the tree. -/
private theorem parse_swallowing : ∃ block parts span, parse swallowing = .ok block ∧
    Produced swallowing parts ∧ .element (.bareword "Foo" span) ∈ parts ∧
      ∀ y, Node.Within y (.block block) → (∀ e, y ≠ .element e) ∧ ∀ s, y ≠ .statement s := by
  obtain ⟨_, d, parts, hread, hd, s, rfl, a, body, span, span', rfl, hbody, n, foo, hn, hfoo,
    b, fooSpan, fooSpan', rfl⟩ :=
    readsInside_swallowing (Cursor.start swallowing) [] nofun (by simp [Cursor.start])
  obtain ⟨block, hassemble, hempty⟩ := not_within_begin hbody
  refine ⟨block, parts, b, parse_eq_ok_iff.2 ⟨_, d, parts, hd, hread, hassemble⟩,
    ⟨_, d, hd, hread⟩, hread.element_mem (List.mem_singleton_self _) ?_, hempty⟩
  have hnamed : n ∈ body.namedBlocks := by simp [Block.namedBlocks, hn]
  -- The way down from the statement to the word.
  refine .child (List.mem_singleton_self _) (.child (y := .element (.script body)) ?_
    (.child (List.mem_singleton_self _) (.child (Node.named_mem_children.2 hnamed)
      (.child (Node.statement_mem_children.2 hfoo) (.child (List.mem_singleton_self _)
        (.child (List.mem_singleton_self _) (.refl _)))))))
  simp [Node.children]

/-- A word in a process block directly inside a begin block is read, and not found in the tree. -/
theorem parse_loses_word : ∃ block parts e, parse swallowing = .ok block ∧
    Produced swallowing parts ∧ .element e ∈ parts ∧ ¬ (Node.block block).Carries parts e := by
  obtain ⟨block, parts, span, hparse, hparts, he, hempty⟩ := parse_swallowing
  refine ⟨block, parts, _, hparse, hparts, he, fun hcarries => ?_⟩
  obtain ⟨y, hwithin, ⟨e, rfl⟩ | ⟨s, rfl⟩⟩ := hcarries.exists_within (by decide)
  · exact (hempty _ hwithin).1 e rfl
  · exact (hempty _ hwithin).2 s rfl

/-- The word is one of those that are swallowed. -/
theorem parse_keeps_sample : ∃ block parts e, parse swallowing = .ok block ∧
    Produced swallowing parts ∧ .element e ∈ parts ∧
      ((Node.block block).Carries parts e ∨ Swallowed parts e) := by
  obtain ⟨block, parts, span, hparse, hparts, he, -⟩ := parse_swallowing
  exact ⟨block, parts, _, hparse, hparts, he, parse_keeps hparse hparts he⟩

end Script
end KeywordScope
