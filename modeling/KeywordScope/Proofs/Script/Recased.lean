import KeywordScope.Proofs.Script.Folded
import KeywordScope.Proofs.Script.Follow

/-!
# Texts in other cases

Two sources that differ in the case of letters only have trees of one shape.

* `Likeness.recased`: pieces stand at the same places, and are spelled the same up to case.
* `follows_recased`: the readers find the same in sources that are the same in small letters.
* `parse_recased`: so one has a tree if the other one has one, and the trees are alike.
-/

namespace KeywordScope
namespace Script

/-- Pieces stand at the same places, and are spelled the same up to case. The values of strings may
differ in more: a backtick in front of a small `n` stands for a new line. -/
def Likeness.recased : Likeness where
  span span span' := span' = span
  text text text' := sameName text text' = true
  value _ _ := True
  raw _ text text' := sameName text text' = true
  assigned text text' := sameName text text' = true
  sameName_of_text h := h

/-! ## Places -/

theorem exists_of_map_eq {α β γ : Type} {a? : Option α} {b? : Option β} {f : α → γ} {g : β → γ}
    (h : a?.map f = b?.map g) {a : α} (ha : a? = some a) : ∃ b, b? = some b ∧ f a = g b := by
  rw [ha, Option.map_some] at h
  obtain ⟨b, hb, heq⟩ := Option.map_eq_some_iff.1 h.symm
  exact ⟨b, hb, heq.symm⟩

theorem none_of_map_eq {α β γ : Type} {a? : Option α} {b? : Option β} {f : α → γ} {g : β → γ}
    (h : a?.map f = b?.map g) (ha : a? = none) : b? = none := by
  rw [ha, Option.map_none] at h
  exact Option.map_eq_none_iff.1 h.symm

/-- The same place in texts that differ in the case of letters only. -/
def Cursor.Recased (c c' : Cursor) : Prop :=
  c.folded = c'.folded

namespace Cursor.Recased

variable {c c' d d' : Cursor}

theorem offset_eq (h : c.Recased c') : c'.offset = c.offset :=
  (congrArg Cursor.offset h).symm

theorem map_rest (h : c.Recased c') : c.rest.map Char.toLower = c'.rest.map Char.toLower :=
  congrArg Cursor.rest h

/-- What takes the same part of a text in small letters leads to the same place. -/
theorem move {go : Cursor → Cursor} (hgo : ∀ c : Cursor, go c.folded = (go c).folded)
    (h : c.Recased c') : (go c).Recased (go c') := by
  unfold Recased at *
  rw [← hgo, ← hgo, h]

theorem seek {rest rest' : List Char} (h : c.Recased c')
    (hrest : rest.map Char.toLower = rest'.map Char.toLower) :
    (c.seek rest).Recased (c'.seek rest') := by
  unfold Recased at *
  rw [← seek_folded, ← seek_folded, h, hrest]

theorem spanTo_eq (h : c.Recased c') (h' : d.Recased d') : c'.spanTo d' = c.spanTo d := by
  rw [spanTo, spanTo, h.offset_eq, h'.offset_eq]

theorem sameName_textTo (h : c.Recased c') (h' : d.Recased d') :
    sameName (c.textTo d) (c'.textTo d') = true := by
  unfold Recased at *
  rw [sameName_iff, foldCase_textTo, foldCase_textTo, h, h']

theorem head?_iff (h : c.Recased c') {x : Char} (hx : x.isAlpha = false) :
    c'.rest.head? = some x ↔ c.rest.head? = some x := by
  rw [← head?_folded (c := c) hx, ← head?_folded hx, folded_rest, folded_rest, h.map_rest]

theorem rest_eq_nil_iff (h : c.Recased c') : c'.rest = [] ↔ c.rest = [] := by
  have hlength := congrArg List.length h.map_rest
  rw [List.length_map, List.length_map] at hlength
  rw [← List.length_eq_zero_iff, ← List.length_eq_zero_iff, hlength]

theorem atStatementEnd_eq (h : c.Recased c') : c'.atStatementEnd = c.atStatementEnd := by
  rw [← atStatementEnd_folded c, ← atStatementEnd_folded, h]

theorem atStageEnd_eq (h : c.Recased c') : c'.atStageEnd = c.atStageEnd := by
  rw [← atStageEnd_folded c, ← atStageEnd_folded, h]

theorem pipe?_eq (h : c.Recased c') : (pipe? c).map folded = (pipe? c').map folded := by
  rw [← pipe?_folded, ← pipe?_folded, h]

theorem assignment?_eq (h : c.Recased c') :
    (assignment? c).map (fun found => (foldCase found.1, found.2.folded)) =
      (assignment? c').map fun found => (foldCase found.1, found.2.folded) := by
  rw [← assignment?_folded, ← assignment?_folded, h]

/-- What is taken of the texts is spelled the same up to case, and the same follows it. -/
theorem split_eq {split? : List Char → Option (List Char × List Char)}
    (hsplit : ∀ cs, split? (cs.map Char.toLower) = (split? cs).map Atom.foldedSplit)
    (h : c.Recased c') :
    (split? c.rest).map Atom.foldedSplit = (split? c'.rest).map Atom.foldedSplit := by
  rw [← hsplit, ← hsplit, h.map_rest]

theorem string_eq (h : c.Recased c') :
    (Quoted.read? c.rest).map (fun read => read.2.map Char.toLower) =
      (Quoted.read? c'.rest).map fun read => read.2.map Char.toLower := by
  rw [← Quoted.snd_read?_folded, ← Quoted.snd_read?_folded, h.map_rest]

theorem group_eq (h : c.Recased c') :
    (Group.read? c).map (fun read => (read.1, read.2.toOption.map folded)) =
      (Group.read? c').map fun read => (read.1, read.2.toOption.map folded) := by
  rw [← Group.read?_folded, ← Group.read?_folded, h]

end Cursor.Recased

/-! ## Atoms -/

namespace Atom

variable {c c' : Cursor}

/-- What is taken of the texts is alike. -/
theorem recased_consume (h : c.Recased c') {rest rest' : List Char}
    (hrest : rest.map Char.toLower = rest'.map Char.toLower) (shorter : rest.length < c.rest.length)
    (shorter' : rest'.length < c'.rest.length) {element element' : String → Span → Element}
    (helement : ∀ {text text' : String} (span : Span), sameName text text' = true →
      (element text span).Like .recased (element' text' span)) :
    (consume c rest shorter element).next.Recased (consume c' rest' shorter' element').next ∧
      (consume c rest shorter element).value.Like .recased
        (consume c' rest' shorter' element').value := by
  have hnext := h.seek hrest
  refine ⟨hnext, ?_⟩
  show (element (c.textTo (c.seek rest)) (c.spanTo (c.seek rest))).Like _
    (element' (c'.textTo (c'.seek rest')) (c'.spanTo (c'.seek rest')))
  rw [h.spanTo_eq hnext]
  exact helement _ (h.sameName_textTo hnext)

/-- Where an atom stands in the one text, one of the same kind stands in the other. -/
theorem read_recased (h : c.Recased c') {read : Consumed Element c} (hread : Atom.read c = .ok read) :
    ∃ read', Atom.read c' = .ok read' ∧ read.next.Recased read'.next ∧
      read.value.Like .recased read'.value := by
  have hquote : (c'.rest.head? = some '\x22' ∨ c'.rest.head? = some '\x27') ↔
      (c.rest.head? = some '\x22' ∨ c.rest.head? = some '\x27') := by
    rw [h.head?_iff (by decide), h.head?_iff (by decide)]
  have hdollar : c'.rest.head? ≠ some '$' ↔ c.rest.head? ≠ some '$' :=
    not_congr (h.head?_iff (by decide))
  cases lexeme_of_read hread with
  | quoted isQuote isRead =>
    obtain ⟨⟨value', rest'⟩, isRead', hrest⟩ := exists_of_map_eq h.string_eq isRead
    exact ⟨_, (Lexeme.quoted (hquote.2 isQuote) isRead').read_eq,
      recased_consume h hrest _ _ fun _ htext => .quoted trivial htext rfl⟩
  | @group isTable d noQuote isRead =>
    obtain ⟨⟨isTable', d'?⟩, isRead', heq⟩ := exists_of_map_eq h.group_eq isRead
    obtain ⟨rfl, hend⟩ := Prod.mk.inj heq
    rcases d'? with _ | d'
    · cases hend
    have hd : d.Recased d' := Option.some.inj hend
    refine ⟨_, (Lexeme.group (mt hquote.1 noQuote) isRead').read_eq,
      recased_consume h hd.map_rest _ _ fun _ htext => ?_⟩
    cases isTable with
    | true => exact .hashtable htext rfl
    | false => exact .subExpression htext rfl
  | named noQuote noGroup isRead =>
    have noGroup' := none_of_map_eq h.group_eq noGroup
    obtain ⟨⟨name', rest'⟩, isRead', heq⟩ :=
      exists_of_map_eq (h.split_eq splitVariable?_folded) isRead
    obtain ⟨hname, hrest⟩ := Prod.mk.inj heq
    refine ⟨_, (Lexeme.named (mt hquote.1 noQuote) noGroup' isRead').read_eq,
      recased_consume h hrest _ _ fun _ htext => .variable ?_ htext rfl⟩
    exact sameName_iff.2 (by simp only [foldCase, String.toList_ofList, hname])
  | number noQuote noGroup noVariable noDollar isRead =>
    have noGroup' := none_of_map_eq h.group_eq noGroup
    have noVariable' := none_of_map_eq (h.split_eq splitVariable?_folded) noVariable
    obtain ⟨⟨digits', rest'⟩, isRead', heq⟩ :=
      exists_of_map_eq (h.split_eq splitNumber?_folded) isRead
    exact ⟨_, (Lexeme.number (mt hquote.1 noQuote) noGroup' noVariable' (hdollar.2 noDollar)
      isRead').read_eq,
      recased_consume h (Prod.mk.inj heq).2 _ _ fun _ htext => .number htext rfl⟩
  | word noQuote noGroup noVariable noDollar noNumber isRead =>
    have noGroup' := none_of_map_eq h.group_eq noGroup
    have noVariable' := none_of_map_eq (h.split_eq splitVariable?_folded) noVariable
    have noNumber' := none_of_map_eq (h.split_eq splitNumber?_folded) noNumber
    obtain ⟨⟨word', rest'⟩, isRead', heq⟩ :=
      exists_of_map_eq (h.split_eq splitWord?_folded) isRead
    exact ⟨_, (Lexeme.word (mt hquote.1 noQuote) noGroup' noVariable' (hdollar.2 noDollar)
      noNumber' isRead').read_eq,
      recased_consume h (Prod.mk.inj heq).2 _ _ fun _ htext => .bareword htext rfl⟩

end Atom

/-! ## Whole sources -/

/-- The readers find the same in texts that differ in the case of letters only. -/
theorem follows_recased : Follows .recased Cursor.Recased (Piece.IsFine True fun _ => True)
    (Cursor.GoesOn True) where
  span h h' := h.spanTo_eq h'
  raw h h' _ _ _ := h.sameName_textTo h'
  assigned h h' _ _ _ _ := h.sameName_textTo h'
  inline h := h.move Cursor.skipInline_folded
  separators h _ := h.move Cursor.skipSeparators_folded
  stop h _ := by rw [h.rest_eq_nil_iff, h.head?_iff (by decide)]
  statementEnd h := h.atStatementEnd_eq
  stageEnd h := h.atStageEnd_eq
  noValue h hnone := none_of_map_eq h.assignment?_eq hnone
  value h hfound := by
    obtain ⟨⟨target', v'⟩, hfound', heq⟩ := exists_of_map_eq h.assignment?_eq hfound
    obtain ⟨htarget, hv⟩ := Prod.mk.inj heq
    exact ⟨target', v', hfound', sameName_iff.2 htarget, hv⟩
  noPipe h hnone := none_of_map_eq h.pipe?_eq hnone
  pipe h hfound := exists_of_map_eq h.pipe?_eq hfound
  brace {c c' x rest} hbrace h hrest := by
    have hx : x.isAlpha = false := by rcases hbrace with rfl | rfl <;> decide
    have hmap := h.map_rest
    rw [hrest, List.map_cons, toLower_of_not_isAlpha hx] at hmap
    obtain ⟨rest', hrest', hsame⟩ := map_toLower_eq_cons hx hmap.symm
    exact ⟨rest', hrest', h.seek hsame.symm⟩
  noBrace h hother := mt (h.head?_iff (by decide)).1 hother
  atom h hread _ := Atom.read_recased h hread

/-- A source has a tree if one has that differs from it in the case of letters only, and the trees
are alike. -/
theorem parse_recased {source source' : String} (h : sameName source source' = true) {block : Block}
    (hblock : parse source = .ok block) :
    ∃ block', parse source' = .ok block' ∧ block.Like .recased block' := by
  have hstart : (Cursor.start source).Recased (Cursor.start source') := by
    have hlist := congrArg String.toList (sameName_iff.1 h)
    simp only [foldCase, String.toList_ofList] at hlist
    show (⟨0, _⟩ : Cursor) = ⟨0, _⟩
    rw [Cursor.start, Cursor.start, hlist]
  obtain ⟨statements, d, parts, hd, hreading, hassembled⟩ := parse_eq_ok_iff.1 hblock
  obtain ⟨d', hRd, statements', parts', hreading', hstatements⟩ :=
    hreading.follow follows_recased (fun _ _ => trivial) (.inr trivial) _
      (hstart.move Cursor.skipSeparators_folded)
  obtain ⟨block', hassembled', hlike⟩ := Block.assemble_like hstatements
    (hstart.sameName_textTo hRd) (hstart.spanTo_eq hRd) hassembled
  exact ⟨block', parse_eq_ok_iff.2
    ⟨statements', d', parts', hRd.rest_eq_nil_iff.2 hd, hreading', hassembled'⟩, hlike⟩

end Script
end KeywordScope
