import KeywordScope.Proofs.Script.Detached

/-!
# Gaps within a statement

What elements that are no words end in, and what may stand between the elements of a statement.

* `InlineGap gap`: spaces, tabs, carriage returns, and ends of lines that a backtick continues.
* `EndsElement text`: the text ends as an element does that is no word.
* `Cursor.skipInline_of_ends`: a gap in such a text ends in front of its last character.
* `Quoted.read?_none_congr`: whether a quote behind which a gap stands has a partner does not depend
  on the gap.
* `Reading.ends_of_mem`: every element that is read and is no word ends as one.
-/

namespace KeywordScope
namespace Script

/-! ## Gaps -/

/-- Spaces, tabs, carriage returns, and ends of lines that a backtick continues. -/
inductive InlineGap : List Char → Prop where
  | nil : InlineGap []
  | blank {x : Char} {gap : List Char} (isBlank : Cursor.isInlineBlank x = true)
      (more : InlineGap gap) : InlineGap (x :: gap)
  | newline {gap : List Char} (more : InlineGap gap) : InlineGap ('\x60' :: '\n' :: gap)
  | carriageReturn {gap : List Char} (more : InlineGap gap) :
      InlineGap ('\x60' :: '\r' :: '\n' :: gap)

namespace InlineGap

variable {gap : List Char}

theorem skipInline (h : InlineGap gap) (offset : Nat) (rest : List Char) :
    Cursor.skipInline ⟨offset, gap ++ rest⟩ =
      Cursor.skipInline ⟨offset + utf8Length gap, rest⟩ := by
  induction h generalizing offset with
  | nil => rfl
  | @blank x gap isBlank _ ih =>
    have hstep := Cursor.skipInline_cons ⟨offset, x :: (gap ++ rest)⟩ x _ isBlank rfl
    rw [Cursor.seek_append [x] rfl] at hstep
    have hlength : utf8Length (x :: gap) = utf8Length [x] + utf8Length gap :=
      utf8Length_append [x] gap
    rw [List.cons_append, ← hstep, hlength, ← Nat.add_assoc]
    exact ih _
  | @newline gap _ ih =>
    have hlength : utf8Length ('\x60' :: '\n' :: gap) = 2 + utf8Length gap :=
      utf8Length_append ['\x60', '\n'] gap
    rw [hlength, ← Nat.add_assoc, ← ih]
    rfl
  | @carriageReturn gap _ ih =>
    have hlength : utf8Length ('\x60' :: '\r' :: '\n' :: gap) = 3 + utf8Length gap :=
      utf8Length_append ['\x60', '\r', '\n'] gap
    rw [hlength, ← Nat.add_assoc, ← ih]
    rfl

theorem isInlineBlank_cases {x : Char} (h : Cursor.isInlineBlank x = true) :
    x = ' ' ∨ x = '\t' ∨ x = '\r' := by
  simpa only [Cursor.isInlineBlank, Bool.or_eq_true, beq_iff_eq, or_assoc] using h

/-- The characters that a gap may begin with. -/
def heads : List Char :=
  [' ', '\t', '\r', '\x60']

theorem exists_head (h : InlineGap gap) (hne : gap ≠ []) :
    ∃ x ∈ heads, ∃ more, gap = x :: more := by
  cases h with
  | nil => exact absurd rfl hne
  | blank isBlank =>
    obtain rfl | rfl | rfl := isInlineBlank_cases isBlank
    all_goals exact ⟨_, by decide, _, rfl⟩
  | newline | carriageReturn => exact ⟨_, by decide, _, rfl⟩

/-- A gap begins no lexeme but perhaps a word. -/
theorem parting (h : InlineGap gap) (hne : gap ≠ []) (rest : List Char) :
    Parting (gap ++ rest) := by
  cases h with
  | nil => exact absurd rfl hne
  | blank isBlank =>
    rintro _ ⟨⟩
    obtain rfl | rfl | rfl := isInlineBlank_cases isBlank
    all_goals exact .inl (by decide)
  | newline | carriageReturn =>
    rintro _ ⟨⟩
    exact .inr (by decide)

/-- A number may end in front of a gap. -/
theorem endsNumber (h : InlineGap gap) (hne : gap ≠ []) (rest : List Char) :
    Atom.endsNumber (gap ++ rest) = true := by
  cases h with
  | nil => exact absurd rfl hne
  | blank isBlank =>
    obtain rfl | rfl | rfl := isInlineBlank_cases isBlank
    all_goals rfl
  | newline | carriageReturn => rfl

/-- A gap is of no account for where a string ends. -/
theorem readDouble?_eq_none (h : InlineGap gap) (rest : List Char) :
    Quoted.readDouble? (gap ++ rest) = none ↔ Quoted.readDouble? rest = none := by
  induction h with
  | nil => rfl
  | @blank x gap isBlank _ ih =>
    have hplain : x ≠ '\x22' ∧ x ≠ '\x60' := by
      obtain rfl | rfl | rfl := isInlineBlank_cases isBlank
      all_goals decide
    rw [List.cons_append, Quoted.readDouble?_plain hplain.1 hplain.2, Option.map_eq_none_iff, ih]
  | @newline gap _ ih =>
    show (Quoted.readDouble? (gap ++ rest)).map _ = none ↔ _
    rw [Option.map_eq_none_iff, ih]
  | @carriageReturn gap _ ih =>
    show (Quoted.readDouble? ('\n' :: (gap ++ rest))).map _ = none ↔ _
    rw [Option.map_eq_none_iff, Quoted.readDouble?_plain (by decide) (by decide),
      Option.map_eq_none_iff, ih]

theorem readSingle?_eq_none (h : InlineGap gap) (rest : List Char) :
    Quoted.readSingle? (gap ++ rest) = none ↔ Quoted.readSingle? rest = none := by
  have hstep : ∀ {x : Char} {cs : List Char}, x ≠ '\x27' →
      (Quoted.readSingle? (x :: cs) = none ↔ Quoted.readSingle? cs = none) := by
    intro x cs hx
    rw [Quoted.readSingle?_plain hx, Option.map_eq_none_iff]
  induction h with
  | nil => rfl
  | @blank x gap isBlank _ ih =>
    have hplain : x ≠ '\x27' := by
      obtain rfl | rfl | rfl := isInlineBlank_cases isBlank
      all_goals decide
    exact (hstep hplain).trans ih
  | newline _ ih => exact (hstep (by decide)).trans ((hstep (by decide)).trans ih)
  | carriageReturn _ ih =>
    exact (hstep (by decide)).trans ((hstep (by decide)).trans ((hstep (by decide)).trans ih))

end InlineGap

/-! ## Ends of elements -/

/-- An element may end in the character that is no word: a quote, a closing delimiter, or what may
stand in a name. -/
def endsElement (x : Char) : Bool :=
  x == '\x22' || x == '\x27' || Group.isCloser x || Atom.isVariablePart x

/-- The text is empty, or ends as an element does that is no word. -/
def EndsElement (text : List Char) : Prop :=
  ∀ x ∈ text.getLast?, endsElement x = true

namespace EndsElement

variable {text rest : List Char}

theorem of_suffix (h : EndsElement text) (hrest : rest <:+ text) : EndsElement rest := by
  obtain ⟨before, rfl⟩ := hrest
  intro x hx
  refine h x ?_
  rw [List.getLast?_append_of_ne_nil]
  · exact hx
  · rintro rfl
    cases hx

theorem of_all (h : ∀ x ∈ text, endsElement x = true) : EndsElement text :=
  fun x hx => h x (List.mem_of_mem_getLast? hx)

theorem concat {x : Char} (before : List Char) (hx : endsElement x = true) :
    EndsElement (before ++ [x]) := by
  intro y hy
  rw [List.getLast?_concat] at hy
  obtain rfl := Option.some.inj hy
  exact hx

theorem append (h : EndsElement text) (hne : text ≠ []) (before : List Char) :
    EndsElement (before ++ text) := by
  intro x hx
  rw [List.getLast?_append_of_ne_nil before hne] at hx
  exact h x hx

/-- What the text ends in is not a character that ends no element. -/
theorem ne_nil {x : Char} (h : EndsElement (x :: rest)) (hx : endsElement x = false) :
    rest ≠ [] := by
  rintro rfl
  rw [h x rfl] at hx
  cases hx

theorem seam (h : EndsElement text) (after : List Char) : Seam text after := by
  have hlast : ∀ (before : List Char) {x : Char}, endsElement x = false →
      ¬ before ++ [x] <:+ text := by
    intro before x hx hsuffix
    have hends := h.of_suffix hsuffix x (by rw [List.getLast?_concat]; rfl)
    rw [hx] at hends
    cases hends
  have htick : endsElement '\x60' = false := by decide
  have hreturn : endsElement '\r' = false := by decide
  exact ⟨fun h' => hlast [] htick h'.1, fun h' => hlast [] htick h'.1,
    fun h' => hlast ['\x60'] hreturn h'.1⟩

end EndsElement

section Placed

variable {bytes : Nat} {after after' : List Char} {c d : Cursor}

namespace Cursor

private theorem skipInline_go_ne_nil (offset : Nat) (cs : List Char) (h : EndsElement cs)
    (hne : cs ≠ []) : (skipInline.go offset cs).rest ≠ [] := by
  fun_induction skipInline.go offset cs with
  | case1 offset rest ih | case2 offset rest ih | case3 offset rest ih =>
    exact ih (h.of_suffix (List.suffix_cons _ _)) (h.ne_nil (by decide))
  | case4 offset rest ih =>
    have hline := h.of_suffix (List.suffix_append ['\x60', '\r'] ('\n' :: rest))
    exact ih (hline.of_suffix (List.suffix_cons _ _)) (hline.ne_nil (by decide))
  | case5 offset rest ih =>
    have hline := h.of_suffix (List.suffix_cons '\x60' ('\n' :: rest))
    exact ih (hline.of_suffix (List.suffix_cons _ _)) (hline.ne_nil (by decide))
  | case6 => exact hne

private theorem skipSpaces_go_ne_nil (offset : Nat) (cs : List Char) (h : EndsElement cs)
    (hne : cs ≠ []) : (skipSpaces.go offset cs).rest ≠ [] := by
  fun_induction skipSpaces.go offset cs with
  | case1 offset rest ih | case2 offset rest ih | case3 offset rest ih | case4 offset rest ih =>
    exact ih (h.of_suffix (List.suffix_cons _ _)) (h.ne_nil (by decide))
  | case5 => exact hne

/-- A gap in a text does not reach the end of an element. -/
theorem skipInline_of_ends (h : EndsElement c.rest) (hne : c.rest ≠ []) :
    c.skipInline.rest ≠ [] ∧
      (c.placed bytes after).skipInline = c.skipInline.placed bytes after := by
  have hrest : c.skipInline.rest ≠ [] := skipInline_go_ne_nil c.offset c.rest h hne
  exact ⟨hrest, (skipInline_placed_or bytes (h.seam after)).resolve_right fun h' => hrest h'.1⟩

theorem skipSpaces_of_ends (h : EndsElement c.rest) (hne : c.rest ≠ []) :
    c.skipSpaces.rest ≠ [] ∧
      (c.placed bytes after).skipSpaces = c.skipSpaces.placed bytes after := by
  have hrest : c.skipSpaces.rest ≠ [] := skipSpaces_go_ne_nil c.offset c.rest h hne
  exact ⟨hrest, skipSpaces_placed_or.resolve_right fun h' => hrest h'.1⟩

end Cursor

/-! ## Strings behind a text -/

namespace Quoted

/-- Whether a string ends depends on what follows the text only in whether it would end there. -/
theorem readDouble?_none_congr {cs : List Char} (h : EndsElement cs)
    (hafter : ∀ more, after ≠ '\x22' :: more) (hafter' : ∀ more, after' ≠ '\x22' :: more)
    (hsame : readDouble? after = none ↔ readDouble? after' = none) :
    readDouble? (cs ++ after) = none ↔ readDouble? (cs ++ after') = none := by
  fun_induction readDouble? cs with
  | case1 => exact hsame
  | case2 cs ih =>
    show (readDouble? (cs ++ after)).map _ = none ↔ (readDouble? (cs ++ after')).map _ = none
    rw [Option.map_eq_none_iff, Option.map_eq_none_iff]
    exact ih (h.of_suffix (List.suffix_append ['\x22', '\x22'] cs))
  | case3 cs hcs =>
    rw [List.cons_append, List.cons_append, readDouble?_quote (append_ne_cons hcs hafter),
      readDouble?_quote (append_ne_cons hcs hafter')]
    exact iff_of_false (Option.some_ne_none _) (Option.some_ne_none _)
  | case4 x cs ih =>
    show (readDouble? (cs ++ after)).map _ = none ↔ (readDouble? (cs ++ after')).map _ = none
    rw [Option.map_eq_none_iff, Option.map_eq_none_iff]
    exact ih (h.of_suffix (List.suffix_append ['\x60', x] cs))
  | case5 => exact absurd rfl (h.ne_nil (by decide))
  | case6 x cs _ hquote hescape hlast ih =>
    have hplain : x ≠ '\x60' := by
      rintro rfl
      rcases cs with _ | ⟨y, cs⟩
      · exact hlast rfl rfl
      · exact hescape y cs rfl rfl
    rw [List.cons_append, List.cons_append, readDouble?_plain hquote hplain,
      readDouble?_plain hquote hplain, Option.map_eq_none_iff, Option.map_eq_none_iff]
    exact ih (h.of_suffix (List.suffix_cons x cs))

theorem readSingle?_none_congr {cs : List Char} (hafter : ∀ more, after ≠ '\x27' :: more)
    (hafter' : ∀ more, after' ≠ '\x27' :: more)
    (hsame : readSingle? after = none ↔ readSingle? after' = none) :
    readSingle? (cs ++ after) = none ↔ readSingle? (cs ++ after') = none := by
  fun_induction readSingle? cs with
  | case1 => exact hsame
  | case2 cs ih =>
    show (readSingle? (cs ++ after)).map _ = none ↔ (readSingle? (cs ++ after')).map _ = none
    rw [Option.map_eq_none_iff, Option.map_eq_none_iff]
    exact ih
  | case3 cs hcs =>
    rw [List.cons_append, List.cons_append, readSingle?_quote (append_ne_cons hcs hafter),
      readSingle?_quote (append_ne_cons hcs hafter')]
    exact iff_of_false (Option.some_ne_none _) (Option.some_ne_none _)
  | case4 x cs _ hquote ih =>
    rw [List.cons_append, List.cons_append, readSingle?_plain hquote, readSingle?_plain hquote,
      Option.map_eq_none_iff, Option.map_eq_none_iff]
    exact ih

theorem read?_none_congr {cs : List Char} (h : EndsElement cs) (hafter : Parting after)
    (hafter' : Parting after') (hdouble : readDouble? after = none ↔ readDouble? after' = none)
    (hsingle : readSingle? after = none ↔ readSingle? after' = none) :
    read? (cs ++ after) = none ↔ read? (cs ++ after') = none := by
  have hno : ∀ {after : List Char}, Parting after → read? after = none := by
    intro after hafter
    unfold read?
    split
    · exact absurd rfl (hafter.head_ne rfl (by decide) _)
    · exact absurd rfl (hafter.head_ne rfl (by decide) _)
    · rfl
  rcases cs with _ | ⟨x, cs⟩
  · exact ⟨fun _ => hno hafter', fun _ => hno hafter⟩
  have hends := h.of_suffix (List.suffix_cons x cs)
  rw [List.cons_append, List.cons_append]
  by_cases hx : x = '\x22'
  · subst hx
    exact readDouble?_none_congr hends (hafter.head_ne rfl (by decide))
      (hafter'.head_ne rfl (by decide)) hdouble
  by_cases hx' : x = '\x27'
  · subst hx'
    exact readSingle?_none_congr (hafter.head_ne rfl (by decide))
      (hafter'.head_ne rfl (by decide)) hsingle
  · have hother : ∀ more, read? (x :: more) = none := by
      intro more
      unfold read?
      split
      · next heq => exact absurd (List.cons.inj heq).1 hx
      · next heq => exact absurd (List.cons.inj heq).1 hx'
      · rfl
    exact ⟨fun _ => hother _, fun _ => hother _⟩

end Quoted

end Placed

/-! ## Ends of what is read -/

section Ends

variable {c d : Cursor}

theorem endsElement_of_isVariablePart {x : Char} (h : Atom.isVariablePart x = true) :
    endsElement x = true := by
  rw [endsElement, h, Bool.or_true]

theorem endsElement_of_isDigit {x : Char} (h : x.isDigit = true) : endsElement x = true := by
  have hcode : x.toNat < 0x80 := Nat.lt_of_le_of_lt (isDigit_iff.1 h).2 (by decide)
  apply endsElement_of_isVariablePart
  rw [Atom.isVariablePart, isAlphanumeric, if_pos hcode, Char.isAlphanum, h, Bool.or_true]
  rfl

theorem Quoted.ends_read? {cs value rest : List Char} (h : read? cs = some (value, rest)) :
    ∃ taken, cs = taken ++ rest ∧ EndsElement taken := by
  unfold read? at h
  split at h
  · obtain ⟨taken, rfl⟩ := readDouble?_ends h
    exact ⟨'\x22' :: taken ++ ['\x22'], by simp, .concat _ rfl⟩
  · obtain ⟨taken, rfl⟩ := readSingle?_ends h
    exact ⟨'\x27' :: taken ++ ['\x27'], by simp, .concat _ rfl⟩
  · cases h

/-- A number ends in a digit. -/
theorem Atom.ends_splitNumber? {cs taken rest : List Char}
    (h : splitNumber? cs = some (taken, rest)) : EndsElement taken := by
  have hdigits : ∀ {cs digits rest : List Char}, splitRun? Char.isDigit cs = some (digits, rest) →
      EndsElement digits :=
    fun h => .of_all fun x hx => endsElement_of_isDigit (splitRun?_all h x hx)
  unfold splitNumber? at h
  split at h
  · cases h
  next digits more hrun =>
  split at h
  · cases h
    have hends := (hdigits hrun).append (splitRun?_eq hrun).1 (splitSign cs).1
    unfold splitFraction
    split
    · split
      · next hfraction =>
        have hpoint := (hdigits hfraction).append (splitRun?_eq hfraction).1 ['.']
        exact hpoint.append (List.cons_ne_nil _ _) _
      · rwa [List.append_nil]
    · rwa [List.append_nil]
  · cases h

/-- An element shows what is passed for it. -/
theorem Element.Stands.shown_eq {e : Element} {taken : List Char} (h : e.Stands c d)
    (hpasses : c.Passes taken d) : e.shown.toList = taken := by
  obtain ⟨taken', hpasses', hshown, -⟩ := h
  rw [hshown, String.toList_ofList]
  exact List.append_cancel_right (hpasses'.rest_eq.symm.trans hpasses.rest_eq)

theorem Atom.ends_read {read : Consumed Element c} (h : Atom.read c = .ok read)
    (hword : read.value.isBareword = false) : EndsElement read.value.shown.toList := by
  have hstands := (stands_read h).1
  cases lexeme_of_read h with
  | quoted _ isRead =>
    obtain ⟨taken, hrest, hends⟩ := Quoted.ends_read? isRead
    rwa [hstands.shown_eq (Cursor.passes_seek hrest)]
  | @group isTable d _ isRead =>
    obtain ⟨taken, x, hpasses, hx⟩ := Group.ends_read? isRead
    have hnext : c.Passes (taken ++ [x]) (c.seek d.rest) := by rwa [hpasses.seek_eq]
    rw [hstands.shown_eq hnext]
    exact .concat _ (by simp only [endsElement, hx, Bool.or_true, Bool.true_or])
  | named _ _ isRead =>
    obtain ⟨hne, hrest⟩ := splitVariable?_eq isRead
    rw [hstands.shown_eq (Cursor.passes_seek hrest.symm)]
    have hname : EndsElement _ := .of_all fun x hx =>
      endsElement_of_isVariablePart (splitVariable?_all isRead x hx)
    exact hname.append hne ['$']
  | number _ _ _ _ isRead =>
    rw [hstands.shown_eq (Cursor.passes_seek (splitNumber?_eq isRead).2.symm)]
    exact ends_splitNumber? isRead
  | word => cases hword

theorem Reading.ends {e : Element} {parts : List Piece} (h : Reading c (.element e) d parts)
    (hword : e.isBareword = false) : EndsElement e.shown.toList ∧ e.shown.toList ≠ [] := by
  cases h with
  | script =>
    rw [Element.shown, String.toList_append]
    exact ⟨.concat _ rfl, List.concat_ne_nil _ _⟩
  | @atom _ read _ isRead =>
    refine ⟨Atom.ends_read isRead hword, ?_⟩
    obtain ⟨taken, hpasses, hshown, -⟩ := (Atom.stands_read isRead).1
    have hshorter := read.shorter
    rw [hshown, String.toList_ofList]
    rintro rfl
    rw [hpasses.rest_eq] at hshorter
    exact Nat.lt_irrefl _ hshorter

/-- The target of an assignment is a name. -/
theorem ends_targetElement {c v : Cursor} {target : String} (h : assignment? c = some (target, v)) :
    EndsElement (targetElement c target).shown.toList ∧
      (targetElement c target).shown.toList ≠ [] := by
  unfold assignment? at h
  split at h
  · cases h
  next name rest hname =>
  dsimp only at h
  split at h
  · cases h
  · obtain ⟨rfl, -⟩ := Prod.mk.inj (Option.some.inj h)
    have hends : EndsElement name := .of_all fun x hx =>
      endsElement_of_isVariablePart (Atom.splitVariable?_all hname x hx)
    have hshown : (targetElement c (String.ofList name)).shown.toList = ['$'] ++ name := by
      simp [targetElement, Element.shown, Element.text]
    rw [hshown]
    exact ⟨hends.append (Atom.splitVariable?_eq hname).1 _, List.cons_ne_nil _ _⟩
  · cases h

/-- Every element that is read and is no word ends as one. -/
theorem Reading.ends_of_mem {piece : Piece} {parts : List Piece} (h : Reading c piece d parts)
    {e : Element} (he : .element e ∈ parts) (hword : e.isBareword = false) :
    EndsElement e.shown.toList ∧ e.shown.toList ≠ [] := by
  rcases h.of_mem he with ⟨a, b, _, _, -, hread⟩ | ⟨_, _, _, begins, rfl⟩
  · exact hread.ends hword
  · exact ends_targetElement begins

/-- What an element that is no word ends at has such an end. -/
theorem Reading.ends_front {piece : Piece} {parts : List Piece} {front after : List Char}
    (h : Reading c piece d parts) (hc : c.Of (front ++ after)) {e : Element}
    (he : .element e ∈ parts) (hword : e.isBareword = false)
    (hstop : e.span.stop = utf8Length front) :
    EndsElement front ∧ e.span.start < utf8Length front := by
  obtain ⟨hends, hne⟩ := h.ends_of_mem he hword
  obtain ⟨a, b, _, _, hbefore, ⟨taken, hpasses, hshown, hspan⟩, -⟩ := h.stands hc he
  obtain ⟨before, ha⟩ := hc.passes hbefore
  rw [hshown, String.toList_ofList] at hends hne
  have hend : Cursor.Of (front ++ after) ⟨utf8Length front, after⟩ :=
    ⟨front, rfl, (Nat.zero_add _).symm⟩
  rw [hspan] at hstop ⊢
  obtain rfl := Cursor.Of.eq_of_offset ⟨_, ha.trans hpasses⟩ hend hstop
  obtain rfl : front = before ++ taken := List.append_cancel_right (ha.trans hpasses).rest_eq
  refine ⟨hends.append hne before, ?_⟩
  have hlength : 0 < utf8Length taken := by
    by_contra hzero
    exact hne (eq_nil_of_utf8Length (by omega))
  have hstart : a.offset = 0 + utf8Length before := ha.offset_eq
  rw [utf8Length_append, Cursor.spanTo]
  dsimp only
  omega

end Ends

end Script
end KeywordScope
