import KeywordScope.Proofs.Source.Extent
import KeywordScope.Script.Parser

/-!
# Passages

What a reader takes is the text between two cursors.

* `Cursor.Passes c taken d`: from `c` one gets to `d` by passing the characters `taken`. Passages
  compose (`Passes.trans`), and they settle what `seek`, `textTo` and `spanTo` answer.
* `Cursor.passes_skipInline`, `Cursor.passes_skipSeparators`, `Cursor.passes_skipSpaces`: gaps are
  passages.
* `Quoted.read?_suffix`, `Group.ends_read?`: a string and a group are passages, which end with a
  quote and with a delimiter.
* `Atom.Lexeme`: which atom is read. `Atom.stands_read`: an atom is shown as the text that was
  passed for it, and its span is that of the passage.
-/

namespace KeywordScope
namespace Script

namespace Cursor

/-- From `c` one gets to `d` by passing the characters `taken`. -/
structure Passes (c : Cursor) (taken : List Char) (d : Cursor) : Prop where
  rest_eq : c.rest = taken ++ d.rest
  offset_eq : d.offset = c.offset + utf8Length taken

theorem Passes.refl (c : Cursor) : c.Passes [] c := ⟨rfl, rfl⟩

theorem Passes.trans {c d e : Cursor} {first second : List Char} (h : c.Passes first d)
    (h' : d.Passes second e) : c.Passes (first ++ second) e := by
  refine ⟨?_, ?_⟩
  · rw [h.rest_eq, h'.rest_eq, List.append_assoc]
  · rw [h'.offset_eq, h.offset_eq, utf8Length_append, Nat.add_assoc]

theorem Passes.le {c d : Cursor} {taken : List Char} (h : c.Passes taken d) :
    c.offset ≤ d.offset := by
  rw [h.offset_eq]
  exact Nat.le_add_right _ _

theorem Passes.length_eq {c d : Cursor} {taken : List Char} (h : c.Passes taken d) :
    c.rest.length - d.rest.length = taken.length := by
  rw [h.rest_eq, List.length_append, Nat.add_sub_cancel]

/-- The cursor at an end part of what is left is reached by passing what stands before it. -/
theorem passes_seek {c : Cursor} {taken rest : List Char} (h : c.rest = taken ++ rest) :
    c.Passes taken (c.seek rest) := by
  refine ⟨h, ?_⟩
  rw [seek, h, List.length_append, Nat.add_sub_cancel, List.take_left]

theorem passes_seek_cons {c : Cursor} {x : Char} {rest : List Char} (h : c.rest = x :: rest) :
    c.Passes [x] (c.seek rest) :=
  passes_seek h

theorem Passes.textTo_eq {c d : Cursor} {taken : List Char} (h : c.Passes taken d) :
    c.textTo d = String.ofList taken := by
  rw [textTo, h.length_eq, h.rest_eq, List.take_left]

/-! ## Gaps -/

/-- A passage that begins with the characters of a gap. -/
theorem passes_append {offset : Nat} (gap : List Char) {rest : List Char} {d : Cursor}
    (h : ∃ more, Passes ⟨offset + utf8Length gap, rest⟩ more d) :
    ∃ taken, Passes ⟨offset, gap ++ rest⟩ taken d := by
  obtain ⟨more, h⟩ := h
  exact ⟨gap ++ more, .trans ⟨rfl, rfl⟩ h⟩

private theorem passes_skipInline_go (offset : Nat) (cs : List Char) :
    ∃ gap, Passes ⟨offset, cs⟩ gap (skipInline.go offset cs) := by
  fun_induction skipInline.go offset cs with
  | case1 offset rest ih => exact passes_append [' '] ih
  | case2 offset rest ih => exact passes_append ['\t'] ih
  | case3 offset rest ih => exact passes_append ['\r'] ih
  | case4 offset rest ih => exact passes_append ['\x60', '\r', '\n'] ih
  | case5 offset rest ih => exact passes_append ['\x60', '\n'] ih
  | case6 offset rest => exact ⟨[], .refl _⟩

theorem passes_skipInline (c : Cursor) : ∃ gap, c.Passes gap c.skipInline :=
  passes_skipInline_go c.offset c.rest

private theorem passes_skipSpaces_go (offset : Nat) (cs : List Char) :
    ∃ gap, Passes ⟨offset, cs⟩ gap (skipSpaces.go offset cs) := by
  fun_induction skipSpaces.go offset cs with
  | case1 offset rest ih => exact passes_append [' '] ih
  | case2 offset rest ih => exact passes_append ['\t'] ih
  | case3 offset rest ih => exact passes_append ['\r'] ih
  | case4 offset rest ih => exact passes_append ['\n'] ih
  | case5 offset rest => exact ⟨[], .refl _⟩

theorem passes_skipSpaces (c : Cursor) : ∃ gap, c.Passes gap c.skipSpaces :=
  passes_skipSpaces_go c.offset c.rest

private theorem passes_skipSeparators_go (offset : Nat) (cs : List Char) :
    (∃ gap, Passes ⟨offset, cs⟩ gap (skipSeparators.go offset cs)) ∧
      ∃ gap, Passes ⟨offset, cs⟩ gap (skipSeparators.comment offset cs) := by
  induction cs generalizing offset with
  | nil => exact ⟨⟨[], .refl _⟩, ⟨[], .refl _⟩⟩
  | cons c cs ih =>
    constructor
    · unfold skipSeparators.go
      split
      case h_6 rest h =>
        obtain ⟨rfl, rfl⟩ := List.cons.inj h
        exact passes_append ['#'] (ih _).2
      case h_7 => exact ⟨[], .refl _⟩
      all_goals
        next rest h =>
        obtain ⟨rfl, rfl⟩ := List.cons.inj h
        exact passes_append [_] (ih _).1
    · unfold skipSeparators.comment
      split
      · next h => cases h
      · next rest h =>
        obtain ⟨rfl, rfl⟩ := List.cons.inj h
        exact passes_append ['\n'] (ih _).1
      · next rest _ h =>
        obtain ⟨rfl, rfl⟩ := List.cons.inj h
        exact passes_append [c] (ih _).2

theorem passes_skipSeparators (c : Cursor) : ∃ gap, c.Passes gap c.skipSeparators :=
  (passes_skipSeparators_go c.offset c.rest).1

end Cursor

/-! ## Lexemes -/

namespace Quoted

/-- A string ends with its quote. -/
theorem readDouble?_ends {cs value rest : List Char} (h : readDouble? cs = some (value, rest)) :
    ∃ taken, cs = taken ++ '\x22' :: rest := by
  fun_induction readDouble? cs generalizing value rest with
  | case1 | case5 => cases h
  | case2 cs ih =>
    obtain ⟨_, hread, heq⟩ := Option.map_eq_some_iff.1 h
    cases heq
    obtain ⟨taken, rfl⟩ := ih hread
    exact ⟨'\x22' :: '\x22' :: taken, rfl⟩
  | case3 cs =>
    cases h
    exact ⟨[], rfl⟩
  | case4 x cs ih =>
    obtain ⟨_, hread, heq⟩ := Option.map_eq_some_iff.1 h
    cases heq
    obtain ⟨taken, rfl⟩ := ih hread
    exact ⟨'\x60' :: x :: taken, rfl⟩
  | case6 x cs _ _ _ _ ih =>
    obtain ⟨_, hread, heq⟩ := Option.map_eq_some_iff.1 h
    cases heq
    obtain ⟨taken, rfl⟩ := ih hread
    exact ⟨x :: taken, rfl⟩

theorem readSingle?_ends {cs value rest : List Char} (h : readSingle? cs = some (value, rest)) :
    ∃ taken, cs = taken ++ '\x27' :: rest := by
  fun_induction readSingle? cs generalizing value rest with
  | case1 => cases h
  | case2 cs ih =>
    obtain ⟨_, hread, heq⟩ := Option.map_eq_some_iff.1 h
    cases heq
    obtain ⟨taken, rfl⟩ := ih hread
    exact ⟨'\x27' :: '\x27' :: taken, rfl⟩
  | case3 cs =>
    cases h
    exact ⟨[], rfl⟩
  | case4 x cs _ _ ih =>
    obtain ⟨_, hread, heq⟩ := Option.map_eq_some_iff.1 h
    cases heq
    obtain ⟨taken, rfl⟩ := ih hread
    exact ⟨x :: taken, rfl⟩

theorem read?_suffix {cs value rest : List Char} (h : read? cs = some (value, rest)) :
    rest <:+ cs := by
  unfold read? at h
  split at h
  · obtain ⟨taken, rfl⟩ := readDouble?_ends h
    exact ⟨'\x22' :: (taken ++ ['\x22']), by simp⟩
  · obtain ⟨taken, rfl⟩ := readSingle?_ends h
    exact ⟨'\x27' :: (taken ++ ['\x27']), by simp⟩
  · cases h

end Quoted

namespace Group

theorem isBlank_of_isCloser {x : Char} (h : isCloser x = true) : isBlank x = false := by
  simp only [isCloser, Bool.or_eq_true, beq_iff_eq] at h
  rcases h with (rfl | rfl) | rfl
  all_goals rfl

/-- A group ends with its delimiter. -/
theorem close_ends {inner : Char} {outer : List Char} {c d : Cursor} (h : close inner outer c = .ok d) :
    ∃ taken x, c.Passes (taken ++ [x]) d ∧ isCloser x = true := by
  have hstep : ∀ {c m : Cursor} {gap : List Char}, c.Passes gap m →
      (∃ taken x, m.Passes (taken ++ [x]) d ∧ isCloser x = true) →
        ∃ taken x, c.Passes (taken ++ [x]) d ∧ isCloser x = true := by
    rintro c m gap hgap ⟨taken, x, hpasses, hx⟩
    refine ⟨gap ++ taken, x, ?_, hx⟩
    rw [List.append_assoc]
    exact hgap.trans hpasses
  fun_induction close inner outer c with
  | case1 | case4 => cases h
  | case2 c x rest hrest hx =>
    cases h
    exact ⟨[], x, Cursor.passes_seek_cons hrest, hx⟩
  | case3 c x rest hrest _ next outer ih => exact hstep (Cursor.passes_seek_cons hrest) (ih h)
  | case5 inner outer c x rest hrest _ inner' _ ih =>
    exact hstep (Cursor.passes_seek_cons hrest) (ih h)
  | case6 inner outer c x rest hrest _ _ value rest' hs _ ih =>
    obtain ⟨quoted, hquoted⟩ := Quoted.read?_suffix hs
    exact hstep (Cursor.passes_seek (hrest.trans hquoted.symm)) (ih h)
  | case7 inner outer c x rest hrest _ _ _ ih =>
    exact hstep (Cursor.passes_seek_cons hrest) (ih h)

/-- The group that begins with the characters `opening`. -/
private theorem ends_group (opening : List Char) {rest : List Char} {inner : Char} {c d : Cursor}
    {isTable isTable' : Bool} (hc : c.rest = opening ++ rest)
    (h : some (isTable, close inner [] (c.seek rest)) = some (isTable', .ok d)) :
    ∃ taken x, c.Passes (taken ++ [x]) d ∧ isCloser x = true := by
  obtain ⟨taken, x, hclose, hx⟩ := close_ends (Prod.mk.inj (Option.some.inj h)).2
  refine ⟨opening ++ taken, x, ?_, hx⟩
  rw [List.append_assoc]
  exact (Cursor.passes_seek hc).trans hclose

theorem ends_read? {c d : Cursor} {isTable : Bool} (h : read? c = some (isTable, .ok d)) :
    ∃ taken x, c.Passes (taken ++ [x]) d ∧ isCloser x = true := by
  unfold read? at h
  split at h
  · exact ends_group ['@', '{'] ‹_› h
  · exact ends_group ['@', '('] ‹_› h
  · exact ends_group ['$', '('] ‹_› h
  · exact ends_group ['('] ‹_› h
  · cases h

theorem passes_read? {c d : Cursor} {isTable : Bool} (h : read? c = some (isTable, .ok d)) :
    ∃ taken, c.Passes taken d := by
  obtain ⟨taken, x, hpasses, -⟩ := ends_read? h
  exact ⟨taken ++ [x], hpasses⟩

end Group

/-- The element shows what is passed from `c` to `d`, and has the span of it. -/
def Element.Stands (e : Element) (c d : Cursor) : Prop :=
  ∃ taken, c.Passes taken d ∧ e.shown = String.ofList taken ∧ e.span = c.spanTo d

namespace Atom

private theorem stands_consume {c : Cursor} {taken rest : List Char} (hc : c.rest = taken ++ rest)
    {shorter : rest.length < c.rest.length} {element : String → Span → Element}
    (helement : ∀ text span, (element text span).shown = text ∧ (element text span).span = span) :
    (consume c rest shorter element).value.Stands c (consume c rest shorter element).next := by
  have hpasses := Cursor.passes_seek hc
  refine ⟨taken, hpasses, ?_, (helement _ _).2⟩
  exact (helement _ _).1.trans hpasses.textTo_eq

/-- Which atom is read, and why no other one is. -/
inductive Lexeme (c : Cursor) : Consumed Element c → Prop where
  | quoted {value rest : List Char}
      (isQuote : c.rest.head? = some '\x22' ∨ c.rest.head? = some '\x27')
      (isRead : Quoted.read? c.rest = some (value, rest)) :
      Lexeme c (consume c rest (Quoted.read?_shorter isRead) (.quoted (String.ofList value)))
  | group {isTable : Bool} {d : Cursor}
      (noQuote : ¬ (c.rest.head? = some '\x22' ∨ c.rest.head? = some '\x27'))
      (isRead : Group.read? c = some (isTable, .ok d)) :
      Lexeme c (consume c d.rest (Group.read?_shorter isRead)
        (if isTable then .hashtable else .subExpression))
  | named {name rest : List Char}
      (noQuote : ¬ (c.rest.head? = some '\x22' ∨ c.rest.head? = some '\x27'))
      (noGroup : Group.read? c = none) (isRead : splitVariable? c.rest = some (name, rest)) :
      Lexeme c (consume c rest (splitVariable?_shorter isRead) (.variable (String.ofList name)))
  | number {digits rest : List Char}
      (noQuote : ¬ (c.rest.head? = some '\x22' ∨ c.rest.head? = some '\x27'))
      (noGroup : Group.read? c = none) (noVariable : splitVariable? c.rest = none)
      (noDollar : c.rest.head? ≠ some '$') (isRead : splitNumber? c.rest = some (digits, rest)) :
      Lexeme c (consume c rest (splitNumber?_shorter isRead) .number)
  | word {word rest : List Char}
      (noQuote : ¬ (c.rest.head? = some '\x22' ∨ c.rest.head? = some '\x27'))
      (noGroup : Group.read? c = none) (noVariable : splitVariable? c.rest = none)
      (noDollar : c.rest.head? ≠ some '$') (noNumber : splitNumber? c.rest = none)
      (isRead : splitWord? c.rest = some (word, rest)) :
      Lexeme c (consume c rest (splitWord?_shorter isRead) .bareword)

theorem lexeme_of_read {c : Cursor} {read : Consumed Element c} (h : Atom.read c = .ok read) :
    Lexeme c read := by
  unfold Atom.read at h
  split at h
  · next isQuote =>
    split at h
    · next isRead =>
      cases h
      exact .quoted isQuote isRead
    · cases h
  next noQuote =>
  split at h
  · cases h
  · next isRead =>
    cases h
    exact .group noQuote isRead
  next noGroup =>
  split at h
  · next isRead =>
    cases h
    exact .named noQuote noGroup isRead
  next noVariable =>
  split at h
  · cases h
  next noDollar =>
  split at h
  · next isRead =>
    cases h
    exact .number noQuote noGroup noVariable noDollar isRead
  next noNumber =>
  split at h
  · next isRead =>
    cases h
    exact .word noQuote noGroup noVariable noDollar noNumber isRead
  · cases h

theorem Lexeme.read_eq {c : Cursor} {read : Consumed Element c} (h : Lexeme c read) :
    Atom.read c = .ok read := by
  unfold Atom.read
  cases h with
  | quoted isQuote isRead =>
    rw [if_pos isQuote]
    split
    · next heq =>
      cases isRead.symm.trans heq
      rfl
    · next heq => cases isRead.symm.trans heq
  | group noQuote isRead =>
    rw [if_neg noQuote]
    split
    · next heq => cases isRead.symm.trans heq
    · next heq =>
      cases isRead.symm.trans heq
      rfl
    · next heq => cases isRead.symm.trans heq
  | named noQuote noGroup isRead =>
    rw [if_neg noQuote]
    split
    · next heq => cases noGroup.symm.trans heq
    · next heq => cases noGroup.symm.trans heq
    split
    · next heq =>
      cases isRead.symm.trans heq
      rfl
    · next heq => cases isRead.symm.trans heq
  | number noQuote noGroup noVariable noDollar isRead =>
    rw [if_neg noQuote]
    split
    · next heq => cases noGroup.symm.trans heq
    · next heq => cases noGroup.symm.trans heq
    split
    · next heq => cases noVariable.symm.trans heq
    rw [if_neg noDollar]
    split
    · next heq =>
      cases isRead.symm.trans heq
      rfl
    · next heq => cases isRead.symm.trans heq
  | word noQuote noGroup noVariable noDollar noNumber isRead =>
    rw [if_neg noQuote]
    split
    · next heq => cases noGroup.symm.trans heq
    · next heq => cases noGroup.symm.trans heq
    split
    · next heq => cases noVariable.symm.trans heq
    rw [if_neg noDollar]
    split
    · next heq => cases noNumber.symm.trans heq
    split
    · next heq =>
      cases isRead.symm.trans heq
      rfl
    · next heq => cases isRead.symm.trans heq

/-- An atom is what was passed for it, and no script block. -/
theorem stands_read {c : Cursor} {read : Consumed Element c} (h : Atom.read c = .ok read) :
    read.value.Stands c read.next ∧ ∀ block, read.value ≠ .script block := by
  cases lexeme_of_read h with
  | quoted _ isRead =>
    obtain ⟨taken, ht⟩ := Quoted.read?_suffix isRead
    exact ⟨stands_consume ht.symm fun _ _ => ⟨rfl, rfl⟩, fun _ h => by cases h⟩
  | @group isTable d _ isRead =>
    obtain ⟨taken, ht⟩ := Group.passes_read? isRead
    cases isTable with
    | true => exact ⟨stands_consume ht.rest_eq fun _ _ => ⟨rfl, rfl⟩, fun _ h => by cases h⟩
    | false => exact ⟨stands_consume ht.rest_eq fun _ _ => ⟨rfl, rfl⟩, fun _ h => by cases h⟩
  | named _ _ isRead =>
    have hrest := (splitVariable?_eq isRead).2
    exact ⟨stands_consume hrest.symm fun _ _ => ⟨rfl, rfl⟩, fun _ h => by cases h⟩
  | number _ _ _ _ isRead =>
    have hrest := (splitNumber?_eq isRead).2
    exact ⟨stands_consume hrest.symm fun _ _ => ⟨rfl, rfl⟩, fun _ h => by cases h⟩
  | word _ _ _ _ _ isRead =>
    have hrest := (splitWord?_eq isRead).2
    exact ⟨stands_consume hrest.symm fun _ _ => ⟨rfl, rfl⟩, fun _ h => by cases h⟩

end Atom

/-! ## Where values and stages begin -/

/-- In front of the value of an assignment stands its target. -/
theorem passes_assignment? {c d : Cursor} {target : String}
    (h : assignment? c = some (target, d)) :
    ∃ gap, c.Passes ('$' :: target.toList ++ gap) d := by
  unfold assignment? at h
  split at h
  · cases h
  next name rest hv =>
  simp only at h
  split at h
  · cases h
  · next rest' _ hequals =>
    obtain ⟨rfl, rfl⟩ := by simpa using h
    obtain ⟨gap, hgap⟩ := (c.seek rest).passes_skipInline
    obtain ⟨gap', hgap'⟩ := ((c.seek rest).skipInline.seek rest').passes_skipInline
    have htarget := Cursor.passes_seek (Atom.splitVariable?_eq hv).2.symm
    have hall := htarget.trans (hgap.trans ((Cursor.passes_seek_cons hequals).trans hgap'))
    rw [String.toList_ofList]
    exact ⟨_, hall⟩
  · cases h

theorem passes_pipe? {c d : Cursor} (h : pipe? c = some d) : ∃ gap, c.Passes gap d := by
  unfold pipe? at h
  simp only at h
  split at h
  · next rest hpipe =>
    obtain rfl := Option.some.inj h
    obtain ⟨gap, hgap⟩ := c.passes_skipInline
    obtain ⟨gap', hgap'⟩ := (c.skipInline.seek rest).passes_skipSpaces
    exact ⟨_, hgap.trans ((Cursor.passes_seek_cons hpipe).trans hgap')⟩
  · cases h

/-! ## Places of a source -/

/-- What is passed between two places of a source stands there. -/
theorem Cursor.Passes.covers {source before taken : List Char} {c d : Cursor}
    (hc : Cursor.Passes ⟨0, source⟩ before c) (h : c.Passes taken d) :
    (c.spanTo d).Covers source taken := by
  have hall := hc.trans h
  refine ⟨before, d.rest, hall.rest_eq, ?_, ?_⟩
  · exact hc.offset_eq.trans (Nat.zero_add _)
  · exact hall.offset_eq.trans (Nat.zero_add _)

end Script
end KeywordScope
