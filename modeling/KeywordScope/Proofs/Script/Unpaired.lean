import KeywordScope.Proofs.Script.Faithful
import KeywordScope.Proofs.Script.Lexemes

/-!
# Quotes without a partner

A quote without a partner is plain text in a group. Where more follows a text, it may find its
partner there, and then the group does not end where it ended.

* `Group.unpaired cs`: the quotes without a partner in the group at the front of a text, each with
  all that follows it.
* `Group.read?_placed_iff`: a group of a text is one of a source just if these quotes have no
  partner in what follows the text, either.
* `Element.StaysUnpaired source after`: so it is for an element of a source, if that is a group.
* `Atom.read_append`: an atom of a text is one of a source, if so it is.
-/

namespace KeywordScope
namespace Script

variable {bytes : Nat} {after : List Char} {c d : Cursor}

/-! ## Quotes without a partner -/

namespace Group

/-- From within a number of groups in one more group, up to where that ends: the quotes without a
partner, each with all that follows it. -/
def unpairedWithin (groups : Nat) (cs : List Char) : List (List Char) :=
  match cs with
  | [] => []
  | x :: rest =>
    if isCloser x then
      match groups with
      | 0 => []
      | groups + 1 => unpairedWithin groups rest
    else if (closer? x).isSome then unpairedWithin (groups + 1) rest
    else
      match hs : Quoted.read? (x :: rest) with
      | some (_, rest') =>
        have := Quoted.read?_shorter hs
        unpairedWithin groups rest'
      | none =>
        if x = '\x22' ∨ x = '\x27' then (x :: rest) :: unpairedWithin groups rest
        else unpairedWithin groups rest
termination_by cs.length
decreasing_by all_goals simp_all

/-- The quotes without a partner in the group at the front of a text, each with all that follows
it. -/
def unpaired : List Char → List (List Char)
  | '@' :: '{' :: rest => unpairedWithin 0 rest
  | '@' :: '(' :: rest => unpairedWithin 0 rest
  | '$' :: '(' :: rest => unpairedWithin 0 rest
  | '(' :: rest => unpairedWithin 0 rest
  | _ => []

/-- None of the texts begins with a string if more follows. -/
def StayUnpaired (quotes : List (List Char)) (after : List Char) : Prop :=
  ∀ quote ∈ quotes, Quoted.read? (quote ++ after) = none

section Unpaired

variable {groups : Nat} {x : Char} {rest : List Char}

theorem unpairedWithin_closer (h : isCloser x = true) : unpairedWithin groups (x :: rest) =
    match groups with
    | 0 => []
    | groups + 1 => unpairedWithin groups rest := by
  rw [unpairedWithin.eq_def]
  simp only [h, if_true]

theorem unpairedWithin_opener (hcloser : ¬ isCloser x = true) {inner : Char}
    (h : closer? x = some inner) :
    unpairedWithin groups (x :: rest) = unpairedWithin (groups + 1) rest := by
  rw [unpairedWithin.eq_def]
  simp only [hcloser, h, Option.isSome_some, Bool.false_eq_true, if_false, if_true]

theorem unpairedWithin_string (hcloser : ¬ isCloser x = true) (hopener : closer? x = none)
    {value rest' : List Char} (h : Quoted.read? (x :: rest) = some (value, rest')) :
    unpairedWithin groups (x :: rest) = unpairedWithin groups rest' := by
  rw [unpairedWithin.eq_def]
  simp only [hcloser, hopener, Option.isSome_none, Bool.false_eq_true, if_false]
  split
  · next heq =>
    cases h.symm.trans heq
    rfl
  · next heq => cases h.symm.trans heq

theorem unpairedWithin_none (hcloser : ¬ isCloser x = true) (hopener : closer? x = none)
    (h : Quoted.read? (x :: rest) = none) : unpairedWithin groups (x :: rest) =
      if x = '\x22' ∨ x = '\x27' then (x :: rest) :: unpairedWithin groups rest
      else unpairedWithin groups rest := by
  rw [unpairedWithin.eq_def]
  simp only [hcloser, hopener, Option.isSome_none, Bool.false_eq_true, if_false]
  split
  · next heq => cases h.symm.trans heq
  · rfl

/-- Where no string begins, the character is a quote without a partner or any other one, and then no
string begins with it wherever it stands. -/
theorem stayUnpaired_plain (hcloser : ¬ isCloser x = true) (hopener : closer? x = none)
    (h : Quoted.read? (x :: rest) = none) :
    StayUnpaired (unpairedWithin groups (x :: rest)) after ↔
      Quoted.read? (x :: (rest ++ after)) = none ∧
        StayUnpaired (unpairedWithin groups rest) after := by
  rw [unpairedWithin_none hcloser hopener h]
  split
  · exact List.forall_mem_cons
  · next hquote =>
    have hnone : Quoted.read? (x :: (rest ++ after)) = none := by
      unfold Quoted.read?
      split
      · next heq => exact absurd (.inl (List.cons.inj heq).1) hquote
      · next heq => exact absurd (.inr (List.cons.inj heq).1) hquote
      · rfl
    exact (and_iff_right hnone).symm

theorem suffix_of_unpairedWithin {groups : Nat} {cs quote : List Char}
    (h : quote ∈ unpairedWithin groups cs) : quote <:+ cs := by
  fun_induction unpairedWithin groups cs with
  | case1 | case2 => cases h
  | case5 groups x rest _ _ value rest' hs _ ih => exact (ih h).trans (Quoted.read?_suffix hs)
  | case6 groups x rest _ _ _ _ ih =>
    rcases List.mem_cons.1 h with rfl | h
    · exact List.suffix_refl _
    · exact (ih h).trans (List.suffix_cons x rest)
  | case3 _ _ _ _ ih | case4 _ _ _ _ _ ih | case7 _ _ _ _ _ _ _ ih =>
    exact (ih h).trans (List.suffix_cons _ _)

/-- They have no partner in the text itself. -/
theorem stayUnpaired_within (groups : Nat) (cs : List Char) :
    StayUnpaired (unpairedWithin groups cs) [] := by
  fun_induction unpairedWithin groups cs with
  | case1 | case2 => exact nofun
  | case6 groups x rest _ _ hs _ ih =>
    exact List.forall_mem_cons.2 ⟨by rw [List.append_nil, hs], ih⟩
  | _ => assumption

end Unpaired

/-- A group of a text ends in the same place of a source just if its quotes without a partner have
none in what follows the text. -/
theorem close_placed_iff (hafter : Parting after) {inner : Char} {outer : List Char}
    (h : close inner outer c = .ok d) :
    close inner outer (c.placed bytes after) = .ok (d.placed bytes after) ↔
      StayUnpaired (unpairedWithin outer.length c.rest) after := by
  have hseek : ∀ {e : Cursor} {x rest}, e.rest = x :: rest →
      (e.placed bytes after).seek (rest ++ after) = (e.seek rest).placed bytes after :=
    fun hrest => Cursor.seek_placed (hrest ▸ List.suffix_cons _ _)
  rw [close_eq]
  fun_induction close inner outer c with
  | case1 | case4 => cases h
  | case2 c x rest hrest hcloser =>
    cases h
    rw [hrest, unpairedWithin_closer hcloser]
    simp [StayUnpaired, hrest, hcloser, closed, hseek hrest]
  | case3 c x rest hrest hcloser next outer ih =>
    rw [hrest, unpairedWithin_closer hcloser]
    simp only [Cursor.placed_rest, hrest, List.cons_append, hcloser, if_true, closed,
      List.length_cons, hseek hrest]
    rw [close_eq]
    exact ih h
  | case5 inner outer c x rest hrest hcloser inner' hopener ih =>
    rw [hrest, unpairedWithin_opener hcloser hopener]
    simp only [Cursor.placed_rest, hrest, List.cons_append, hcloser, hopener, hseek hrest]
    rw [close_eq]
    exact ih h
  | case6 inner outer c x rest hrest hcloser hopener value rest' hs _ ih =>
    have hstring := Quoted.read?_append hafter hs
    rw [List.cons_append] at hstring
    have hplace : (c.placed bytes after).seek (rest' ++ after) = (c.seek rest').placed bytes after :=
      Cursor.seek_placed (hrest ▸ Quoted.read?_suffix hs)
    rw [hrest, unpairedWithin_string hcloser hopener hs]
    simp only [Cursor.placed_rest, hrest, List.cons_append, hcloser, hopener, hstring, hplace]
    rw [close_eq]
    exact ih h
  | case7 inner outer c x rest hrest hcloser hopener hs ih =>
    rw [hrest, stayUnpaired_plain hcloser hopener hs]
    simp only [Cursor.placed_rest, hrest, List.cons_append, hcloser, hopener]
    rcases hstring : Quoted.read? (x :: (rest ++ after)) with _ | ⟨value, rest'⟩
    · simp only [hseek hrest, true_and]
      rw [close_eq]
      exact ih h
    · -- The string ends behind the text, and the group behind the string.
      refine ⟨fun hclose => ?_, fun hnone => by cases hnone.1⟩
      have hlt := close_shorter hclose
      rw [Cursor.seek_rest, Cursor.placed_rest, List.length_append] at hlt
      obtain ⟨_, hread⟩ :=
        Quoted.read?_within hafter (List.cons_ne_nil x rest) hstring (by omega)
      rw [hs] at hread
      cases hread

theorem suffix_of_unpaired {cs quote : List Char} (h : quote ∈ unpaired cs) : quote <:+ cs := by
  unfold unpaired at h
  split at h
  · exact (suffix_of_unpairedWithin h).trans (List.suffix_append ['@', '{'] _)
  · exact (suffix_of_unpairedWithin h).trans (List.suffix_append ['@', '('] _)
  · exact (suffix_of_unpairedWithin h).trans (List.suffix_append ['$', '('] _)
  · exact (suffix_of_unpairedWithin h).trans (List.suffix_cons '(' _)
  · cases h

theorem stayUnpaired_nil (cs : List Char) : StayUnpaired (unpaired cs) [] := by
  unfold unpaired
  split
  · exact stayUnpaired_within 0 _
  · exact stayUnpaired_within 0 _
  · exact stayUnpaired_within 0 _
  · exact stayUnpaired_within 0 _
  · exact nofun

/-- The group that begins with the characters `opening`. -/
private theorem close_seek_placed_iff (opening : List Char) (hafter : Parting after)
    {rest : List Char} {inner : Char} {isTable isTable' : Bool} (hrest : c.rest = opening ++ rest)
    (h : some (isTable, close inner [] (c.seek rest)) = some (isTable', .ok d)) :
    some (isTable, close inner [] ((c.placed bytes after).seek (rest ++ after))) =
        some (isTable', .ok (d.placed bytes after)) ↔
      StayUnpaired (unpairedWithin 0 rest) after := by
  obtain ⟨rfl, hclose⟩ := Prod.mk.inj (Option.some.inj h)
  rw [Cursor.seek_placed (hrest ▸ List.suffix_append _ _)]
  simpa using close_placed_iff hafter hclose

/-- A group of a text is one of a source just if its quotes without a partner have none in what
follows the text. -/
theorem read?_placed_iff (hafter : Parting after) {isTable : Bool}
    (h : read? c = some (isTable, .ok d)) :
    read? (c.placed bytes after) = some (isTable, .ok (d.placed bytes after)) ↔
      StayUnpaired (unpaired c.rest) after := by
  unfold read? at h
  split at h
  · next rest hrest =>
    rw [read?, Cursor.placed_rest, hrest]
    exact close_seek_placed_iff ['@', '{'] hafter hrest h
  · next rest hrest =>
    rw [read?, Cursor.placed_rest, hrest]
    exact close_seek_placed_iff ['@', '('] hafter hrest h
  · next rest hrest =>
    rw [read?, Cursor.placed_rest, hrest]
    exact close_seek_placed_iff ['$', '('] hafter hrest h
  · next rest hrest =>
    rw [read?, Cursor.placed_rest, hrest]
    exact close_seek_placed_iff ['('] hafter hrest h
  · cases h

/-- Where no group begins in a text, none begins if more follows. -/
theorem read?_placed_none (hafter : Parting after) (hc : c.rest ≠ []) (h : read? c = none) :
    read? (c.placed bytes after) = none := by
  obtain ⟨x, cs, hrest⟩ := List.exists_cons_of_ne_nil hc
  have hsecond : ∀ {y : Char} {more : List Char}, isBlank y = false → y ∉ ['}', ';', '\x60'] →
      cs ++ after = y :: more → ∃ more', cs = y :: more' := by
    intro y more hblank hother heq
    obtain ⟨more', hcs, -⟩ := hafter.cons_eq hblank hother heq
    exact ⟨more', hcs⟩
  unfold read? at h ⊢
  rw [Cursor.placed_rest, hrest, List.cons_append]
  rw [hrest] at h
  split
  · next heq =>
    obtain ⟨rfl, hmore⟩ := List.cons.inj heq
    obtain ⟨more, rfl⟩ := hsecond rfl (by decide) hmore
    cases h
  · next heq =>
    obtain ⟨rfl, hmore⟩ := List.cons.inj heq
    obtain ⟨more, rfl⟩ := hsecond rfl (by decide) hmore
    cases h
  · next heq =>
    obtain ⟨rfl, hmore⟩ := List.cons.inj heq
    obtain ⟨more, rfl⟩ := hsecond rfl (by decide) hmore
    cases h
  · next heq =>
    obtain ⟨rfl, -⟩ := List.cons.inj heq
    cases h
  · rfl

end Group

/-! ## Elements -/

/-- The element is a group that is kept as written. -/
def Element.isGroup : Element → Bool
  | .subExpression .. => true
  | .hashtable .. => true
  | _ => false

/-- The quotes without a partner in the element, if it is a group of the source, have none in what
follows the source, either. -/
def Element.StaysUnpaired (source after : List Char) (element : Element) : Prop :=
  element.isGroup = true → ∀ c : Cursor, c.Of source → c.offset = element.span.start →
    Group.StayUnpaired (Group.unpaired c.rest) after

@[simp]
theorem Element.isGroup_shift (element : Element) :
    (element.shift bytes).isGroup = element.isGroup := by
  cases element <;> rfl

theorem eq_nil_of_utf8Length {cs : List Char} (h : utf8Length cs = 0) : cs = [] := by
  rcases cs with _ | ⟨x, cs⟩
  · rfl
  · have hx := x.utf8Size_pos
    rw [utf8Length_cons] at h
    omega

theorem Cursor.Passes.lt {taken : List Char} (h : c.Passes taken d)
    (hshorter : d.rest.length < c.rest.length) : c.offset < d.offset := by
  have hlength := congrArg List.length h.rest_eq
  have hoffset := h.offset_eq
  rw [List.length_append] at hlength
  by_contra hle
  have htaken : utf8Length taken = 0 := by omega
  obtain rfl := eq_nil_of_utf8Length htaken
  rw [List.length_nil] at hlength
  omega

theorem Cursor.Of.suffix {source : List Char} (h : c.Of source) : c.rest <:+ source := by
  obtain ⟨before, hc⟩ := h
  exact hc.suffix

theorem Seam.of {source : List Char} (h : Seam source after) (hc : c.Of source) :
    Seam c.rest after :=
  h.of_suffix hc.suffix

/-- A place of a source is told by its offset. -/
theorem Cursor.Of.eq_of_offset {source : List Char} (h : c.Of source) (h' : d.Of source)
    (hoffset : c.offset = d.offset) : c = d := by
  obtain ⟨before, hc⟩ := h
  obtain ⟨before', hd⟩ := h'
  have hlength : utf8Length before = utf8Length before' := by
    have hsame := hc.offset_eq.symm.trans (hoffset.trans hd.offset_eq)
    exact Nat.add_left_cancel hsame
  obtain ⟨between, hbetween, hrest⟩ | ⟨between, hbetween, hrest⟩ :=
    List.append_eq_append_iff.1 (hc.rest_eq.symm.trans hd.rest_eq)
  all_goals
    rw [hbetween, utf8Length_append] at hlength
    have hnil : between = [] := eq_nil_of_utf8Length (by omega)
    rw [Cursor.mk.injEq]
    exact ⟨hoffset, by simp [hrest, hnil]⟩

/-- An atom of a text that is one of a source is no group in which a quote finds a partner. -/
theorem Atom.staysUnpaired_of_placed (hafter : Parting after) {source : List Char}
    (hc : c.Of source) {own : Consumed Element c} (h : Atom.read c = .ok own)
    {read : Consumed Element (c.placed bytes after)}
    (h' : Atom.read (c.placed bytes after) = .ok read)
    (hvalue : read.value = own.value.shift bytes)
    (hnext : read.next = own.next.placed bytes after) :
    own.value.StaysUnpaired source after := by
  intro hgroup m hm hoffset
  have hspan : own.value.span.start = c.offset := by
    obtain ⟨⟨_, _, -, hspan⟩, -⟩ := Atom.stands_read h
    rw [hspan]
    rfl
  obtain rfl := hm.eq_of_offset hc (hoffset.trans hspan)
  have hgroup' : read.value.isGroup = true := by rw [hvalue, Element.isGroup_shift, hgroup]
  -- Both are groups, which begin in the same place.
  cases lexeme_of_read h with
  | @group isTable e _ isRead =>
    cases lexeme_of_read h' with
    | @group isTable' e' _ isRead' =>
      obtain ⟨_, htaken⟩ := Group.passes_read? isRead
      obtain ⟨_, htaken'⟩ := Group.passes_read? isRead'
      have hend : (m.placed bytes after).seek e'.rest = (m.seek e.rest).placed bytes after := hnext
      rw [htaken.seek_eq, htaken'.seek_eq] at hend
      subst hend
      have hne : m.rest ≠ [] := Cursor.ne_nil_of_shorter (Group.read?_shorter isRead')
      cases isRead.symm.trans (Group.read?_placed hafter hne isRead')
      exact (Group.read?_placed_iff hafter isRead).1 isRead'
    | named | number | word => cases hgroup'
    | quoted => cases hgroup'
  | quoted | named | number | word => cases hgroup

/-! ## Atoms in front of more -/

namespace Atom

/-- What is taken of the text is taken of the source. -/
theorem consume_append (element : String → Span → Element)
    (helement : ∀ text span, element text (span.shift bytes) = (element text span).shift bytes)
    {rest : List Char} (hrest : rest <:+ c.rest) (shorter : rest.length < c.rest.length)
    (shorter' : (rest ++ after).length < (c.placed bytes after).rest.length) :
    (consume (c.placed bytes after) (rest ++ after) shorter' element).next =
        (consume c rest shorter element).next.placed bytes after ∧
      (consume (c.placed bytes after) (rest ++ after) shorter' element).value =
        (consume c rest shorter element).value.shift bytes := by
  obtain ⟨taken, htaken⟩ := id hrest
  have hseek : (c.placed bytes after).seek (rest ++ after) = (c.seek rest).placed bytes after :=
    Cursor.seek_placed hrest
  refine ⟨hseek, ?_⟩
  show element ((c.placed bytes after).textTo ((c.placed bytes after).seek (rest ++ after)))
    ((c.placed bytes after).spanTo ((c.placed bytes after).seek (rest ++ after))) =
      (element (c.textTo (c.seek rest)) (c.spanTo (c.seek rest))).shift bytes
  rw [hseek, Cursor.textTo_placed (Cursor.passes_seek htaken.symm), Cursor.spanTo_placed]
  exact helement _ _

/-- An atom of a text is one where more follows, unless it is a group in which a quote finds a
partner there, or a word that goes on there. -/
theorem read_append (hafter : Parting after) (hseam : Seam c.rest after)
    (hends : endsNumber after = true) {read : Consumed Element c} (h : Atom.read c = .ok read)
    (hword : read.value.isBareword = true → read.next.rest = [] → EndsWord after)
    (hquotes : read.value.isGroup = true → Group.StayUnpaired (Group.unpaired c.rest) after) :
    ∃ read', Atom.read (c.placed bytes after) = .ok read' ∧
      read'.next = read.next.placed bytes after ∧ read'.value = read.value.shift bytes := by
  have hne : c.rest ≠ [] := by
    intro hnil
    have hshorter := read.shorter
    rw [hnil] at hshorter
    cases hshorter
  have hhead : (c.placed bytes after).rest.head? = c.rest.head? := Cursor.head?_placed hne
  have hgroup : Group.read? c = none → Group.read? (c.placed bytes after) = none :=
    Group.read?_placed_none hafter hne
  have hnumber := splitNumber?_append_of_ends hafter hseam hends
  cases lexeme_of_read h with
  | quoted isQuote isRead =>
    rw [← hhead] at isQuote
    exact ⟨_, (Lexeme.quoted isQuote (Quoted.read?_append hafter isRead)).read_eq,
      consume_append (.quoted _) (fun _ _ => rfl) (Quoted.read?_suffix isRead) _ _⟩
  | @group isTable e noQuote isRead =>
    rw [← hhead] at noQuote
    have hread : Group.read? (c.placed bytes after) = some (isTable, .ok (e.placed bytes after)) :=
      (Group.read?_placed_iff hafter isRead).2 (hquotes (by cases isTable <;> rfl))
    obtain ⟨taken, htaken⟩ := Group.passes_read? isRead
    refine ⟨_, (Lexeme.group noQuote hread).read_eq,
      consume_append _ (fun _ _ => ?_) htaken.suffix _ _⟩
    cases isTable with
    | true => rfl
    | false => rfl
  | named noQuote noGroup isRead =>
    rw [← hhead] at noQuote
    have hread := (splitVariable?_append hafter).trans (congrArg (Option.map _) isRead)
    exact ⟨_, (Lexeme.named noQuote (hgroup noGroup) hread).read_eq,
      consume_append (.variable _) (fun _ _ => rfl) ⟨_, (splitVariable?_eq isRead).2⟩ _ _⟩
  | number noQuote noGroup noVariable noDollar isRead =>
    rw [← hhead] at noQuote noDollar
    have noVariable' := (splitVariable?_append hafter).trans (congrArg (Option.map _) noVariable)
    have hread := hnumber.trans (congrArg (Option.map _) isRead)
    exact ⟨_, (Lexeme.number noQuote (hgroup noGroup) noVariable' noDollar hread).read_eq,
      consume_append .number (fun _ _ => rfl) ⟨_, (splitNumber?_eq isRead).2⟩ _ _⟩
  | word noQuote noGroup noVariable noDollar noNumber isRead =>
    rw [← hhead] at noQuote noDollar
    have noVariable' := (splitVariable?_append hafter).trans (congrArg (Option.map _) noVariable)
    have noNumber' := hnumber.trans (congrArg (Option.map _) noNumber)
    have hread := (splitWord?_append_iff (hword rfl)).2 isRead
    exact ⟨_, (Lexeme.word noQuote (hgroup noGroup) noVariable' noDollar noNumber' hread).read_eq,
      consume_append .bareword (fun _ _ => rfl) ⟨_, (splitWord?_eq isRead).2⟩ _ _⟩

end Atom

end Script
end KeywordScope
