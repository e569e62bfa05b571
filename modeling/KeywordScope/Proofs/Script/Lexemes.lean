import KeywordScope.Proofs.Script.Placed
import KeywordScope.Proofs.Script.Written

/-!
# Lexemes within a source

What is read from a text that stands within a source, and from the text alone.

* `Atom.splitWord?_append_iff`, `Atom.splitVariable?_append`, `Atom.splitNumber?_append`: words,
  variables and numbers, which go on as far as their characters do.
* `Quoted.read?_append`, `Quoted.read?_of_append`: strings, which end at their quotes.
* `Group.read?_placed`: groups, which end at their delimiters.
* `Atom.read_placed`: an atom of the source that ends within the text is one of the text.
-/

namespace KeywordScope
namespace Script

variable {bytes : Nat} {after : List Char} {c d : Cursor}

/-! ## Lexemes -/

theorem splitRun?_closing (cs : List Char) {p : Char → Bool}
    (h : ∀ x ∈ after.head?, p x = false) :
    Atom.splitRun? p (cs ++ after) =
      (Atom.splitRun? p cs).map fun read => (read.1, read.2 ++ after) := by
  have hrun : ∀ cs : List Char, (cs ++ after).takeWhile p = cs.takeWhile p ∧
      (cs ++ after).dropWhile p = cs.dropWhile p ++ after := by
    intro cs
    induction cs with
    | nil =>
      rcases after with _ | ⟨x, after⟩
      · exact ⟨rfl, rfl⟩
      · have hx := h x rfl
        simp [hx]
    | cons x cs ih =>
      by_cases hx : p x = true
      · simp [hx, ih]
      · simp [hx]
  rcases cs with _ | ⟨x, cs⟩
  · rcases after with _ | ⟨x, after⟩
    · rfl
    · simp [Atom.splitRun?, h x rfl]
  · rw [List.cons_append, Atom.splitRun?, Atom.splitRun?]
    split
    · rw [(hrun cs).1, (hrun cs).2]
      rfl
    · rfl

/-- A run that does not end behind the text is one of the text. -/
theorem splitRun?_append_iff {p : Char → Bool} {cs taken rest : List Char}
    (hend : rest = [] → ∀ x ∈ after.head?, p x = false) :
    Atom.splitRun? p (cs ++ after) = some (taken, rest ++ after) ↔
      Atom.splitRun? p cs = some (taken, rest) := by
  constructor
  · intro h
    obtain ⟨hne, htaken⟩ := Atom.splitRun?_eq h
    rw [← List.append_assoc] at htaken
    rw [← List.append_cancel_right htaken]
    refine Atom.splitRun?_append hne (splitRun?_all h) fun x hx => splitRun?_head h x ?_
    exact List.mem_head?_append_of_mem_head? hx
  · intro h
    obtain ⟨hne, rfl⟩ := Atom.splitRun?_eq h
    rw [List.append_assoc]
    refine Atom.splitRun?_append hne (splitRun?_all h) ?_
    rcases rest with _ | ⟨y, rest⟩
    · exact hend rfl
    · exact fun x hx => splitRun?_head h x hx

/-- Blanks are no digits. -/
theorem isDigit_of_isBlank (x : Char) (h : isBlank x = true) : x.isDigit = false := by
  rw [Bool.eq_false_iff]
  intro hdigit
  rw [isBlank_of_isWordChar (isWordChar_of_isAlphanum (by rw [Char.isAlphanum, hdigit,
    Bool.or_true]))] at h
  cases h

open UnicodeData in
theorem wideBlanks_no_number : wideBlanks.all (fun n => !covers otherNumber n) = true := by
  decide +kernel

theorem isAlphanumeric_of_isBlank {x : Char} (h : isBlank x = true) : isAlphanumeric x = false := by
  unfold isAlphanumeric
  split
  · next hcode =>
    rw [Bool.eq_false_iff]
    intro halnum
    rw [isBlank_of_isWordChar (isWordChar_of_isAlphanum halnum)] at h
    cases h
  · next hcode =>
    have hmem := mem_wideBlanks h hcode
    have hnumber := List.all_eq_true.1 wideBlanks_no_number _ hmem
    have hother := List.all_eq_true.1 wideBlanks_not_covered _ hmem
    simp only [Bool.not_eq_true', Bool.or_eq_false_iff] at hnumber hother ⊢
    exact ⟨⟨hother.1.1.1.1, hother.1.1.2⟩, hnumber⟩

theorem isVariablePart_of_isBlank (x : Char) (h : isBlank x = true) :
    Atom.isVariablePart x = false := by
  have hne : ∀ y : Char, isBlank y = false → (x == y) = false :=
    fun y hy => beq_eq_false_iff_ne.2 (ne_of_class h hy)
  rw [Atom.isVariablePart, isAlphanumeric_of_isBlank h, hne '_' rfl, hne ':' rfl, hne '?' rfl]
  rfl

theorem isWordPart_of_isBlank (x : Char) (h : isBlank x = true) : Atom.isWordPart x = false := by
  simp only [Atom.isWordPart, h, Bool.not_true, Bool.false_and]

theorem Closing.endsWord (h : Closing after) : EndsWord after := by
  have hother : ['}', ';'].any Atom.isWordPart = false := by decide
  exact fun x hx => (h x hx).elim (isWordPart_of_isBlank x) (eq_false_of_mem hother)

namespace Atom

variable {cs taken rest : List Char}

theorem splitVariable?_all (h : splitVariable? cs = some (taken, rest)) :
    ∀ x ∈ taken, isVariablePart x = true := by
  unfold splitVariable? at h
  split at h
  · exact splitRun?_all h
  · cases h

theorem splitWord?_all (h : splitWord? cs = some (taken, rest)) :
    ∀ x ∈ taken, isWordPart x = true := by
  unfold splitWord? at h
  split at h
  · cases h
  · exact splitRun?_all h

theorem splitWord?_head (h : splitWord? cs = some (taken, rest)) : EndsWord rest := by
  unfold splitWord? at h
  split at h
  · cases h
  · exact splitRun?_head h

theorem splitVariable?_append (hafter : Parting after) :
    splitVariable? (cs ++ after) =
      (splitVariable? cs).map fun read => (read.1, read.2 ++ after) := by
  have hother : ∀ {cs : List Char}, (∀ rest, cs ≠ '$' :: rest) → splitVariable? cs = none := by
    intro cs hcs
    unfold splitVariable?
    split
    · next rest => exact absurd rfl (hcs rest)
    · rfl
  rcases hafter.front_cases cs (by decide : isBlank '$' = false) (by decide) with
    ⟨rest, rfl⟩ | ⟨hcs, hall⟩
  · exact splitRun?_closing rest (hafter.not isVariablePart_of_isBlank (by decide))
  · rw [hother hall, hother hcs]
    rfl

/-- A word of the source that does not end behind the text is one of the text. -/
theorem splitWord?_append_iff (hend : rest = [] → EndsWord after) :
    splitWord? (cs ++ after) = some (taken, rest ++ after) ↔
      splitWord? cs = some (taken, rest) := by
  rcases cs with _ | ⟨x, cs⟩
  · refine ⟨fun h => ?_, nofun⟩
    have hlt := splitWord?_shorter h
    rw [List.nil_append, List.length_append] at hlt
    omega
  · by_cases hx : x = '#'
    · subst hx
      exact ⟨nofun, nofun⟩
    · have hword : ∀ more, splitWord? (x :: more) = splitRun? isWordPart (x :: more) := by
        intro more
        unfold splitWord?
        split
        · next heq => exact absurd (List.cons.inj heq).1 hx
        · rfl
      rw [List.cons_append, hword, hword, ← List.cons_append]
      exact splitRun?_append_iff hend

theorem splitSign_append (hafter : Parting after) :
    splitSign (cs ++ after) = ((splitSign cs).1, (splitSign cs).2 ++ after) := by
  have hother : ∀ {cs : List Char}, (∀ rest, cs ≠ '-' :: rest) → splitSign cs = ([], cs) := by
    intro cs hcs
    unfold splitSign
    split
    · next rest => exact absurd rfl (hcs rest)
    · rfl
  rcases hafter.front_cases cs (by decide : isBlank '-' = false) (by decide) with
    ⟨rest, rfl⟩ | ⟨hcs, hall⟩
  · rfl
  · rw [hother hall, hother hcs]

theorem splitFraction_append (hafter : Parting after) :
    splitFraction (cs ++ after) = ((splitFraction cs).1, (splitFraction cs).2 ++ after) := by
  have hother : ∀ {cs : List Char}, (∀ rest, cs ≠ '.' :: rest) → splitFraction cs = ([], cs) := by
    intro cs hcs
    unfold splitFraction
    split
    · next rest => exact absurd rfl (hcs rest)
    · rfl
  rcases hafter.front_cases cs (by decide : isBlank '.' = false) (by decide) with
    ⟨rest, rfl⟩ | ⟨hcs, hall⟩
  · rw [List.cons_append, splitFraction, splitFraction,
      splitRun?_closing rest (hafter.not isDigit_of_isBlank (by decide))]
    rcases splitRun? Char.isDigit rest with _ | ⟨digits, rest⟩
    · rfl
    · rfl
  · rw [hother hall, hother hcs]

/-- Where a number may end in the source, it may end in the text. -/
theorem endsNumber_of_append (hseam : Seam cs after) (h : endsNumber (cs ++ after) = true) :
    endsNumber cs = true := by
  rcases cs with _ | ⟨x, cs⟩
  · rfl
  rw [List.cons_append] at h
  unfold endsNumber at h
  split at h
  · next heq => cases heq
  · next heq =>
    obtain ⟨rfl, hmore⟩ := List.cons.inj heq
    obtain ⟨more, rfl⟩ := hseam.newline_eq hmore
    rfl
  · next heq =>
    obtain ⟨rfl, hmore⟩ := List.cons.inj heq
    obtain ⟨more, rfl⟩ := hseam.carriageReturn_eq hmore
    rfl
  · next heq =>
    obtain ⟨rfl, -⟩ := List.cons.inj heq
    unfold endsNumber
    split
    · rfl
    · rfl
    · rfl
    · next heq =>
      obtain ⟨rfl, -⟩ := List.cons.inj heq
      exact h

/-- Where a number may end in the text, it may end in the source, if what follows the text ends
one. -/
theorem endsNumber_append (hend : cs = [] → endsNumber after = true) (h : endsNumber cs = true) :
    endsNumber (cs ++ after) = true := by
  unfold endsNumber at h
  split at h
  · exact hend rfl
  · rfl
  · rfl
  · rw [List.cons_append]
    unfold endsNumber
    split
    · rfl
    · rfl
    · rfl
    · next heq =>
      obtain ⟨rfl, -⟩ := List.cons.inj heq
      exact h

/-- What follows the digits and the fraction of a number. -/
theorem suffix_of_splitRun? {digits : List Char}
    (h : splitRun? Char.isDigit (splitSign cs).2 = some (digits, rest)) :
    (splitFraction rest).2 <:+ cs := by
  have hsign := splitSign_eq cs
  have hdigits := (splitRun?_eq h).2
  have hfraction := splitFraction_eq rest
  refine ⟨(splitSign cs).1 ++ digits ++ (splitFraction rest).1, ?_⟩
  rw [List.append_assoc, hfraction, List.append_assoc, hdigits, hsign]

/-- The number at the front of a source is that of the text, if it may end there. -/
theorem splitNumber?_append (hafter : Parting after) :
    splitNumber? (cs ++ after) =
      match splitRun? Char.isDigit (splitSign cs).2 with
      | none => none
      | some (digits, rest) =>
        if endsNumber ((splitFraction rest).2 ++ after) then
          some ((splitSign cs).1 ++ digits ++ (splitFraction rest).1,
            (splitFraction rest).2 ++ after)
        else none := by
  rw [splitNumber?, splitSign_append hafter,
    splitRun?_closing _ (hafter.not isDigit_of_isBlank (by decide))]
  rcases splitRun? Char.isDigit (splitSign cs).2 with _ | ⟨digits, rest⟩
  · rfl
  · simp only [Option.map_some, splitFraction_append hafter]

/-- In front of what ends a number, the number of a source is that of the text. -/
theorem splitNumber?_append_of_ends (hafter : Parting after) (hseam : Seam cs after)
    (hends : endsNumber after = true) :
    splitNumber? (cs ++ after) = (splitNumber? cs).map fun read => (read.1, read.2 ++ after) := by
  rw [splitNumber?_append hafter, splitNumber?]
  rcases hrun : splitRun? Char.isDigit (splitSign cs).2 with _ | ⟨digits, rest⟩
  · rfl
  have hsame : endsNumber ((splitFraction rest).2 ++ after) = endsNumber (splitFraction rest).2 :=
    Bool.eq_iff_iff.2 ⟨endsNumber_of_append (hseam.of_suffix (suffix_of_splitRun? hrun)),
      endsNumber_append fun _ => hends⟩
  dsimp only
  rw [hsame]
  split
  · rfl
  · rfl

theorem splitNumber?_of_append (hafter : Parting after) (hseam : Seam cs after)
    (h : splitNumber? (cs ++ after) = some (taken, rest)) :
    ∃ rest', rest = rest' ++ after ∧ splitNumber? cs = some (taken, rest') := by
  rw [splitNumber?_append hafter] at h
  split at h
  · cases h
  next digits more hrun =>
  split at h
  · next hends =>
    cases h
    refine ⟨_, rfl, ?_⟩
    rw [splitNumber?, hrun]
    exact if_pos (endsNumber_of_append (hseam.of_suffix (suffix_of_splitRun? hrun)) hends)
  · cases h

theorem isWordPart_of_isDigit {x : Char} (h : x.isDigit = true) : isWordPart x = true := by
  apply isWordPart_of_isWordChar
  apply isWordChar_of_isAlphanum
  rw [Char.isAlphanum, h, Bool.or_true]

/-- The characters of a number may stand in a word. -/
theorem isWordPart_of_splitNumber? (h : splitNumber? cs = some (taken, rest)) :
    ∀ x ∈ taken, isWordPart x = true := by
  have hrun : ∀ {cs taken rest : List Char}, splitRun? Char.isDigit cs = some (taken, rest) →
      ∀ x ∈ taken, isWordPart x = true := fun h x hx => isWordPart_of_isDigit (splitRun?_all h x hx)
  have hsign : ∀ x ∈ (splitSign cs).1, isWordPart x = true := by
    unfold splitSign
    split
    · simp [isWordPart, isBlank]
    · simp
  have hfraction : ∀ more, ∀ x ∈ (splitFraction more).1, isWordPart x = true := by
    intro more
    unfold splitFraction
    split
    · split
      · next hdigits => exact List.forall_mem_cons.2 ⟨rfl, hrun hdigits⟩
      · simp
    · simp
  unfold splitNumber? at h
  split at h
  · cases h
  next digits more hdigits =>
  split at h
  · cases h
    intro x hx
    rcases List.mem_append.1 hx with hx | hx
    · rcases List.mem_append.1 hx with hx | hx
      · exact hsign x hx
      · exact hrun hdigits x hx
    · exact hfraction more x hx
  · cases h

/-- A word goes on as long as characters of words come. -/
theorem rest_eq_of_splitWord? {word : List Char} (hcs : cs ≠ [])
    (hall : ∀ x ∈ cs, isWordPart x = true) (h : splitWord? cs = some (word, rest)) : rest = [] := by
  unfold splitWord? at h
  split at h
  · cases h
  unfold splitRun? at h
  split at h
  · next x more _ =>
    have hmore : more.dropWhile isWordPart = [] :=
      List.dropWhile_eq_nil_iff.2 fun y hy => hall y (List.mem_cons_of_mem _ hy)
    split at h
    · cases h
      exact hmore
    · cases h
  · cases h

/-- Where the source has a word, the text has no number, if a number might end in front of what
follows a word at the end of the text. -/
theorem splitNumber?_eq_none {word rest : List Char} (hafter : Parting after)
    (hnone : splitNumber? (cs ++ after) = none) (hword : splitWord? cs = some (word, rest))
    (hend : rest = [] → endsNumber after = true) : splitNumber? cs = none := by
  rcases hnumber : splitNumber? cs with _ | ⟨taken, more⟩
  · rfl
  exfalso
  have hall := isWordPart_of_splitNumber? hnumber
  obtain ⟨hne, htaken⟩ := splitNumber?_eq hnumber
  have hmore : more = [] → endsNumber after = true := by
    rintro rfl
    rw [List.append_nil] at htaken
    subst htaken
    exact hend (rest_eq_of_splitWord? hne hall hword)
  rw [splitNumber?_append hafter] at hnone
  rw [splitNumber?] at hnumber
  split at hnumber
  · cases hnumber
  next digits more' hrun =>
  split at hnumber
  · next hends =>
    cases hnumber
    simp only [hrun, endsNumber_append hmore hends, if_true] at hnone
    cases hnone
  · cases hnumber

end Atom

/-! ## Strings -/

namespace Quoted

variable {cs value rest : List Char}

theorem readDouble?_plain {x : Char} (hquote : x ≠ '\x22') (hescape : x ≠ '\x60')
    (cs : List Char) :
    readDouble? (x :: cs) = (readDouble? cs).map fun (value, rest) => (x :: value, rest) := by
  rw [readDouble?]
  · exact fun _ h => absurd h hquote
  · exact hquote
  · exact fun _ _ h => absurd h hescape
  · exact fun h => absurd h hescape

theorem readSingle?_plain {x : Char} (hquote : x ≠ '\x27') (cs : List Char) :
    readSingle? (x :: cs) = (readSingle? cs).map fun (value, rest) => (x :: value, rest) := by
  rw [readSingle?]
  · exact fun _ h => absurd h hquote
  · exact hquote

/-- A quote ends its string, unless another one follows. -/
theorem readDouble?_quote (h : ∀ more, cs ≠ '\x22' :: more) :
    readDouble? ('\x22' :: cs) = some ([], cs) := by
  rw [readDouble?]
  exact h

theorem readSingle?_quote (h : ∀ more, cs ≠ '\x27' :: more) :
    readSingle? ('\x27' :: cs) = some ([], cs) := by
  rw [readSingle?]
  exact h

/-- A string of the text is one of the source, if what follows the text begins with no quote. -/
theorem readDouble?_append (hafter : ∀ more, after ≠ '\x22' :: more)
    (h : readDouble? cs = some (value, rest)) :
    readDouble? (cs ++ after) = some (value, rest ++ after) := by
  fun_induction readDouble? cs generalizing value rest with
  | case1 | case5 => cases h
  | case2 cs ih | case4 x cs ih =>
    obtain ⟨⟨value', rest'⟩, hread, heq⟩ := Option.map_eq_some_iff.1 h
    cases heq
    show (readDouble? (cs ++ after)).map _ = _
    rw [ih hread]
    rfl
  | case3 cs hcs =>
    cases h
    exact readDouble?_quote (append_ne_cons hcs hafter)
  | case6 x cs _ hquote hescape hlast ih =>
    obtain ⟨⟨value', rest'⟩, hread, heq⟩ := Option.map_eq_some_iff.1 h
    cases heq
    have hplain : x ≠ '\x60' := by
      rintro rfl
      rcases cs with _ | ⟨y, cs⟩
      · exact hlast rfl rfl
      · exact hescape y cs rfl rfl
    rw [List.cons_append, readDouble?_plain hquote hplain, ih hread]
    rfl

theorem readSingle?_append (hafter : ∀ more, after ≠ '\x27' :: more)
    (h : readSingle? cs = some (value, rest)) :
    readSingle? (cs ++ after) = some (value, rest ++ after) := by
  fun_induction readSingle? cs generalizing value rest with
  | case1 => cases h
  | case2 cs ih =>
    obtain ⟨⟨value', rest'⟩, hread, heq⟩ := Option.map_eq_some_iff.1 h
    cases heq
    show (readSingle? (cs ++ after)).map _ = _
    rw [ih hread]
    rfl
  | case3 cs hcs =>
    cases h
    exact readSingle?_quote (append_ne_cons hcs hafter)
  | case4 x cs _ hquote ih =>
    obtain ⟨⟨value', rest'⟩, hread, heq⟩ := Option.map_eq_some_iff.1 h
    cases heq
    rw [List.cons_append, readSingle?_plain hquote, ih hread]
    rfl

theorem read?_append (hafter : Parting after) (h : read? cs = some (value, rest)) :
    read? (cs ++ after) = some (value, rest ++ after) := by
  unfold read? at h
  split at h
  · exact readDouble?_append (hafter.head_ne rfl (by decide)) h
  · exact readSingle?_append (hafter.head_ne rfl (by decide)) h
  · cases h

/-- A string that begins behind the text ends there. -/
theorem not_read_behind {read? : List Char → Option (List Char × List Char)} {more : List Char}
    (hshorter : ∀ {cs value rest : List Char}, read? cs = some (value, rest) →
      rest.length < cs.length) (hmore : more <:+ after) :
    read? more ≠ some (value, rest ++ after) := by
  intro h
  have hlt := hshorter h
  have hle := hmore.length_le
  rw [List.length_append] at hlt
  omega

/-- A string of the source that does not end behind the text is one of the text. -/
theorem readDouble?_of_append (hafter : ∀ more, after ≠ '\x22' :: more)
    (h : readDouble? (cs ++ after) = some (value, rest ++ after)) :
    readDouble? cs = some (value, rest) := by
  fun_induction readDouble? cs generalizing value with
  | case1 => exact absurd h (not_read_behind readDouble?_shorter (List.suffix_refl _))
  | case2 cs ih | case4 x cs ih =>
    obtain ⟨⟨value', rest'⟩, hread, heq⟩ := Option.map_eq_some_iff.1 h
    cases heq
    rw [ih hread]
    rfl
  | case3 cs hcs =>
    rw [List.cons_append, readDouble?_quote (append_ne_cons hcs hafter), Option.some.injEq,
      Prod.mk.injEq, List.append_left_inj] at h
    rw [h.1, h.2]
  | case5 =>
    rcases after with _ | ⟨x, more⟩
    · cases h
    · obtain ⟨⟨value', rest'⟩, hread, heq⟩ := Option.map_eq_some_iff.1 h
      cases heq
      exact absurd hread (not_read_behind readDouble?_shorter (List.suffix_cons _ _))
  | case6 x cs _ hquote hescape hlast ih =>
    have hplain : x ≠ '\x60' := by
      rintro rfl
      rcases cs with _ | ⟨y, cs⟩
      · exact hlast rfl rfl
      · exact hescape y cs rfl rfl
    rw [List.cons_append, readDouble?_plain hquote hplain] at h
    obtain ⟨⟨value', rest'⟩, hread, heq⟩ := Option.map_eq_some_iff.1 h
    cases heq
    rw [ih hread]
    rfl

theorem readSingle?_of_append (hafter : ∀ more, after ≠ '\x27' :: more)
    (h : readSingle? (cs ++ after) = some (value, rest ++ after)) :
    readSingle? cs = some (value, rest) := by
  fun_induction readSingle? cs generalizing value with
  | case1 => exact absurd h (not_read_behind readSingle?_shorter (List.suffix_refl _))
  | case2 cs ih =>
    obtain ⟨⟨value', rest'⟩, hread, heq⟩ := Option.map_eq_some_iff.1 h
    cases heq
    rw [ih hread]
    rfl
  | case3 cs hcs =>
    rw [List.cons_append, readSingle?_quote (append_ne_cons hcs hafter), Option.some.injEq,
      Prod.mk.injEq, List.append_left_inj] at h
    rw [h.1, h.2]
  | case4 x cs _ hquote ih =>
    rw [List.cons_append, readSingle?_plain hquote] at h
    obtain ⟨⟨value', rest'⟩, hread, heq⟩ := Option.map_eq_some_iff.1 h
    cases heq
    rw [ih hread]
    rfl

theorem read?_of_append (hafter : Parting after) (hcs : cs ≠ [])
    (h : read? (cs ++ after) = some (value, rest ++ after)) : read? cs = some (value, rest) := by
  rcases cs with _ | ⟨x, cs⟩
  · exact absurd rfl hcs
  rw [List.cons_append] at h
  unfold read? at h
  split at h
  · next heq =>
    obtain ⟨rfl, rfl⟩ := List.cons.inj heq
    exact readDouble?_of_append (hafter.head_ne rfl (by decide)) h
  · next heq =>
    obtain ⟨rfl, rfl⟩ := List.cons.inj heq
    exact readSingle?_of_append (hafter.head_ne rfl (by decide)) h
  · cases h

/-- A string of the source that begins in the text and does not end behind it is one of the text. -/
theorem read?_within (hafter : Parting after) (hcs : cs ≠ [])
    (h : read? (cs ++ after) = some (value, rest)) (hlength : after.length ≤ rest.length) :
    ∃ rest', read? cs = some (value, rest') := by
  obtain ⟨rest', rfl⟩ : after <:+ rest :=
    List.suffix_of_suffix_length_le (List.suffix_append cs after) (read?_suffix h) hlength
  exact ⟨rest', read?_of_append hafter hcs h⟩

end Quoted

/-! ## Groups -/

namespace Group

/-- A group of the source that does not end behind the text is one of the text. -/
theorem close_placed (hafter : Parting after) {inner : Char} {outer : List Char}
    (h : close inner outer (c.placed bytes after) = .ok (d.placed bytes after)) :
    close inner outer c = .ok d := by
  have hshort : ∀ {inner outer} {e : Cursor}, close inner outer e = .ok (d.placed bytes after) →
      after.length < e.rest.length := by
    intro inner outer e h
    have hlt := close_shorter h
    rw [Cursor.placed_rest, List.length_append] at hlt
    omega
  have hseek : ∀ {e : Cursor} {x rest}, e.rest = x :: rest →
      (e.placed bytes after).seek (rest ++ after) = (e.seek rest).placed bytes after :=
    fun hrest => Cursor.seek_placed (hrest ▸ List.suffix_cons _ _)
  fun_induction close inner outer c with
  | case1 inner outer c hrest =>
    have hlt := hshort h
    rw [Cursor.placed_rest, hrest] at hlt
    exact absurd hlt (Nat.lt_irrefl _)
  | case2 c x rest hrest hcloser =>
    rw [close_eq] at h
    simp only [Cursor.placed_rest, hrest, List.cons_append, hcloser, if_true, closed,
      hseek hrest] at h
    rw [Cursor.placed_inj.1 (Except.ok.inj h)]
  | case3 c x rest hrest hcloser next outer ih =>
    rw [close_eq] at h
    simp only [Cursor.placed_rest, hrest, List.cons_append, hcloser, if_true, closed,
      hseek hrest] at h
    exact ih h
  | case4 inner outer c x rest hrest hcloser hother =>
    rw [close_eq] at h
    simp only [Cursor.placed_rest, hrest, List.cons_append, hcloser, if_true, closed, hother,
      if_false] at h
    cases h
  | case5 inner outer c x rest hrest hcloser inner' hopener ih =>
    rw [close_eq] at h
    simp only [Cursor.placed_rest, hrest, List.cons_append, hcloser, hopener, hseek hrest] at h
    exact ih h
  | case6 inner outer c x rest hrest hcloser hopener value rest' hs _ ih =>
    have hstring := Quoted.read?_append hafter hs
    rw [List.cons_append] at hstring
    rw [close_eq] at h
    simp only [Cursor.placed_rest, hrest, List.cons_append, hcloser, hopener, hstring] at h
    rw [Cursor.seek_placed (hrest ▸ Quoted.read?_suffix hs)] at h
    exact ih h
  | case7 inner outer c x rest hrest hcloser hopener hs ih =>
    rw [close_eq] at h
    simp only [Cursor.placed_rest, hrest, List.cons_append, hcloser, hopener] at h
    rcases hstring : Quoted.read? (x :: (rest ++ after)) with _ | ⟨value, rest'⟩
    · simp only [hstring, hseek hrest] at h
      exact ih h
    · -- The group ends in the text, and so does a string in it, which is none.
      exfalso
      simp only [hstring] at h
      have hlt := hshort h
      rw [Cursor.seek_rest] at hlt
      obtain ⟨_, hread⟩ :=
        Quoted.read?_within hafter (List.cons_ne_nil x rest) hstring (Nat.le_of_lt hlt)
      rw [hs] at hread
      cases hread

/-- A group that begins with the characters `opening` of the text. -/
private theorem close_seek_placed (opening : List Char) (hafter : Parting after)
    {rest : List Char} {inner : Char} {isTable isTable' : Bool} (hrest : c.rest = opening ++ rest)
    (h : some (isTable, close inner [] ((c.placed bytes after).seek (rest ++ after))) =
      some (isTable', .ok (d.placed bytes after))) :
    some (isTable, close inner [] (c.seek rest)) = some (isTable', .ok d) := by
  rw [Cursor.seek_placed (hrest ▸ List.suffix_append _ _)] at h
  obtain ⟨rfl, hclose⟩ := Prod.mk.inj (Option.some.inj h)
  rw [close_placed hafter hclose]

/-- The group at the front of a source is that of the text, if it ends there. -/
theorem read?_placed (hafter : Parting after) (hc : c.rest ≠ []) {isTable : Bool}
    (h : read? (c.placed bytes after) = some (isTable, .ok (d.placed bytes after))) :
    read? c = some (isTable, .ok d) := by
  unfold read? at h ⊢
  rw [Cursor.placed_rest] at h
  rcases hrest : c.rest with _ | ⟨x, cs⟩
  · exact absurd hrest hc
  rw [hrest, List.cons_append] at h
  split at h
  · next rest heq =>
    obtain ⟨rfl, hmore⟩ := List.cons.inj heq
    obtain ⟨rest, rfl, rfl⟩ := hafter.cons_eq rfl (by decide) hmore
    exact close_seek_placed ['@', '{'] hafter hrest h
  · next rest heq =>
    obtain ⟨rfl, hmore⟩ := List.cons.inj heq
    obtain ⟨rest, rfl, rfl⟩ := hafter.cons_eq rfl (by decide) hmore
    exact close_seek_placed ['@', '('] hafter hrest h
  · next rest heq =>
    obtain ⟨rfl, hmore⟩ := List.cons.inj heq
    obtain ⟨rest, rfl, rfl⟩ := hafter.cons_eq rfl (by decide) hmore
    exact close_seek_placed ['$', '('] hafter hrest h
  · next rest heq =>
    obtain ⟨rfl, rfl⟩ := List.cons.inj heq
    exact close_seek_placed ['('] hafter hrest h
  · cases h

theorem read?_eq_none (h : read? (c.placed bytes after) = none) : read? c = none := by
  unfold read? at h ⊢
  rw [Cursor.placed_rest] at h
  split
  all_goals
    try
      next hrest =>
      rw [hrest] at h
      cases h
  rfl

end Group

/-! ## Atoms -/

namespace Atom

variable {taken rest : List Char}

/-- What splits off the same in front of something else leaves that, too. -/
theorem of_map_append {read? : Option (List Char × List Char)}
    (h : (read?.map fun read => (read.1, read.2 ++ after)) = some (taken, rest ++ after)) :
    read? = some (taken, rest) := by
  obtain ⟨⟨taken', rest'⟩, hread, heq⟩ := Option.map_eq_some_iff.1 h
  obtain ⟨rfl, hrest⟩ := Prod.mk.inj heq
  obtain rfl : rest' = rest := List.append_cancel_right hrest
  exact hread

/-- What is taken of the source is taken of the text. -/
theorem consume_placed (element : String → Span → Element)
    (helement : ∀ text span, element text (span.shift bytes) = (element text span).shift bytes)
    (hd : d.rest <:+ c.rest) (shorter : d.rest.length < c.rest.length)
    {shorter' : (d.rest ++ after).length < (c.placed bytes after).rest.length}
    (hnext : (consume (c.placed bytes after) (d.rest ++ after) shorter' element).next =
      d.placed bytes after) :
    (consume (c.placed bytes after) (d.rest ++ after) shorter' element).value =
        (consume c d.rest shorter element).value.shift bytes ∧
      (consume c d.rest shorter element).next = d := by
  obtain ⟨taken, htaken⟩ := hd
  have hplace : (c.placed bytes after).seek (d.rest ++ after) = d.placed bytes after := hnext
  have hseek : c.seek d.rest = d := by
    rw [Cursor.seek_placed ⟨taken, htaken⟩] at hplace
    exact Cursor.placed_inj.1 hplace
  refine ⟨?_, hseek⟩
  show element ((c.placed bytes after).textTo ((c.placed bytes after).seek (d.rest ++ after)))
    ((c.placed bytes after).spanTo ((c.placed bytes after).seek (d.rest ++ after))) =
      (element (c.textTo (c.seek d.rest)) (c.spanTo (c.seek d.rest))).shift bytes
  rw [hplace, Cursor.textTo_placed (hseek ▸ Cursor.passes_seek htaken.symm), Cursor.spanTo_placed,
    hseek]
  exact helement _ _

/-- An atom of the source that ends within the text is one of the text. -/
theorem read_placed (hafter : Parting after) (hseam : Seam c.rest after)
    (hend : d.rest = [] → endsNumber after = true) {read : Consumed Element (c.placed bytes after)}
    (hword : read.value.isBareword = true → d.rest = [] → EndsWord after)
    (h : Atom.read (c.placed bytes after) = .ok read) (hnext : read.next = d.placed bytes after) :
    ∃ read', Atom.read c = .ok read' ∧ read.value = read'.value.shift bytes ∧ read'.next = d := by
  have hne : c.rest ≠ [] := Cursor.ne_nil_of_shorter (hnext ▸ read.shorter)
  have hhead : (c.placed bytes after).rest.head? = c.rest.head? := Cursor.head?_placed hne
  have hrest : ∀ {rest shorter element},
      (consume (c.placed bytes after) rest shorter element).next = d.placed bytes after →
        rest = d.rest ++ after := congrArg Cursor.rest
  have hlexeme := lexeme_of_read h
  cases hlexeme with
  | quoted isQuote isRead =>
    obtain rfl := hrest hnext
    have hread := Quoted.read?_of_append hafter hne isRead
    rw [hhead] at isQuote
    exact ⟨_, (Lexeme.quoted isQuote hread).read_eq,
      consume_placed _ (fun _ _ => rfl) (Quoted.read?_suffix hread) _ hnext⟩
  | @group isTable e noQuote isRead =>
    rw [hhead] at noQuote
    obtain ⟨taken, htaken⟩ := Group.passes_read? isRead
    obtain rfl : e = d.placed bytes after := htaken.seek_eq.symm.trans hnext
    have hread := Group.read?_placed hafter hne isRead
    obtain ⟨taken', htaken'⟩ := Group.passes_read? hread
    refine ⟨_, (Lexeme.group noQuote hread).read_eq,
      consume_placed _ (fun _ _ => ?_) ⟨taken', htaken'.rest_eq.symm⟩ _ hnext⟩
    cases isTable with
    | true => rfl
    | false => rfl
  | named noQuote noGroup isRead =>
    obtain rfl := hrest hnext
    rw [hhead] at noQuote
    have hread := of_map_append ((splitVariable?_append hafter).symm.trans isRead)
    exact ⟨_, (Lexeme.named noQuote (Group.read?_eq_none noGroup) hread).read_eq,
      consume_placed _ (fun _ _ => rfl) ⟨_, (splitVariable?_eq hread).2⟩ _ hnext⟩
  | number noQuote noGroup noVariable noDollar isRead =>
    obtain rfl := hrest hnext
    rw [hhead] at noQuote noDollar
    obtain ⟨rest, heq, hread⟩ := splitNumber?_of_append hafter hseam isRead
    obtain rfl := List.append_cancel_right heq
    rw [Cursor.placed_rest, splitVariable?_append hafter, Option.map_eq_none_iff] at noVariable
    exact ⟨_, (Lexeme.number noQuote (Group.read?_eq_none noGroup) noVariable noDollar
      hread).read_eq, consume_placed _ (fun _ _ => rfl) ⟨_, (splitNumber?_eq hread).2⟩ _ hnext⟩
  | word noQuote noGroup noVariable noDollar noNumber isRead =>
    obtain rfl := hrest hnext
    rw [hhead] at noQuote noDollar
    have hread := (splitWord?_append_iff (hword rfl)).1 isRead
    rw [Cursor.placed_rest, splitVariable?_append hafter, Option.map_eq_none_iff] at noVariable
    have noNumber' := splitNumber?_eq_none hafter noNumber hread hend
    exact ⟨_, (Lexeme.word noQuote (Group.read?_eq_none noGroup) noVariable noDollar noNumber'
      hread).read_eq, consume_placed _ (fun _ _ => rfl) ⟨_, (splitWord?_eq hread).2⟩ _ hnext⟩

end Atom

end Script
end KeywordScope
