import KeywordScope.Proofs.Script.Lexemes

/-!
# Texts in small letters

The readers find the same in a text with its letters made small: everything they look for is told by
characters that are no letters, or by classes that have all letters or none.

* `Cursor.folded`: the same place in the text in small letters.
* `Cursor.skipInline_folded`, `Cursor.skipSeparators_folded`: gaps.
* `Quoted.snd_read?_folded`, `Group.close_folded`, `Atom.splitNumber?_folded`, …: where the parts of
  elements end.
* `assignment?_folded`, `pipe?_folded`: assigned values and stages.
-/

namespace KeywordScope

/-! ## Small letters -/

theorem map_toLower_eq_cons {d : Char} (hd : d.isAlpha = false) {cs rest : List Char}
    (h : cs.map Char.toLower = d :: rest) :
    ∃ own, cs = d :: own ∧ own.map Char.toLower = rest := by
  obtain ⟨c, own, rfl, hc, hrest⟩ := List.map_eq_cons_iff.1 h
  exact ⟨own, by rw [(toLower_eq_iff hd).1 hc], hrest⟩

/-- The text begins with a character that is no letter just if it does in small letters. -/
theorem front_cases_toLower (cs : List Char) {x : Char} (hx : x.isAlpha = false) :
    (∃ rest, cs = x :: rest) ∨
      (∀ rest, cs ≠ x :: rest) ∧ ∀ rest, cs.map Char.toLower ≠ x :: rest := by
  by_cases h : ∃ rest, cs = x :: rest
  · exact .inl h
  · refine .inr ⟨not_exists.1 h, fun rest heq => h ?_⟩
    obtain ⟨own, hcs, -⟩ := map_toLower_eq_cons hx heq
    exact ⟨own, hcs⟩

theorem utf8Size_toLower (c : Char) : c.toLower.utf8Size = c.utf8Size := by
  by_cases h : c.isAlpha = true
  · have hsmall : ∀ d : Char, d.isAlpha = true → d.utf8Size = 1 := by
      intro d hd
      rw [isAlpha_iff] at hd
      have hcode : d.toNat ≤ 127 := by omega
      exact Char.utf8Size_eq_one_iff.2 hcode
    rw [hsmall c h, hsmall _ (by rw [isAlpha_toLower, h])]
  · rw [toLower_of_not_isAlpha (Bool.eq_false_iff.2 h)]

theorem utf8Length_map_toLower (cs : List Char) :
    utf8Length (cs.map Char.toLower) = utf8Length cs := by
  induction cs with
  | nil => rfl
  | cons c cs ih => rw [List.map_cons, utf8Length_cons, utf8Length_cons, ih, utf8Size_toLower]

theorem beq_toLower {d : Char} (hd : d.isAlpha = false) (c : Char) :
    (c.toLower == d) = (c == d) := by
  rw [Bool.eq_iff_iff, beq_iff_eq, beq_iff_eq, toLower_eq_iff hd]

/-- A class that has all letters or none has a letter just if it has its small letter. -/
theorem class_toLower {p : Char → Bool} (letters : Bool)
    (hp : ∀ c : Char, c.isAlpha = true → p c = letters) (c : Char) : p c.toLower = p c := by
  by_cases h : c.isAlpha = true
  · rw [hp c h, hp _ (by rw [isAlpha_toLower, h])]
  · rw [toLower_of_not_isAlpha (Bool.eq_false_iff.2 h)]

namespace Script

namespace Cursor

variable {c d : Cursor}

/-- The same place in the text in small letters. -/
def folded (c : Cursor) : Cursor :=
  ⟨c.offset, c.rest.map Char.toLower⟩

@[simp] theorem folded_rest (c : Cursor) : c.folded.rest = c.rest.map Char.toLower := rfl

@[simp] theorem folded_offset (c : Cursor) : c.folded.offset = c.offset := rfl

theorem head?_folded {x : Char} (hx : x.isAlpha = false) :
    c.folded.rest.head? = some x ↔ c.rest.head? = some x := by
  rw [folded_rest, List.head?_map]
  cases c.rest.head? with
  | none => simp
  | some y => simp [toLower_eq_iff hx]

theorem seek_folded (c : Cursor) (rest : List Char) :
    c.folded.seek (rest.map Char.toLower) = (c.seek rest).folded := by
  rw [seek, seek, folded_rest, folded_offset, List.length_map, List.length_map, ← List.map_take,
    utf8Length_map_toLower, folded]

theorem foldCase_textTo (c d : Cursor) :
    foldCase (c.textTo d) = c.folded.textTo d.folded := by
  rw [textTo, textTo, folded_rest, folded_rest, List.length_map, List.length_map, ← List.map_take]
  simp [foldCase]

/-! ## Gaps -/

private theorem skipInline_go_folded (offset : Nat) (cs : List Char) :
    skipInline.go offset (cs.map Char.toLower) = (skipInline.go offset cs).folded := by
  fun_induction skipInline.go offset cs with
  | case1 offset rest ih | case2 offset rest ih | case3 offset rest ih => exact ih
  | case4 offset rest ih | case5 offset rest ih => exact ih
  | case6 offset cs hspace htab hreturn hcrlf hline =>
    unfold skipInline.go
    split
    · next heq =>
      obtain ⟨own, rfl, -⟩ := map_toLower_eq_cons (by decide) heq
      exact absurd rfl (hspace own)
    · next heq =>
      obtain ⟨own, rfl, -⟩ := map_toLower_eq_cons (by decide) heq
      exact absurd rfl (htab own)
    · next heq =>
      obtain ⟨own, rfl, -⟩ := map_toLower_eq_cons (by decide) heq
      exact absurd rfl (hreturn own)
    · next heq =>
      obtain ⟨_, rfl, hmore⟩ := map_toLower_eq_cons (by decide) heq
      obtain ⟨_, rfl, hmore'⟩ := map_toLower_eq_cons (by decide) hmore
      obtain ⟨own, rfl, -⟩ := map_toLower_eq_cons (by decide) hmore'
      exact absurd rfl (hcrlf own)
    · next heq =>
      obtain ⟨_, rfl, hmore⟩ := map_toLower_eq_cons (by decide) heq
      obtain ⟨own, rfl, -⟩ := map_toLower_eq_cons (by decide) hmore
      exact absurd rfl (hline own)
    · rfl

theorem skipInline_folded (c : Cursor) : c.folded.skipInline = c.skipInline.folded :=
  skipInline_go_folded c.offset c.rest

private theorem skipSpaces_go_folded (offset : Nat) (cs : List Char) :
    skipSpaces.go offset (cs.map Char.toLower) = (skipSpaces.go offset cs).folded := by
  fun_induction skipSpaces.go offset cs with
  | case1 offset rest ih | case2 offset rest ih | case3 offset rest ih | case4 offset rest ih =>
    exact ih
  | case5 offset cs hspace htab hreturn hline =>
    unfold skipSpaces.go
    split
    · next heq =>
      obtain ⟨own, rfl, -⟩ := map_toLower_eq_cons (by decide) heq
      exact absurd rfl (hspace own)
    · next heq =>
      obtain ⟨own, rfl, -⟩ := map_toLower_eq_cons (by decide) heq
      exact absurd rfl (htab own)
    · next heq =>
      obtain ⟨own, rfl, -⟩ := map_toLower_eq_cons (by decide) heq
      exact absurd rfl (hreturn own)
    · next heq =>
      obtain ⟨own, rfl, -⟩ := map_toLower_eq_cons (by decide) heq
      exact absurd rfl (hline own)
    · rfl

theorem skipSpaces_folded (c : Cursor) : c.folded.skipSpaces = c.skipSpaces.folded :=
  skipSpaces_go_folded c.offset c.rest

/-- The characters that stand between statements. -/
private def isSeparator (x : Char) : Bool :=
  x == ' ' || x == '\t' || x == '\r' || x == '\n' || x == ';'

private theorem skipSeparators_go_separator {x : Char} (h : isSeparator x = true) (offset : Nat)
    (cs : List Char) : skipSeparators.go offset (x :: cs) = skipSeparators.go (offset + 1) cs := by
  simp only [isSeparator, Bool.or_eq_true, beq_iff_eq] at h
  rcases h with (((rfl | rfl) | rfl) | rfl) | rfl <;> rfl

private theorem skipSeparators_go_other {x : Char} (h : isSeparator x = false) (hx : x ≠ '#')
    (offset : Nat) (cs : List Char) : skipSeparators.go offset (x :: cs) = ⟨offset, x :: cs⟩ := by
  simp only [isSeparator, Bool.or_eq_false_iff, beq_eq_false_iff_ne] at h
  unfold skipSeparators.go
  split <;> simp_all

private theorem comment_other {x : Char} (hx : x ≠ '\n') (offset : Nat) (cs : List Char) :
    skipSeparators.comment offset (x :: cs) =
      skipSeparators.comment (offset + x.utf8Size) cs := by
  rw [skipSeparators.comment]
  exact hx

/-- A gap between statements and the rest of a comment end in the same places. -/
private theorem skipSeparators_go_folded (cs : List Char) : ∀ offset : Nat,
    skipSeparators.go offset (cs.map Char.toLower) = (skipSeparators.go offset cs).folded ∧
      skipSeparators.comment offset (cs.map Char.toLower) =
        (skipSeparators.comment offset cs).folded := by
  induction cs with
  | nil => exact fun _ => ⟨rfl, rfl⟩
  | cons x cs ih =>
    intro offset
    rw [List.map_cons]
    have hcomment : x.toLower = '#' ↔ x = '#' := toLower_eq_iff (by decide)
    have hline : x.toLower = '\n' ↔ x = '\n' := toLower_eq_iff (by decide)
    constructor
    · have hclass : isSeparator x.toLower = isSeparator x := by
        simp (disch := decide) only [isSeparator, beq_toLower]
      cases hx : isSeparator x with
      | true =>
        rw [skipSeparators_go_separator hx, skipSeparators_go_separator (hclass.trans hx)]
        exact (ih (offset + 1)).1
      | false =>
        by_cases hhash : x = '#'
        · subst hhash
          exact (ih (offset + 1)).2
        · rw [skipSeparators_go_other hx hhash,
            skipSeparators_go_other (hclass.trans hx) (mt hcomment.1 hhash)]
          rfl
    · by_cases hnewline : x = '\n'
      · subst hnewline
        exact (ih (offset + 1)).1
      · rw [comment_other hnewline, comment_other (mt hline.1 hnewline), utf8Size_toLower]
        exact (ih _).2

theorem skipSeparators_folded (c : Cursor) : c.folded.skipSeparators = c.skipSeparators.folded :=
  (skipSeparators_go_folded c.rest c.offset).1

/-! ## Ends -/

theorem atStatementEnd_folded (c : Cursor) : c.folded.atStatementEnd = c.atStatementEnd := by
  unfold atStatementEnd
  rw [folded_rest]
  rcases c.rest with _ | ⟨x, rest⟩
  · rfl
  · simp (disch := decide) only [List.map_cons, beq_toLower]

theorem atStageEnd_folded (c : Cursor) : c.folded.atStageEnd = c.atStageEnd := by
  have hhead : (c.folded.rest.head? == some '|') = (c.rest.head? == some '|') := by
    rw [Bool.eq_iff_iff, beq_iff_eq, beq_iff_eq, head?_folded (by decide)]
  rw [atStageEnd, atStageEnd, atStatementEnd_folded, hhead]

end Cursor

/-! ## Lexemes -/

namespace Atom

theorem isDigit_toLower : ∀ c : Char, c.toLower.isDigit = c.isDigit :=
  class_toLower false fun _ => isDigit_of_isAlpha

theorem isVariablePart_toLower (c : Char) : isVariablePart c.toLower = isVariablePart c := by
  have hclass := class_toLower (p := isAlphanumeric) true
    (fun c hc => by
      have hcode := isAlpha_iff.1 hc
      rw [isAlphanumeric, if_pos (by omega), Char.isAlphanum, hc, Bool.true_or]) c
  simp (disch := decide) only [isVariablePart, hclass, beq_toLower]

theorem isWordPart_toLower (c : Char) : isWordPart c.toLower = isWordPart c := by
  simp (disch := decide) only [isWordPart, isBlank_toLower, bne, beq_toLower]

/-- What is taken and what follows, in small letters. -/
def foldedSplit (split : List Char × List Char) : List Char × List Char :=
  (split.1.map Char.toLower, split.2.map Char.toLower)

theorem splitRun?_folded {p : Char → Bool} (hp : ∀ c : Char, p c.toLower = p c) (cs : List Char) :
    splitRun? p (cs.map Char.toLower) = (splitRun? p cs).map foldedSplit := by
  have hcomp : p ∘ Char.toLower = p := funext hp
  cases cs with
  | nil => rfl
  | cons c cs =>
    rw [List.map_cons, splitRun?, splitRun?, hp, List.takeWhile_map, List.dropWhile_map, hcomp]
    split <;> rfl

theorem splitVariable?_folded (cs : List Char) :
    splitVariable? (cs.map Char.toLower) = (splitVariable? cs).map foldedSplit := by
  rcases front_cases_toLower cs (by decide : '$'.isAlpha = false) with ⟨rest, rfl⟩ | ⟨hcs, hcs'⟩
  · exact splitRun?_folded isVariablePart_toLower rest
  · rw [splitVariable?.eq_2 _ hcs, splitVariable?.eq_2 _ hcs']
    rfl

theorem splitSign_folded (cs : List Char) :
    splitSign (cs.map Char.toLower) = foldedSplit (splitSign cs) := by
  rcases front_cases_toLower cs (by decide : '-'.isAlpha = false) with ⟨rest, rfl⟩ | ⟨hcs, hcs'⟩
  · rfl
  · rw [splitSign.eq_2 _ hcs, splitSign.eq_2 _ hcs']
    rfl

theorem splitFraction_folded (cs : List Char) :
    splitFraction (cs.map Char.toLower) = foldedSplit (splitFraction cs) := by
  rcases front_cases_toLower cs (by decide : '.'.isAlpha = false) with ⟨rest, rfl⟩ | ⟨hcs, hcs'⟩
  · have hdigits := splitRun?_folded isDigit_toLower rest
    have hpoint : ('.' :: rest).map Char.toLower = '.' :: rest.map Char.toLower := rfl
    rw [hpoint, splitFraction, splitFraction, hdigits]
    rcases splitRun? Char.isDigit rest with _ | ⟨digits, rest⟩ <;> rfl
  · rw [splitFraction.eq_2 _ hcs, splitFraction.eq_2 _ hcs']
    rfl

theorem splitWord?_folded (cs : List Char) :
    splitWord? (cs.map Char.toLower) = (splitWord? cs).map foldedSplit := by
  rcases front_cases_toLower cs (by decide : '#'.isAlpha = false) with ⟨rest, rfl⟩ | ⟨hcs, hcs'⟩
  · rfl
  · rw [splitWord?.eq_2 _ hcs, splitWord?.eq_2 _ hcs']
    exact splitRun?_folded isWordPart_toLower cs

theorem endsNumber_folded (cs : List Char) :
    endsNumber (cs.map Char.toLower) = endsNumber cs := by
  fun_cases endsNumber cs with
  | case1 | case2 | case3 => rfl
  | case4 c rest hline hcrlf =>
    have hline' : ∀ more, c.toLower = '\x60' → rest.map Char.toLower = '\n' :: more → False := by
      intro more hc heq
      obtain ⟨own, rfl, -⟩ := map_toLower_eq_cons (by decide) heq
      exact hline own ((toLower_eq_iff (by decide)).1 hc) rfl
    have hcrlf' : ∀ more, c.toLower = '\x60' → rest.map Char.toLower = '\r' :: '\n' :: more →
        False := by
      intro more hc heq
      obtain ⟨_, rfl, heq'⟩ := map_toLower_eq_cons (by decide) heq
      obtain ⟨own, rfl, -⟩ := map_toLower_eq_cons (by decide) heq'
      exact hcrlf own ((toLower_eq_iff (by decide)).1 hc) rfl
    rw [List.map_cons, endsNumber.eq_4 _ _ hline' hcrlf']
    simp (disch := decide) only [beq_toLower]

theorem splitNumber?_folded (cs : List Char) :
    splitNumber? (cs.map Char.toLower) = (splitNumber? cs).map foldedSplit := by
  rw [splitNumber?, splitNumber?, splitSign_folded, foldedSplit, splitRun?_folded isDigit_toLower]
  rcases splitRun? Char.isDigit (splitSign cs).2 with _ | ⟨digits, rest⟩
  · rfl
  simp only [Option.map_some, foldedSplit, splitFraction_folded, endsNumber_folded]
  split
  · simp [foldedSplit]
  · rfl

end Atom

/-! ## Strings and groups -/

namespace Quoted

theorem snd_readDouble?_folded (cs : List Char) :
    (readDouble? (cs.map Char.toLower)).map Prod.snd =
      (readDouble? cs).map fun read => read.2.map Char.toLower := by
  fun_induction readDouble? cs with
  | case1 | case5 => rfl
  | case2 rest ih | case4 _ rest ih =>
    show ((readDouble? (rest.map Char.toLower)).map _).map Prod.snd = _
    rw [Option.map_map, Option.map_map]
    exact ih
  | case3 rest hrest =>
    have hrest' : ∀ more, rest.map Char.toLower ≠ '\x22' :: more := fun more heq => by
      obtain ⟨own, hown, -⟩ := map_toLower_eq_cons (by decide) heq
      exact hrest own hown
    show (readDouble? ('\x22' :: rest.map Char.toLower)).map Prod.snd = _
    rw [readDouble?_quote hrest']
    rfl
  | case6 c rest _ hquote hescape hlast ih =>
    have hplain : c ≠ '\x60' := by
      rintro rfl
      rcases rest with _ | ⟨d, rest⟩
      · exact hlast rfl rfl
      · exact hescape d rest rfl rfl
    rw [List.map_cons, readDouble?_plain (mt (toLower_eq_iff (by decide)).1 hquote)
      (mt (toLower_eq_iff (by decide)).1 hplain), Option.map_map, Option.map_map]
    exact ih

theorem snd_readSingle?_folded (cs : List Char) :
    (readSingle? (cs.map Char.toLower)).map Prod.snd =
      (readSingle? cs).map fun read => read.2.map Char.toLower := by
  fun_induction readSingle? cs with
  | case1 => rfl
  | case2 rest ih =>
    show ((readSingle? (rest.map Char.toLower)).map _).map Prod.snd = _
    rw [Option.map_map, Option.map_map]
    exact ih
  | case3 rest hrest =>
    have hrest' : ∀ more, rest.map Char.toLower ≠ '\x27' :: more := fun more heq => by
      obtain ⟨own, hown, -⟩ := map_toLower_eq_cons (by decide) heq
      exact hrest own hown
    show (readSingle? ('\x27' :: rest.map Char.toLower)).map Prod.snd = _
    rw [readSingle?_quote hrest']
    rfl
  | case4 c rest _ hquote ih =>
    rw [List.map_cons, readSingle?_plain (mt (toLower_eq_iff (by decide)).1 hquote),
      Option.map_map, Option.map_map]
    exact ih

/-- A string ends in the same place. Its value may differ: a backtick and a capital letter stand for
that letter. -/
theorem snd_read?_folded (cs : List Char) :
    (read? (cs.map Char.toLower)).map Prod.snd =
      (read? cs).map fun read => read.2.map Char.toLower := by
  rcases front_cases_toLower cs (by decide : '\x22'.isAlpha = false) with ⟨rest, rfl⟩ | ⟨hd, hd'⟩
  · exact snd_readDouble?_folded rest
  rcases front_cases_toLower cs (by decide : '\x27'.isAlpha = false) with ⟨rest, rfl⟩ | ⟨hs, hs'⟩
  · exact snd_readSingle?_folded rest
  rw [read?.eq_3 _ hd hs, read?.eq_3 _ hd' hs']
  rfl

end Quoted

namespace Group

variable {inner : Char} {outer : List Char}

theorem not_isAlpha_of_isCloser {x : Char} (h : isCloser x = true) : x.isAlpha = false := by
  simp only [isCloser, Bool.or_eq_true, beq_iff_eq] at h
  rcases h with (rfl | rfl) | rfl <;> decide

theorem isCloser_toLower (x : Char) : isCloser x.toLower = isCloser x := by
  simp (disch := decide) only [isCloser, beq_toLower]

theorem closer?_toLower (x : Char) : closer? x.toLower = closer? x := by
  by_cases h : x.isAlpha = true
  · have hnone : ∀ y : Char, y.isAlpha = true → closer? y = none := by
      intro y hy
      fun_cases closer? y with
      | case1 | case2 | case3 => cases hy
      | case4 => rfl
    rw [hnone x h, hnone _ (by rw [isAlpha_toLower, h])]
  · rw [toLower_of_not_isAlpha (Bool.eq_false_iff.2 h)]

theorem isCloser_of_closer? {x y : Char} (h : closer? x = some y) : isCloser y = true := by
  fun_cases closer? x with
  | case1 | case2 | case3 =>
    cases h
    rfl
  | case4 => simp_all [closer?]

/-- Groups end in the same place. -/
theorem close_folded (hinner : isCloser inner = true) (houter : ∀ x ∈ outer, isCloser x = true)
    (c : Cursor) :
    (close inner outer c.folded).toOption = (close inner outer c).toOption.map Cursor.folded := by
  have hfront : ∀ {c : Cursor} {x : Char} {rest : List Char}, c.rest = x :: rest →
      c.folded.rest = x.toLower :: rest.map Char.toLower := fun h => by
    rw [Cursor.folded_rest, h, List.map_cons]
  fun_induction close inner outer c with
  | case1 inner outer c hrest =>
    rw [close_eq, Cursor.folded_rest, hrest]
    rfl
  | case2 c x rest hrest hcloser =>
    have hsame := toLower_of_not_isAlpha (not_isAlpha_of_isCloser hcloser)
    rw [close_eq]
    simp only [hfront hrest, hsame, hcloser, if_true, closed, Cursor.seek_folded]
    rfl
  | case3 c x rest hrest hcloser next outer ih =>
    have hsame := toLower_of_not_isAlpha (not_isAlpha_of_isCloser hcloser)
    rw [close_eq]
    simp only [hfront hrest, hsame, hcloser, if_true, closed, Cursor.seek_folded]
    exact ih (houter _ (List.mem_cons_self ..)) fun x hx => houter x (List.mem_cons_of_mem _ hx)
  | case4 inner outer c x rest hrest hcloser hother =>
    have hsame := toLower_of_not_isAlpha (not_isAlpha_of_isCloser hcloser)
    rw [close_eq]
    simp only [hfront hrest, hsame, hcloser, if_true, closed, hother, if_false]
    rfl
  | case5 inner outer c x rest hrest hcloser inner' hopener ih =>
    rw [close_eq]
    simp only [hfront hrest, isCloser_toLower, hcloser, closer?_toLower, hopener,
      Cursor.seek_folded]
    exact ih (isCloser_of_closer? hopener) (List.forall_mem_cons.2 ⟨hinner, houter⟩)
  | case6 inner outer c x rest hrest hcloser hopener value rest' hs _ ih =>
    have hread := Quoted.snd_read?_folded (x :: rest)
    rw [hs, List.map_cons] at hread
    obtain ⟨⟨value', _⟩, hread, rfl⟩ := Option.map_eq_some_iff.1 hread
    rw [close_eq]
    simp only [hfront hrest, isCloser_toLower, hcloser, closer?_toLower, hopener, hread,
      Cursor.seek_folded]
    exact ih hinner houter
  | case7 inner outer c x rest hrest hcloser hopener hs ih =>
    have hread := Quoted.snd_read?_folded (x :: rest)
    rw [hs, List.map_cons] at hread
    have hread := Option.map_eq_none_iff.1 hread
    rw [close_eq]
    simp only [hfront hrest, isCloser_toLower, hcloser, closer?_toLower, hopener, hread,
      Cursor.seek_folded]
    exact ih hinner houter

/-- The group at the front is one of the same kind, and ends in the same place if it does. -/
theorem read?_folded (c : Cursor) :
    (read? c.folded).map (fun read => (read.1, read.2.toOption)) =
      (read? c).map fun read => (read.1, read.2.toOption.map Cursor.folded) := by
  have hclose : ∀ {inner : Char} (rest : List Char), isCloser inner = true →
      (close inner [] (c.folded.seek (rest.map Char.toLower))).toOption =
        (close inner [] (c.seek rest)).toOption.map Cursor.folded := fun rest hinner => by
    rw [Cursor.seek_folded, close_folded hinner (by simp)]
  fun_cases read? c with
  | case1 rest hrest | case2 rest hrest | case3 rest hrest | case4 rest hrest =>
    unfold read?
    rw [Cursor.folded_rest, hrest]
    exact congrArg (fun d? => some (_, d?)) (hclose rest rfl)
  | case5 htable harray hdollar hparen =>
    unfold read?
    split
    · next heq =>
      obtain ⟨_, hrest, hmore⟩ := map_toLower_eq_cons (by decide) heq
      obtain ⟨own, rfl, -⟩ := map_toLower_eq_cons (by decide) hmore
      exact absurd hrest (htable own)
    · next heq =>
      obtain ⟨_, hrest, hmore⟩ := map_toLower_eq_cons (by decide) heq
      obtain ⟨own, rfl, -⟩ := map_toLower_eq_cons (by decide) hmore
      exact absurd hrest (harray own)
    · next heq =>
      obtain ⟨_, hrest, hmore⟩ := map_toLower_eq_cons (by decide) heq
      obtain ⟨own, rfl, -⟩ := map_toLower_eq_cons (by decide) hmore
      exact absurd hrest (hdollar own)
    · next heq =>
      obtain ⟨own, hrest, -⟩ := map_toLower_eq_cons (by decide) heq
      exact absurd hrest (hparen own)
    · rfl

end Group

/-! ## Values and stages -/

theorem pipe?_folded (c : Cursor) : pipe? c.folded = (pipe? c).map Cursor.folded := by
  unfold pipe?
  dsimp only
  rw [Cursor.skipInline_folded, Cursor.folded_rest]
  rcases front_cases_toLower c.skipInline.rest (by decide : '|'.isAlpha = false) with
    ⟨rest, hrest⟩ | ⟨hcs, hcs'⟩
  · rw [hrest]
    show some ((c.skipInline.folded.seek (rest.map Char.toLower)).skipSpaces) = _
    rw [Cursor.seek_folded, Cursor.skipSpaces_folded]
    rfl
  · split
    · next heq => exact absurd heq (hcs' _)
    · rfl

theorem assignment?_folded (c : Cursor) :
    assignment? c.folded =
      (assignment? c).map fun found => (foldCase found.1, found.2.folded) := by
  unfold assignment?
  rw [Cursor.folded_rest, Atom.splitVariable?_folded]
  rcases Atom.splitVariable? c.rest with _ | ⟨name, rest⟩
  · rfl
  rw [Option.map_some]
  dsimp only [Atom.foldedSplit]
  rw [Cursor.seek_folded, Cursor.skipInline_folded, Cursor.folded_rest]
  generalize (c.seek rest).skipInline = d
  rcases front_cases_toLower d.rest (by decide : '='.isAlpha = false) with
    ⟨rest, hrest⟩ | ⟨hcs, hcs'⟩
  · rcases front_cases_toLower rest (by decide : '='.isAlpha = false) with
      ⟨rest, rfl⟩ | ⟨hcs, hcs'⟩
    · rw [hrest]
      rfl
    · have hequals : ('=' :: rest).map Char.toLower = '=' :: rest.map Char.toLower := rfl
      simp only [hrest, hequals, Cursor.seek_folded, Cursor.skipInline_folded, Option.map_some,
        foldCase, String.toList_ofList]
  · split
    · next heq => exact absurd heq (hcs' _)
    · next heq => exact absurd heq (hcs' _)
    split
    · next heq => exact absurd heq (hcs _)
    · next heq => exact absurd heq (hcs _)
    · rfl

end Script
end KeywordScope
