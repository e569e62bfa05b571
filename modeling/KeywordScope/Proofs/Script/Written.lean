import KeywordScope.Proofs.Script.Passage
import KeywordScope.Proofs.Script.Reading
import KeywordScope.Proofs.Text.Letters
import Mathlib.Data.List.Forall2

/-!
# Texts and what is read of them

* `IsWord word`: the characters are read as one word, where a word may end after them.
* `Reads text after mk P`: wherever the text stands in front of `after`, a piece of one kind is read
  of it that satisfies `P`.
* `ReadsInside text after P`: the same for the statements of a block, with the gaps around them.
* `reads_word`, `reads_command`, `reads_script`, `readsInside_cons`: how texts are put together.
-/

namespace KeywordScope
namespace Script

/-! ## Words -/

/-- A word may begin with the character, and neither a gap nor another kind of element does. -/
def startsWord (x : Char) : Bool :=
  Atom.isWordPart x && x != '#' && x != '$' && x != '@' && x != '\x60'

/-- The characters make a word. A word may begin with digits, but not with a number. -/
structure IsWord (word : List Char) : Prop where
  starts : ∃ x more, word = x :: more ∧ startsWord x = true
  parts : ∀ x ∈ word, Atom.isWordPart x = true
  noNumber : ∃ digits x more, word = digits ++ x :: more ∧ (∀ y ∈ digits, y.isDigit = true) ∧
    x.isDigit = false ∧ x ≠ '.' ∧ x ≠ '-' ∧ startsWord x = true

/-- A word may end in front of the characters. -/
def EndsWord (after : List Char) : Prop :=
  ∀ x ∈ after.head?, Atom.isWordPart x = false

theorem startsWord_iff {x : Char} : startsWord x = true ↔
    Atom.isWordPart x = true ∧ x ≠ '#' ∧ x ≠ '$' ∧ x ≠ '@' ∧ x ≠ '\x60' := by
  simp [startsWord, and_assoc]

/-- A character of a class is none outside it. -/
theorem ne_of_class {p : Char → Bool} {x y : Char} (h : p x = true) (hy : p y = false) : x ≠ y := by
  rintro rfl
  rw [h] at hy
  cases hy

/-- What begins with no digit, point or minus is no number. -/
theorem isWord_cons {x : Char} {more : List Char} (hx : startsWord x = true)
    (hdigit : x.isDigit = false) (hpoint : x ≠ '.') (hminus : x ≠ '-')
    (hmore : more.all Atom.isWordPart = true) : IsWord (x :: more) :=
  ⟨⟨x, more, rfl, hx⟩, List.forall_mem_cons.2 ⟨(startsWord_iff.1 hx).1, List.all_eq_true.1 hmore⟩,
    [], x, more, rfl, nofun, hdigit, hpoint, hminus, hx⟩

/-- A word may begin with any character of an identifier. -/
theorem startsWord_of_isWordChar {x : Char} (h : isWordChar x = true) : startsWord x = true := by
  have hother : ∀ y, isWordChar y = false → x ≠ y := fun y hy => ne_of_class h hy
  refine startsWord_iff.2 ⟨?_, hother '#' (by decide), hother '$' (by decide),
    hother '@' (by decide), hother '\x60' (by decide)⟩
  simp [Atom.isWordPart, isBlank_of_isWordChar h, hother '{' (by decide), hother '}' (by decide),
    hother '(' (by decide), hother ')' (by decide), hother ';' (by decide), hother '|' (by decide),
    hother '\x22' (by decide), hother '\x27' (by decide)]

theorem isWordPart_of_isWordChar {x : Char} (h : isWordChar x = true) :
    Atom.isWordPart x = true :=
  (startsWord_iff.1 (startsWord_of_isWordChar h)).1

/-- An identifier is a word unless it has digits only. -/
theorem isWord_of_isWordChar {word : List Char} (h : ∀ x ∈ word, isWordChar x = true)
    (hdigits : word.all Char.isDigit = false) : IsWord word := by
  -- The first character that is no digit ends what might be a number.
  obtain ⟨x, hfirst⟩ : ∃ x, word.find? (!Char.isDigit ·) = some x := by
    rw [← Option.isSome_iff_exists, List.find?_isSome]
    simpa using hdigits
  obtain ⟨hx, digits, more, rfl, hbefore⟩ := List.find?_eq_some_iff_append.1 hfirst
  simp only [Bool.not_eq_true', Bool.not_not] at hx hbefore
  have hidentifier := h x (by simp)
  refine ⟨?_, fun y hy => isWordPart_of_isWordChar (h y hy), digits, x, more, rfl, hbefore, hx,
    ne_of_class hidentifier (by decide), ne_of_class hidentifier (by decide),
    startsWord_of_isWordChar hidentifier⟩
  cases digits with
  | nil => exact ⟨x, more, rfl, startsWord_of_isWordChar hidentifier⟩
  | cons d digits => exact ⟨d, _, rfl, startsWord_of_isWordChar (h d (by simp))⟩

namespace Atom

theorem splitRun?_append {p : Char → Bool} {run after : List Char} (hne : run ≠ [])
    (hrun : ∀ x ∈ run, p x = true) (hafter : ∀ x ∈ after.head?, p x = false) :
    splitRun? p (run ++ after) = some (run, after) := by
  obtain ⟨x, more, rfl⟩ := List.exists_cons_of_ne_nil hne
  obtain ⟨hx, hmore⟩ := List.forall_mem_cons.1 hrun
  have hnone : after.takeWhile p = [] ∧ after.dropWhile p = after := by
    cases after with
    | nil => exact ⟨rfl, rfl⟩
    | cons y after => simp [hafter y rfl]
  simp only [List.cons_append, splitRun?, hx, if_true, List.takeWhile_append_of_pos hmore,
    List.dropWhile_append_of_pos hmore, hnone, List.append_nil]

theorem splitRun?_none {p : Char → Bool} {x : Char} {cs : List Char} (h : p x = false) :
    splitRun? p (x :: cs) = none := by
  simp [splitRun?, h]

theorem splitSign_of_ne {x : Char} {cs : List Char} (h : x ≠ '-') :
    splitSign (x :: cs) = ([], x :: cs) := by
  unfold splitSign
  split
  · next heq => exact absurd (List.cons.inj heq).1 h
  · rfl

/-- A number cannot end in front of a word. -/
theorem endsNumber_word {x : Char} (h : startsWord x = true) (cs : List Char) :
    endsNumber (x :: cs) = false := by
  obtain ⟨hpart, hhash, -, -, htick⟩ := startsWord_iff.1 h
  have hother : ∀ y, isWordPart y = false → (x == y) = false :=
    fun y hy => beq_eq_false_iff_ne.2 (ne_of_class hpart hy)
  unfold endsNumber
  split
  · next heq => cases heq
  · next heq => exact absurd (List.cons.inj heq).1 htick
  · next heq => exact absurd (List.cons.inj heq).1 htick
  · next heq =>
    obtain ⟨rfl, -⟩ := List.cons.inj heq
    simp [hother ' ' (by decide), hother '\t' (by decide), hother '\r' (by decide),
      hother '\n' (by decide), hother ';' (by decide), hother '}' (by decide),
      hother '|' (by decide), hhash]

/-- Where digits are followed by a character that begins a word, there is no number. -/
theorem splitNumber?_word {word : List Char} (h : IsWord word) (after : List Char) :
    splitNumber? (word ++ after) = none := by
  obtain ⟨digits, x, more, rfl, hdigits, hx, hpoint, hminus, hstarts⟩ := h.noNumber
  rw [List.append_assoc, List.cons_append]
  cases digits with
  | nil =>
    simp only [List.nil_append, splitNumber?, splitSign_of_ne hminus, splitRun?_none hx]
  | cons d digits =>
    have hd : d ≠ '-' := by
      rintro rfl
      exact absurd (hdigits '-' (by simp)) (by decide)
    have hrun : splitRun? Char.isDigit (d :: digits ++ x :: (more ++ after)) = _ :=
      splitRun?_append (List.cons_ne_nil d digits) hdigits (by simpa using hx)
    have hfraction : splitFraction (x :: (more ++ after)) = ([], x :: (more ++ after)) := by
      unfold splitFraction
      split
      · next heq => exact absurd (List.cons.inj heq).1 hpoint
      · rfl
    have hends := endsNumber_word hstarts (more ++ after)
    rw [splitNumber?, List.cons_append, splitSign_of_ne hd]
    rw [List.cons_append] at hrun
    simp only [hrun, hfraction, hends]
    rfl

/-- In front of a word no group begins. -/
theorem read?_group_word {c : Cursor} {x : Char} {cs : List Char} (hc : c.rest = x :: cs)
    (h : startsWord x = true) : Group.read? c = none := by
  obtain ⟨hpart, -, hdollar, hat', -⟩ := startsWord_iff.1 h
  have hparen : x ≠ '(' := ne_of_class hpart (by decide)
  unfold Group.read?
  rw [hc]
  split
  · next heq => exact absurd (List.cons.inj heq).1 hat'
  · next heq => exact absurd (List.cons.inj heq).1 hat'
  · next heq => exact absurd (List.cons.inj heq).1 hdollar
  · next heq => exact absurd (List.cons.inj heq).1 hparen
  · rfl

theorem splitVariable?_word {x : Char} {cs : List Char} (h : startsWord x = true) :
    splitVariable? (x :: cs) = none := by
  obtain ⟨-, -, hdollar, -⟩ := startsWord_iff.1 h
  unfold splitVariable?
  split
  · next heq => exact absurd (List.cons.inj heq).1 hdollar
  · rfl

theorem splitWord?_word {word after : List Char} (h : IsWord word) (hafter : EndsWord after) :
    splitWord? (word ++ after) = some (word, after) := by
  obtain ⟨x, more, rfl, hstarts⟩ := h.starts
  obtain ⟨-, hhash, -⟩ := startsWord_iff.1 hstarts
  unfold splitWord?
  split
  · next heq => exact absurd (List.cons.inj heq).1 hhash
  · exact splitRun?_append (List.cons_ne_nil x more) h.parts hafter

/-- The atom that is read of a word. -/
theorem read_word {c : Cursor} {word after : List Char} (hc : c.rest = word ++ after)
    (hword : IsWord word) (hafter : EndsWord after) :
    ∃ read : Consumed Element c, Atom.read c = .ok read ∧ read.next.rest = after ∧
      read.value = .bareword (String.ofList word) (c.spanTo read.next) := by
  obtain ⟨x, more, rfl, hstarts⟩ := id hword.starts
  obtain ⟨hpart, -, hdollar, -⟩ := startsWord_iff.1 hstarts
  have hhead : c.rest.head? = some x := by rw [hc]; rfl
  have hquote : ¬ (c.rest.head? = some '\x22' ∨ c.rest.head? = some '\x27') := by
    rw [hhead, Option.some.injEq, Option.some.injEq, not_or]
    exact ⟨ne_of_class hpart (by decide), ne_of_class hpart (by decide)⟩
  have hgroup := read?_group_word hc hstarts
  have hvariable : splitVariable? c.rest = none := hc ▸ splitVariable?_word hstarts
  have hstray : ¬ c.rest.head? = some '$' := by
    rw [hhead, Option.some.injEq]
    exact hdollar
  have hnumber : splitNumber? c.rest = none := hc ▸ splitNumber?_word hword after
  have hread : splitWord? c.rest = some (x :: more, after) := hc ▸ splitWord?_word hword hafter
  refine ⟨_, (Lexeme.word hquote hgroup hvariable hstray hnumber hread).read_eq, rfl, ?_⟩
  rw [consume, (Cursor.passes_seek hc).textTo_eq]

end Atom

/-! ## Gaps -/

/-- A gap may begin with the character, or a number of lines. -/
def beginsGap (x : Char) : Bool :=
  x == ' ' || x == '\t' || x == '\r' || x == '\n' || x == ';' || x == '#' || x == '\x60'

/-- The character is a space, a tab or a newline. -/
def isSpacing (x : Char) : Bool :=
  x == ' ' || x == '\t' || x == '\n'

/-- The characters do not begin with a gap. -/
def Solid (cs : List Char) : Prop :=
  ∀ x ∈ cs.head?, beginsGap x = false

namespace Cursor

theorem skipInline_solid {c : Cursor} (h : Solid c.rest) : c.skipInline = c := by
  obtain ⟨offset, rest⟩ := c
  show skipInline.go offset rest = _
  unfold skipInline.go
  split
  all_goals first | exact absurd (h _ rfl) (by decide) | rfl

theorem skipInline_newline {c : Cursor} {cs : List Char} (h : c.rest = '\n' :: cs) :
    c.skipInline = c := by
  obtain ⟨offset, rest⟩ := c
  subst h
  rfl

theorem skipInline_space {c : Cursor} {cs : List Char} (h : c.rest = ' ' :: cs) (hcs : Solid cs) :
    c.skipInline.rest = cs := by
  obtain ⟨offset, rest⟩ := c
  subst h
  have hnext : skipInline ⟨offset, ' ' :: cs⟩ = skipInline ⟨offset + 1, cs⟩ := rfl
  rw [hnext, skipInline_solid hcs]

theorem skipSeparators_spacing {c : Cursor} {gap cs : List Char} (h : c.rest = gap ++ cs)
    (hgap : ∀ x ∈ gap, isSpacing x = true) (hcs : Solid cs) : c.skipSeparators.rest = cs := by
  obtain ⟨offset, rest⟩ := c
  subst h
  show (skipSeparators.go offset (gap ++ cs)).rest = cs
  induction gap generalizing offset with
  | nil =>
    rw [List.nil_append]
    unfold skipSeparators.go
    split
    all_goals first | exact absurd (hcs _ rfl) (by decide) | rfl
  | cons x gap ih =>
    obtain ⟨hx, hmore⟩ := List.forall_mem_cons.1 hgap
    simp only [isSpacing, Bool.or_eq_true, beq_iff_eq] at hx
    rcases hx with (rfl | rfl) | rfl
    all_goals exact ih hmore (offset + 1)

end Cursor

/-! ## Elements and commands -/

/-- Wherever the text stands in front of `after`, a piece of the kind is read of it that satisfies
the condition. -/
def Reads {α : Type} (text after : List Char) (kind : α → Piece) (P : α → Prop) : Prop :=
  ∀ c : Cursor, c.rest = text ++ after →
    ∃ x d parts, Reading c (kind x) d parts ∧ d.rest = after ∧ P x

theorem Reads.imp {α : Type} {text after : List Char} {kind : α → Piece} {P Q : α → Prop}
    (h : Reads text after kind P) (hPQ : ∀ x, P x → Q x) : Reads text after kind Q := by
  intro c hc
  obtain ⟨x, d, parts, hread, hd, hP⟩ := h c hc
  exact ⟨x, d, parts, hread, hd, hPQ x hP⟩

/-- A statement may end in front of the characters. -/
def EndsStatement (after : List Char) : Prop :=
  ∀ c : Cursor, c.rest = after → c.skipInline.atStatementEnd = true

/-- The text begins with a character that neither begins a gap nor ends a stage. -/
def Opens (text : List Char) : Prop :=
  ∃ x more, text = x :: more ∧ beginsGap x = false ∧ x ≠ '}' ∧ x ≠ '|'

theorem IsWord.opens {word : List Char} (h : IsWord word) : Opens word := by
  obtain ⟨x, more, rfl, hstarts⟩ := h.starts
  obtain ⟨hpart, hhash, -, -, htick⟩ := startsWord_iff.1 hstarts
  have hother : ∀ y, Atom.isWordPart y = false → x ≠ y := fun y hy => ne_of_class hpart hy
  refine ⟨x, more, rfl, ?_, hother '}' (by decide), hother '|' (by decide)⟩
  simp [beginsGap, hother ' ' (by decide), hother '\t' (by decide), hother '\r' (by decide),
    hother '\n' (by decide), hother ';' (by decide), hhash, htick]

theorem Opens.append {text : List Char} (h : Opens text) (more : List Char) :
    Opens (text ++ more) := by
  obtain ⟨x, text, rfl, hx⟩ := h
  exact ⟨x, text ++ more, rfl, hx⟩

theorem Opens.solid {text : List Char} (h : Opens text) (more : List Char) :
    Solid (text ++ more) := by
  obtain ⟨x, text, rfl, hgap, -⟩ := h
  rintro _ ⟨⟩
  exact hgap

/-- Where a text opens, a stage does not end. -/
theorem Opens.not_atStageEnd {text more : List Char} (h : Opens text) {c : Cursor}
    (hc : c.rest = text ++ more) : ¬ c.atStageEnd = true := by
  obtain ⟨x, text, rfl, hgap, hbrace, hpipe⟩ := h
  simp only [beginsGap, Bool.or_eq_false_iff, beq_eq_false_iff_ne] at hgap
  obtain ⟨⟨⟨⟨⟨⟨-, -⟩, -⟩, hnewline⟩, hsemicolon⟩, hhash⟩, -⟩ := hgap
  simp [Cursor.atStageEnd, Cursor.atStatementEnd, hc, hnewline, hsemicolon, hhash, hbrace, hpipe]

theorem reads_word {word after : List Char} (hword : IsWord word) (hafter : EndsWord after) :
    Reads word after .element fun e => ∃ span, e = .bareword (String.ofList word) span := by
  intro c hc
  obtain ⟨read, hread, hnext, hvalue⟩ := Atom.read_word hc hword hafter
  have hbrace : c.rest.head? ≠ some '{' := by
    obtain ⟨x, more, rfl, hstarts⟩ := hword.starts
    rw [hc]
    rintro ⟨⟩
    exact absurd hstarts (by decide)
  exact ⟨_, _, _, .atom hbrace hread, hnext, _, hvalue⟩

theorem reads_noElements {after : List Char} (h : EndsStatement after) :
    Reads [] after .elements (· = []) := by
  intro c hc
  refine ⟨[], c, [], .noElements ?_, hc, rfl⟩
  simp [Cursor.atStageEnd, h c hc]

/-- Behind a space there is one element more. -/
theorem reads_elements {text more after : List Char} {P : Element → Prop} {Q : List Element → Prop}
    (hopens : Opens text) (first : Reads text (more ++ after) .element P)
    (rest : Reads more after .elements Q) :
    Reads (' ' :: text ++ more) after .elements
      fun es => ∃ e es', es = e :: es' ∧ P e ∧ Q es' := by
  intro c hc
  rw [List.cons_append, List.cons_append, List.append_assoc] at hc
  have hgap := Cursor.skipInline_space hc (hopens.solid _)
  obtain ⟨e, d, _, hfirst, hd, hP⟩ := first _ hgap
  obtain ⟨es, d', _, hrest, hd', hQ⟩ := rest d hd
  exact ⟨_, _, _, .elements (hopens.not_atStageEnd hgap) hfirst hrest, hd', e, es, rfl, hP, hQ⟩

theorem pipe?_eq_none {c : Cursor} {after : List Char} (hc : c.rest = after)
    (h : EndsStatement after) : pipe? c = none := by
  have hend := h c hc
  unfold pipe?
  simp only
  split
  · next heq =>
    rw [Cursor.atStatementEnd, heq] at hend
    cases hend
  · rfl

/-- A word, and elements behind it, make a statement. -/
theorem reads_words {word more after : List Char} {P : List Element → Prop}
    (hword : IsWord word) (hends : EndsWord (more ++ after)) (hafter : EndsStatement after)
    (hmore : Reads more after .elements P) :
    Reads (word ++ more) after .statement fun s => ∃ wordSpan elements span span',
      s = .ofStages [.command (.bareword (String.ofList word) wordSpan :: elements) span] span' ∧
        P elements := by
  intro c hc
  rw [List.append_assoc] at hc
  have hassignment : assignment? c = none := by
    obtain ⟨x, rest, rfl, hstarts⟩ := hword.starts
    have hnone : Atom.splitVariable? c.rest = none := hc ▸ Atom.splitVariable?_word hstarts
    unfold assignment?
    split
    · rfl
    · next heq => cases hnone.symm.trans heq
  obtain ⟨_, d, _, first, hd, span, rfl⟩ := reads_word hword hends c hc
  obtain ⟨elements, d', _, rest, hd', hP⟩ := hmore d hd
  have hstatement := Reading.pipeline hassignment (.command first rfl rest)
    (.noStages (pipe?_eq_none hd' hafter))
  exact ⟨_, _, _, hstatement, hd', span, elements, c.spanTo d', c.spanTo d', rfl, hP⟩

/-- The statement is one command, unless the word is one of control flow. -/
theorem reads_command {word more after : List Char} {P : List Element → Prop}
    (hword : IsWord word) (hends : EndsWord (more ++ after))
    (hflow : hasName flowWords (String.ofList word) = false) (hafter : EndsStatement after)
    (hmore : Reads more after .elements P) :
    Reads (word ++ more) after .statement fun s => ∃ wordSpan elements span span',
      s = .pipeline [.command (.bareword (String.ofList word) wordSpan :: elements) span] span' ∧
        P elements := by
  refine (reads_words hword hends hafter hmore).imp ?_
  rintro _ ⟨wordSpan, elements, span, span', rfl, hP⟩
  exact ⟨wordSpan, elements, span, span', by simp [Statement.ofStages, Element.text, hflow], hP⟩

/-- The statement is one of control flow if the word is. -/
theorem reads_flow {word more after : List Char} {P : List Element → Prop}
    (hword : IsWord word) (hends : EndsWord (more ++ after))
    (hflow : hasName flowWords (String.ofList word) = true) (hafter : EndsStatement after)
    (hmore : Reads more after .elements P) :
    Reads (word ++ more) after .statement fun s => ∃ elements span,
      s = .flow (String.ofList word) elements span ∧ P elements := by
  refine (reads_words hword hends hafter hmore).imp ?_
  rintro _ ⟨_, elements, _, span, rfl, hP⟩
  exact ⟨elements, span, by simp [Statement.ofStages, Element.text, hflow], hP⟩

/-! ## Statements and blocks -/

/-- Wherever the text stands in front of `after`, behind spacing, statements are read of it that
satisfy the condition. -/
def ReadsInside (text after : List Char) (P : List Statement → Prop) : Prop :=
  ∀ (c : Cursor) (gap : List Char), (∀ x ∈ gap, isSpacing x = true) →
    c.rest = gap ++ text ++ after →
      ∃ statements d parts, Reading c.skipSeparators (.statements statements) d parts ∧
        d.rest = after ∧ P statements

/-- The separator ends a statement, and is a gap in front of the rest. -/
def Separates (separator rest : List Char) : Prop :=
  ∃ gap, (∀ x ∈ gap, isSpacing x = true) ∧ ∀ c : Cursor, c.rest = separator ++ rest →
    c.skipInline.rest = gap ++ rest ∧ c.skipInline.atStatementEnd = true

theorem separates_newline (rest : List Char) : Separates ['\n'] rest := by
  refine ⟨['\n'], List.forall_mem_singleton.2 rfl, fun c hc => ?_⟩
  rw [Cursor.skipInline_newline hc]
  exact ⟨hc, by simp [Cursor.atStatementEnd, hc]⟩

theorem separates_space (rest : List Char) : Separates [' '] ('}' :: rest) := by
  refine ⟨[], nofun, fun c hc => ?_⟩
  have hrest := Cursor.skipInline_space hc (by rintro _ ⟨⟩; decide)
  exact ⟨hrest, by simp [Cursor.atStatementEnd, hrest]⟩

theorem separates_end : Separates [] [] := by
  refine ⟨[], nofun, fun c hc => ?_⟩
  have hrest : c.skipInline = c := Cursor.skipInline_solid (by rw [hc]; exact nofun)
  rw [hrest]
  exact ⟨hc, by simp [Cursor.atStatementEnd, hc]⟩

theorem Separates.endsStatement {separator rest : List Char} (h : Separates separator rest) :
    EndsStatement (separator ++ rest) := by
  obtain ⟨_, -, h⟩ := h
  exact fun c hc => (h c hc).2

theorem ReadsInside.imp {text after : List Char} {P Q : List Statement → Prop}
    (h : ReadsInside text after P) (hPQ : ∀ ss, P ss → Q ss) : ReadsInside text after Q := by
  intro c gap hgap hc
  obtain ⟨ss, d, parts, hread, hd, hP⟩ := h c gap hgap hc
  exact ⟨ss, d, parts, hread, hd, hPQ ss hP⟩

/-- Spacing in front of a text makes no difference. -/
theorem ReadsInside.spaced {text after : List Char} {P : List Statement → Prop}
    (h : ReadsInside text after P) {gap : List Char} (hgap : ∀ x ∈ gap, isSpacing x = true) :
    ReadsInside (gap ++ text) after P := by
  intro c gap' hgap' hc
  refine h c (gap' ++ gap) (fun x hx => ?_) (by rw [hc]; simp)
  exact (List.mem_append.1 hx).elim (hgap' x) (hgap x)

/-- Where the source or the block ends there are no statements. -/
theorem readsInside_nil {after : List Char} (h : after = [] ∨ after.head? = some '}') :
    ReadsInside [] after (· = []) := by
  intro c gap hgap hc
  rw [List.append_nil] at hc
  have hsolid : Solid after := by
    rcases h with rfl | h
    · exact nofun
    · rw [Solid, h]
      rintro _ ⟨⟩
      decide
  have hrest := Cursor.skipSeparators_spacing hc hgap hsolid
  exact ⟨[], _, [], .noStatements (by rwa [hrest]), hrest, rfl⟩

theorem readsInside_cons {text separator more after : List Char} {P : Statement → Prop}
    {Q : List Statement → Prop} (hopens : Opens text)
    (hseparator : Separates separator (more ++ after))
    (first : Reads text (separator ++ (more ++ after)) .statement P)
    (rest : ReadsInside more after Q) :
    ReadsInside (text ++ separator ++ more) after fun ss => ∃ s ss', ss = s :: ss' ∧ P s ∧ Q ss' := by
  obtain ⟨gap', hgap', hseparator⟩ := hseparator
  intro c gap hgap hc
  simp only [List.append_assoc] at hc
  have hrest := Cursor.skipSeparators_spacing hc hgap (hopens.solid _)
  obtain ⟨s, d, _, hfirst, hd, hP⟩ := first _ hrest
  obtain ⟨hgap, hends⟩ := hseparator d hd
  obtain ⟨ss, e, _, hmore, he, hQ⟩ := rest d.skipInline gap' hgap' (by rw [hgap]; simp)
  have hgoOn : ¬ (c.skipSeparators.rest = [] ∨ c.skipSeparators.rest.head? = some '}') := by
    obtain ⟨x, more, rfl, -, hbrace, -⟩ := hopens
    simpa [hrest] using hbrace
  exact ⟨_, _, _, .statements hgoOn hfirst hends hmore, he, s, ss, rfl, hP, hQ⟩

/-- Lines, each of them a statement behind some spacing, and spacing at the end. -/
theorem readsInside_lines {α : Type} {text : α → List Char} {P : α → Statement → Prop}
    {indent tail after : List Char} (hindent : ∀ x ∈ indent, isSpacing x = true)
    (htail : ∀ x ∈ tail, isSpacing x = true) (hafter : after = [] ∨ after.head? = some '}')
    {lines : List α} (hlines : ∀ line ∈ lines, Opens (text line) ∧
      ∀ rest, Reads (text line) ('\n' :: rest) .statement (P line)) :
    ReadsInside (lines.flatMap (fun line => indent ++ text line ++ ['\n']) ++ tail) after
      (List.Forall₂ P lines) := by
  induction lines with
  | nil =>
    have hnone := (readsInside_nil hafter).spaced htail
    rw [List.append_nil] at hnone
    exact hnone.imp fun _ hss => List.forall₂_nil_left_iff.2 hss
  | cons line lines ih =>
    obtain ⟨⟨hopens, hline⟩, hmore⟩ := List.forall_mem_cons.1 hlines
    have hall := readsInside_cons hopens (separates_newline _) (hline _) (ih hmore)
    have hspaced := (hall.spaced hindent).imp (Q := List.Forall₂ P (line :: lines)) <| by
      rintro _ ⟨s, ss, rfl, hs, hss⟩
      exact .cons hs hss
    simpa using hspaced

/-- A block around statements from which a block can be assembled. -/
theorem reads_script {inner after : List Char} {P : List Statement → Prop} {Q : Block → Prop}
    (hinner : ReadsInside inner ('}' :: after) P)
    (hassemble : ∀ ss text span, P ss → ∃ b, Block.assemble ss text span = .ok b ∧ Q b) :
    Reads ('{' :: inner ++ ['}']) after .element fun e => ∃ b, e = .script b ∧ Q b := by
  intro c hc
  have hopens : c.rest = '{' :: (inner ++ '}' :: after) := by simpa using hc
  obtain ⟨ss, d, _, hread, hd, hP⟩ := hinner (c.seek (inner ++ '}' :: after)) [] nofun rfl
  obtain ⟨b, hb, hQ⟩ := hassemble ss ((c.seek (inner ++ '}' :: after)).textTo d)
    (c.spanTo (d.seek after)) hP
  exact ⟨_, _, _, .script hopens hread hd hb, rfl, b, rfl, hQ⟩

/-- A block behind a space as the last element of a statement. -/
theorem reads_body {inner after : List Char} {P : List Statement → Prop} {Q : Block → Prop}
    (hafter : EndsStatement after) (hinner : ReadsInside inner ('}' :: after) P)
    (hassemble : ∀ ss text span, P ss → ∃ b, Block.assemble ss text span = .ok b ∧ Q b) :
    Reads (' ' :: ('{' :: inner ++ ['}'])) after .elements
      fun es => ∃ b, es = [.script b] ∧ Q b := by
  have hopens : Opens ('{' :: inner ++ ['}']) :=
    ⟨'{', inner ++ ['}'], rfl, by decide, by decide, by decide⟩
  have hscript : Reads ('{' :: inner ++ ['}']) ([] ++ after) .element _ :=
    reads_script hinner hassemble
  intro c hc
  obtain ⟨_, d, parts, hread, hd, _, _, rfl, ⟨b, rfl, hb⟩, rfl⟩ :=
    reads_elements hopens hscript (reads_noElements hafter) c (by rw [hc, List.append_nil])
  exact ⟨_, d, parts, hread, hd, b, rfl, hb⟩

/-- A whole source. -/
theorem parse_of_readsInside {source : List Char} {P : List Statement → Prop} {Q : Block → Prop}
    (h : ReadsInside source [] P)
    (hassemble : ∀ ss text span, P ss → ∃ b, Block.assemble ss text span = .ok b ∧ Q b) :
    ∃ b, parse (String.ofList source) = .ok b ∧ Q b := by
  obtain ⟨ss, d, parts, hread, hd, hP⟩ :=
    h (Cursor.start (String.ofList source)) [] nofun (by simp [Cursor.start])
  obtain ⟨b, hb, hQ⟩ := hassemble ss _ _ hP
  exact ⟨b, parse_eq_ok_iff.2 ⟨ss, d, parts, hd, hread, hb⟩, hQ⟩

/-- Statements none of which introduces a named block are the end block of their block. -/
theorem assemble_plain {statements : List Statement} (text : String) (span : Span)
    (h : ∀ s ∈ statements, NamedBlock.ofStatement? s = none) :
    Block.assemble statements text span =
      .ok (.mk none none (.mk .finish true statements span) text span) := by
  have hnamed : statements.filterMap NamedBlock.ofStatement? = [] :=
    List.filterMap_eq_nil_iff.2 h
  have hplain : statements.filter (fun s => (NamedBlock.ofStatement? s).isNone) = statements :=
    List.filter_eq_self.2 fun s hs => by rw [h s hs]; rfl
  simp [Block.assemble, hnamed, hplain]

end Script
end KeywordScope
