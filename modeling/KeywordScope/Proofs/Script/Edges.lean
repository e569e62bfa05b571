import KeywordScope.Proofs.Script.Cut

/-!
# Edges of readings

A statement begins and ends with a character that is no blank. So blanks around a text make no
difference to what is read of it, except for a newline that a backtick at the end of the text
takes for its own.

* `Cursor.Edged c d`: what stands between the cursors neither begins nor ends with a blank.
* `Reading.edged`: this holds of all elements, stages and statements that are read.
* `Reading.trimmed`: statements in front of blanks are read of the text without the blanks.
-/

namespace KeywordScope
namespace Script

variable {c d e : Cursor}

/-- What stands between the cursors neither begins nor ends with a blank. -/
def Cursor.Edged (c d : Cursor) : Prop :=
  ∃ taken, c.Passes taken d ∧ (∃ x more, taken = x :: more ∧ isBlank x = false) ∧
    ∃ more x, taken = more ++ [x] ∧ isBlank x = false

/-- What stands between the cursors is a gap, and then something that neither begins nor ends with
a blank. -/
def Cursor.EdgedBehind (c d : Cursor) : Prop :=
  ∃ m gap, c.Passes gap m ∧ m.Edged d

namespace Cursor

theorem EdgedBehind.edged {x : Char} {taken : List Char} (h : d.EdgedBehind e)
    (hc : c.Passes (x :: taken) d) (hx : isBlank x = false) : c.Edged e := by
  obtain ⟨m, gap, hgap, last, hlast, -, more, y, rfl, hy⟩ := h
  refine ⟨_, hc.trans (hgap.trans hlast), ⟨x, _, rfl, hx⟩, x :: taken ++ (gap ++ more), y, ?_, hy⟩
  rw [List.append_assoc, List.append_assoc]

theorem Edged.trans (h : c.Edged d) (h' : d.EdgedBehind e) : c.Edged e := by
  obtain ⟨_, hpasses, ⟨x, more, rfl, hx⟩, -⟩ := h
  exact h'.edged hpasses hx

theorem Edged.behind (h : d.Edged e) {gap : List Char} (hgap : c.Passes gap d) :
    c.EdgedBehind e :=
  ⟨d, gap, hgap, h⟩

/-- What is left does not begin with a blank. -/
theorem Edged.head (h : c.Edged d) : ∀ x ∈ c.rest.head?, isBlank x = false := by
  obtain ⟨_, hpasses, ⟨x, more, rfl, hx⟩, -⟩ := h
  rw [hpasses.rest_eq]
  rintro _ ⟨⟩
  exact hx

/-- A nonempty run of characters that are no blanks. -/
theorem edged_of_all {taken : List Char} (h : c.Passes taken d) (hne : taken ≠ [])
    (hall : ∀ x ∈ taken, isBlank x = false) : c.Edged d := by
  refine ⟨taken, h, ?_, ?_⟩
  · obtain ⟨x, more, rfl⟩ := List.exists_cons_of_ne_nil hne
    exact ⟨x, more, rfl, hall x List.mem_cons_self⟩
  · refine ⟨taken.dropLast, taken.getLast hne, (List.dropLast_append_getLast hne).symm, ?_⟩
    exact hall _ (List.getLast_mem hne)

end Cursor

/-! ## Lexemes -/

namespace Quoted

theorem edged_read? {value rest : List Char} (h : read? c.rest = some (value, rest)) :
    c.Edged (c.seek rest) := by
  have hquoted : ∀ {x : Char} {more taken : List Char}, isBlank x = false → c.rest = x :: more →
      more = taken ++ x :: rest → c.Edged (c.seek rest) := by
    rintro x _ taken hx hrest rfl
    have hpasses : c.Passes (x :: taken ++ [x]) (c.seek rest) := by
      apply Cursor.passes_seek
      rw [hrest, List.append_assoc]
      rfl
    exact ⟨_, hpasses, ⟨x, _, rfl, hx⟩, _, x, rfl, hx⟩
  unfold read? at h
  split at h
  · next hrest =>
    obtain ⟨taken, htaken⟩ := readDouble?_ends h
    exact hquoted rfl hrest htaken
  · next hrest =>
    obtain ⟨taken, htaken⟩ := readSingle?_ends h
    exact hquoted rfl hrest htaken
  · cases h

end Quoted

namespace Group

/-- A group that begins with some characters, the first of which is no blank. -/
private theorem edged_group (opening : List Char) {x : Char} {rest : List Char} {inner : Char}
    {isTable isTable' : Bool} (hx : isBlank x = false) (hc : c.rest = x :: opening ++ rest)
    (h : some (isTable, close inner [] (c.seek rest)) = some (isTable', .ok d)) : c.Edged d := by
  obtain ⟨taken, y, hclose, hy⟩ := close_ends (Prod.mk.inj (Option.some.inj h)).2
  have hgroup := (Cursor.passes_seek hc).trans hclose
  refine ⟨_, hgroup, ⟨x, _, rfl, hx⟩, x :: opening ++ taken, y, ?_, isBlank_of_isCloser hy⟩
  rw [List.append_assoc]

theorem edged_read? {isTable : Bool} (h : read? c = some (isTable, .ok d)) : c.Edged d := by
  unfold read? at h
  split at h
  · next hrest => exact edged_group ['{'] rfl hrest h
  · next hrest => exact edged_group ['('] rfl hrest h
  · next hrest => exact edged_group ['('] rfl hrest h
  · next hrest => exact edged_group [] rfl hrest h
  · cases h

end Group

namespace Atom

theorem edged_read {read : Consumed Element c} (h : Atom.read c = .ok read) :
    c.Edged read.next := by
  have hall : ∀ {p : Char → Bool} {taken : List Char}, (∀ x, isBlank x = true → p x = false) →
      (∀ x ∈ taken, p x = true) → ∀ x ∈ taken, isBlank x = false := by
    intro p taken hp hall x hx
    rw [Bool.eq_false_iff]
    intro hblank
    have hpart := hall x hx
    rw [hp x hblank] at hpart
    cases hpart
  cases lexeme_of_read h with
  | quoted _ isRead => exact Quoted.edged_read? isRead
  | @group _ d _ isRead =>
    obtain ⟨taken, hpasses⟩ := Group.passes_read? isRead
    show c.Edged (c.seek d.rest)
    rw [hpasses.seek_eq]
    exact Group.edged_read? isRead
  | named _ _ isRead =>
    obtain ⟨-, hrest⟩ := splitVariable?_eq isRead
    have hname := hall isVariablePart_of_isBlank (splitVariable?_all isRead)
    exact Cursor.edged_of_all (Cursor.passes_seek hrest.symm) (List.cons_ne_nil _ _)
      (List.forall_mem_cons.2 ⟨rfl, hname⟩)
  | number _ _ _ _ isRead =>
    obtain ⟨hne, hrest⟩ := splitNumber?_eq isRead
    exact Cursor.edged_of_all (Cursor.passes_seek hrest.symm) hne
      (hall isWordPart_of_isBlank (isWordPart_of_splitNumber? isRead))
  | word _ _ _ _ _ isRead =>
    obtain ⟨hne, hrest⟩ := splitWord?_eq isRead
    exact Cursor.edged_of_all (Cursor.passes_seek hrest.symm) hne
      (hall isWordPart_of_isBlank (splitWord?_all isRead))

end Atom

/-! ## Readings -/

/-- Statements, stages and elements neither begin nor end with blanks. Further stages and elements
of a statement stand behind a gap. -/
def Piece.Edged (c d : Cursor) : Piece → Prop
  | .statements _ => ∀ x ∈ c.rest.head?, isBlank x = false
  | .statement _ | .stage _ | .element _ => c.Edged d
  | .stages answer => answer = [] ∧ c = d ∨ c.EdgedBehind d
  | .elements answer => answer = [] ∧ c = d ∨ c.EdgedBehind d

theorem Reading.edged {piece : Piece} {parts : List Piece} (h : Reading c piece d parts) :
    piece.Edged c d := by
  -- What is read first, and then what follows it, if that is anything.
  have happend : ∀ {c d e : Cursor} {P : Prop}, c.Edged d → P ∧ d = e ∨ d.EdgedBehind e →
      c.Edged e := by
    rintro c d e P hfirst (⟨-, rfl⟩ | hmore)
    · exact hfirst
    · exact hfirst.trans hmore
  induction h with
  | noStatements stop =>
    intro x hx
    rcases stop with hnil | hbrace
    · rw [hnil] at hx
      cases hx
    · rw [hbrace] at hx
      obtain rfl := Option.some.inj hx
      rfl
  | statements _ _ _ _ ihFirst _ => exact ihFirst.head
  | assignment begins _ ih =>
    obtain ⟨gap, hpasses⟩ := passes_assignment? begins
    exact (ih.resolve_left fun hnil => nomatch hnil.1).edged hpasses rfl
  | pipeline _ _ _ ihFirst ihMore => exact happend ihFirst ihMore
  | noStages => exact .inl ⟨rfl, rfl⟩
  | stages goOn _ _ ihFirst ihMore =>
    obtain ⟨gap, hgap⟩ := passes_pipe? goOn
    exact .inr ((happend ihFirst ihMore).behind hgap)
  | command _ _ _ ihFirst ihMore => exact happend ihFirst ihMore
  | expression _ _ ih => exact ih
  | noElements => exact .inl ⟨rfl, rfl⟩
  | @elements c _ _ _ _ _ _ _ _ _ ihFirst ihMore =>
    obtain ⟨gap, hgap⟩ := c.passes_skipInline
    exact .inr ((happend ihFirst ihMore).behind hgap)
  | @script c d rest after _ _ _ opens inner closes _ _ =>
    obtain ⟨gap, hgap⟩ := (c.seek rest).passes_skipSeparators
    obtain ⟨taken, hinner⟩ := inner.forward
    have hopen := (Cursor.passes_seek_cons opens).trans (hgap.trans hinner)
    exact ⟨_, hopen.trans (Cursor.passes_seek_cons closes), ⟨'{', _, rfl, rfl⟩, _, '}', rfl, rfl⟩
  | atom _ isRead => exact Atom.edged_read isRead

/-! ## Blanks around a text -/

/-- Only a blank within or between lines begins a gap. -/
theorem solid_of_blank {x : Char} (hx : isBlank x = true) (hline : ¬ Cursor.isLineBlank x = true)
    (cs : List Char) : Solid (x :: cs) := by
  have hne : ∀ y : Char, isBlank y = false → (x == y) = false :=
    fun y hy => beq_eq_false_iff_ne.2 (ne_of_class hx hy)
  rw [Bool.not_eq_true, Cursor.isLineBlank] at hline
  rintro _ ⟨⟩
  rw [beginsGap, hline, hne ';' rfl, hne '#' rfl, hne '\x60' rfl]
  rfl

section Blanks

variable {blanks : List Char} (hblanks : ∀ x ∈ blanks, isBlank x = true)

include hblanks

theorem closing_of_blanks : Closing blanks := by
  intro x hx
  exact .inl (hblanks x (List.mem_of_mem_head? hx))

/-- What ends with no blank ends in front of the blanks at the end of a source. -/
theorem Cursor.Edged.placed {bytes : Nat} (h : (c.placed bytes blanks).Edged d) :
    ∃ m taken, c.Passes taken m ∧ d = m.placed bytes blanks := by
  obtain ⟨_, hpasses, -, more, x, rfl, hx⟩ := h
  obtain ⟨rest, hrest, hd⟩ : ∃ rest, c.rest = more ++ [x] ++ rest ∧ d.rest = rest ++ blanks := by
    have hall : c.rest ++ blanks = more ++ [x] ++ d.rest := hpasses.rest_eq
    rcases List.append_eq_append_iff.1 hall with ⟨between, hmore, hend⟩ | ⟨rest, hrest, hd⟩
    · rcases List.eq_nil_or_concat between with rfl | ⟨between, y, rfl⟩
      · exact ⟨[], by rw [hmore, List.append_nil, List.append_nil], hend.symm⟩
      · -- The last character would be one of the blanks.
        rw [List.concat_eq_append, ← List.append_assoc] at hmore
        obtain ⟨-, hlast⟩ := List.append_inj' hmore rfl
        have hblank := hblanks y (by rw [hend]; simp)
        rw [List.singleton_inj.1 hlast, hblank] at hx
        cases hx
    · exact ⟨rest, hrest, hd⟩
  refine ⟨c.seek rest, more ++ [x], Cursor.passes_seek hrest, ?_⟩
  rw [← Cursor.seek_placed ⟨_, hrest.symm⟩, ← hd, hpasses.seek_eq]

/-- A place behind the beginning of the blanks has only blanks left. -/
theorem Cursor.Passes.blank {bytes : Nat} {taken : List Char}
    (h : (c.placed bytes blanks).Passes taken d) (hd : d.rest.length < blanks.length) :
    ∀ x ∈ d.rest, isBlank x = true := by
  have hsuffix : d.rest <:+ blanks :=
    List.suffix_of_suffix_length_le h.suffix (List.suffix_append c.rest blanks) (Nat.le_of_lt hd)
  exact fun x hx => hblanks x (hsuffix.subset hx)

/-- Blanks in front of a text are a gap, if what follows the gap begins with no blank. -/
theorem Cursor.skipSeparators_blanks (offset : Nat) (cs : List Char)
    (h : ∀ x ∈ (skipSeparators ⟨offset, blanks ++ cs⟩).rest.head?, isBlank x = false) :
    skipSeparators ⟨offset, blanks ++ cs⟩ = skipSeparators ⟨offset + utf8Length blanks, cs⟩ := by
  induction blanks generalizing offset with
  | nil => rfl
  | cons x blanks ih =>
    obtain ⟨hx, hmore⟩ := List.forall_mem_cons.1 hblanks
    rw [List.cons_append] at h ⊢
    by_cases hline : isLineBlank x = true
    · have hstep := skipSeparators_cons ⟨offset, x :: (blanks ++ cs)⟩ x _ hline rfl
      rw [seek_append [x] rfl] at hstep
      rw [← hstep] at h ⊢
      have hlength : utf8Length (x :: blanks) = utf8Length [x] + utf8Length blanks :=
        utf8Length_append [x] blanks
      rw [ih hmore _ h, hlength, ← Nat.add_assoc]
    · -- No gap begins with any other blank.
      have hstay : (skipSeparators ⟨offset, x :: (blanks ++ cs)⟩).rest = x :: (blanks ++ cs) :=
        skipSeparators_spacing (List.nil_append _).symm nofun (solid_of_blank hx hline _)
      have hsolid := h x (by rw [hstay]; rfl)
      rw [hx] at hsolid
      cases hsolid

/-- A number may end in front of blanks if a statement may. -/
theorem endsNumber_of_blanks {offset : Nat}
    (h : (Cursor.skipInline ⟨offset, blanks⟩).atStatementEnd = true) :
    Atom.endsNumber blanks = true := by
  rcases blanks with _ | ⟨x, blanks⟩
  · rfl
  have hx := hblanks x List.mem_cons_self
  by_cases hline : Cursor.isLineBlank x = true
  · simp only [Cursor.isLineBlank, Bool.or_eq_true, beq_iff_eq] at hline
    obtain ((rfl | rfl) | rfl) | rfl := hline
    all_goals rfl
  · exfalso
    rw [Cursor.skipInline_solid (solid_of_blank hx hline _)] at h
    simp only [Cursor.atStatementEnd, Bool.or_eq_true, beq_iff_eq] at h
    obtain ((rfl | rfl) | rfl) | rfl := h
    · exact hline rfl
    all_goals cases hx

/-- A gap between statements ends in the same place, unless only blanks are left there. -/
theorem Cursor.separators_trimmed {bytes : Nat} (c : Cursor) :
    (c.placed bytes blanks).skipSeparators = c.skipSeparators.placed bytes blanks ∨
      c.skipSeparators.rest = [] ∧
        ∀ x ∈ (c.placed bytes blanks).skipSeparators.rest, isBlank x = true := by
  rcases skipSeparators_placed with ⟨-, hsame⟩ | ⟨hnil, hgap⟩
  · exact .inl hsame
  · obtain ⟨_, hgap⟩ := GapGoesOn.passes hgap
    have hsuffix := hgap.suffix
    rw [placed_rest, hnil, List.nil_append] at hsuffix
    exact .inr ⟨hnil, fun x hx => hblanks x (hsuffix.mem hx)⟩

/-- The next place of the text is that of the source, unless only blanks are left there. -/
theorem Cursor.next_trimmed {bytes : Nat} (hseam : Seam c.rest blanks) :
    (c.placed bytes blanks).skipInline.skipSeparators =
        c.skipInline.skipSeparators.placed bytes blanks ∨
      c.skipInline.skipSeparators.rest = [] ∧
        ∀ x ∈ (c.placed bytes blanks).skipInline.skipSeparators.rest, isBlank x = true := by
  rcases skipInline_placed bytes hseam with hsame | ⟨hnil, hshort⟩
  · rw [hsame]
    exact separators_trimmed hblanks c.skipInline
  · obtain ⟨_, hgap⟩ := (c.placed bytes blanks).passes_skipInline
    obtain ⟨_, hgap'⟩ := (c.placed bytes blanks).skipInline.passes_skipSeparators
    have hle := c.skipInline.skipSeparators_le
    have hle' := (c.placed bytes blanks).skipInline.skipSeparators_le
    rw [hnil] at hle
    exact .inr ⟨List.eq_nil_of_length_eq_zero (Nat.le_zero.1 hle),
      (hgap.trans hgap').blank hblanks (Nat.lt_of_le_of_lt hle' hshort)⟩

/-- Statements in front of blanks at the end of a source are read of the text alone. The induction
is on the reading; only its statements, one after the other, are of account. -/
theorem Reading.trimmed {C D : Cursor} {piece : Piece} {parts : List Piece}
    (h : Reading C piece D parts) {text : List Char} (hseam : Seam text blanks) (hend : D.rest = [])
    (bytes : Nat) :
    ∀ c, c.Of text →
      (C = c.placed bytes blanks ∨ c.rest = [] ∧ ∀ x ∈ C.rest, isBlank x = true) →
      ∀ statements, piece = .statements statements → ∃ own d parts', d.rest = [] ∧
        Reading c (.statements own) d parts' ∧ statements = Statement.shiftAll bytes own := by
  induction h with
  | @noStatements C stop =>
    rintro c - hplace _ ⟨⟩
    have hc : c.rest = [] := by
      rcases hplace with rfl | ⟨hnil, -⟩
      · exact (List.append_eq_nil_iff.1 hend).1
      · exact hnil
    exact ⟨[], c, _, hc, .noStatements (.inl hc), rfl⟩
  | @statements C D E statement statements _ _ goOn first ends more _ ihMore =>
    rintro c hc hplace _ ⟨⟩
    rcases hplace with rfl | ⟨-, hblank⟩
    · obtain ⟨d, taken, hcd, rfl⟩ := Cursor.Edged.placed hblanks first.edged
      have hd : d.Of text := hc.passes hcd
      have hnumber : d.rest = [] → Atom.endsNumber blanks = true := by
        intro hnil
        have hplace : d.placed bytes blanks = ⟨d.offset + bytes, blanks⟩ := by
          rw [Cursor.placed, hnil, List.nil_append]
        rw [hplace] at ends
        exact endsNumber_of_blanks hblanks ends
      obtain ⟨own, _, hown, rfl, -⟩ :=
        first.placed (closing_of_blanks hblanks) hseam c d rfl rfl hc hnumber
      have hne := Cursor.ne_nil_of_shorter first.shorter_statement
      obtain ⟨owns, e, _, he, howns, rfl⟩ := ihMore hend d.skipInline.skipSeparators
        hd.skipInline.skipSeparators (Cursor.next_trimmed hblanks (hseam.of hd)) _ rfl
      have ends' := Cursor.atStatementEnd_placed (hseam.of hd) ends
      refine ⟨own :: owns, e, _, he, .statements ?_ hown ends' howns, rfl⟩
      rintro (hnil | hbrace)
      · exact hne hnil
      · rw [← Cursor.head?_placed hne] at hbrace
        exact goOn (.inr hbrace)
    · -- A statement does not begin with a blank.
      exfalso
      rcases hrest : C.rest with _ | ⟨x, rest⟩
      · exact goOn (.inl hrest)
      · have hsolid := first.edged.head x (by rw [hrest]; rfl)
        rw [hblank x (by rw [hrest]; exact List.mem_cons_self)] at hsolid
        cases hsolid
  | _ =>
    intro _ _ _ _ heq
    cases heq

end Blanks

end Script
end KeywordScope
