import KeywordScope.Proofs.Script.Gaps

/-!
# Another gap

Behind an element that is no word, one gap does as well as another.

* `Regap`: a source with a gap behind such an element, and what takes the place of the gap.
* `Regap.Reach`: the places in front of the gap and behind it, in the source and in the new one.
* `Regap.Reach.inline`, `Regap.Reach.assignment?`, `Regap.Reach.pipe?`, `Regap.Reach.atom`, …: the
  readers find the same at places that correspond.
-/

namespace KeywordScope
namespace Script

/-- A source in which a gap stands behind a text that ends as an element does, and another gap to
take its place. -/
structure Regap where
  front : List Char
  gap : List Char
  gap' : List Char
  back : List Char
  isGap : InlineGap gap
  isGap' : InlineGap gap'
  gap_ne_nil : gap ≠ []
  gap'_ne_nil : gap' ≠ []
  ends : EndsElement front

namespace Regap

variable (G : Regap)

/-- What follows the text in the source. -/
def after : List Char :=
  G.gap ++ G.back

/-- What follows the text in the new source. -/
def after' : List Char :=
  G.gap' ++ G.back

/-- Where the text ends, and the gaps begin. -/
def stop : Nat :=
  utf8Length G.front

/-- Where the gap ends. -/
def resume : Nat :=
  utf8Length (G.front ++ G.gap)

/-- Where the new gap ends. -/
def resume' : Nat :=
  utf8Length (G.front ++ G.gap')

/-- The gaps change places. -/
def swap : Regap :=
  ⟨G.front, G.gap', G.gap, G.back, G.isGap', G.isGap, G.gap'_ne_nil, G.gap_ne_nil, G.ends⟩

theorem parting : Parting G.after :=
  G.isGap.parting G.gap_ne_nil G.back

theorem parting' : Parting G.after' :=
  G.swap.parting

theorem endsNumber : Atom.endsNumber G.after = true :=
  G.isGap.endsNumber G.gap_ne_nil G.back

theorem endsNumber' : Atom.endsNumber G.after' = true :=
  G.swap.endsNumber

theorem stop_lt_resume : G.stop < G.resume := by
  have hpos : 0 < utf8Length G.gap := by
    by_contra hzero
    exact G.gap_ne_nil (eq_nil_of_utf8Length (by omega))
  rw [stop, resume, utf8Length_append]
  omega

/-- The places of the sources that correspond: those up to the end of the text, and those behind the
gaps. -/
inductive Reach : Cursor → Cursor → Prop where
  | front {b : Cursor} (of : b.Of G.front) : Reach (b.placed 0 G.after) (b.placed 0 G.after')
  | back {b : Cursor} (of : b.Of G.back) : Reach (b.placed G.resume []) (b.placed G.resume' [])

end Regap

theorem Cursor.Of.offset_add {source : List Char} {c : Cursor} (h : c.Of source) :
    c.offset + utf8Length c.rest = utf8Length source := by
  obtain ⟨before, hpasses⟩ := h
  have hsource : source = before ++ c.rest := hpasses.rest_eq
  have hoffset : c.offset = 0 + utf8Length before := hpasses.offset_eq
  rw [hsource, utf8Length_append, hoffset, Nat.zero_add]

/-- The end of a text is its only place with nothing left. -/
theorem Cursor.Of.eq_end {source : List Char} {c : Cursor} (h : c.Of source) (hc : c.rest = []) :
    c = ⟨utf8Length source, []⟩ := by
  have hoffset := h.offset_add
  rw [hc] at hoffset
  rw [Cursor.mk.injEq]
  exact ⟨hoffset, hc⟩

theorem Cursor.Of.lt_end {source : List Char} {c : Cursor} (h : c.Of source) (hc : c.rest ≠ []) :
    c.offset < utf8Length source := by
  have hoffset := h.offset_add
  by_contra hle
  exact hc (eq_nil_of_utf8Length (by omega))

/-- What is passed from a place of a text, up to the end of the text at most, ends in the text. -/
theorem Cursor.Passes.within_placed {bytes : Nat} {after taken : List Char} {c m : Cursor}
    (h : (c.placed bytes after).Passes taken m)
    (hle : m.offset ≤ c.offset + bytes + utf8Length c.rest) :
    ∃ d, m = d.placed bytes after ∧ c.Passes taken d := by
  have hrest : c.rest ++ after = taken ++ m.rest := h.rest_eq
  have hoffset : m.offset = c.offset + bytes + utf8Length taken := h.offset_eq
  have hsplit : ∃ more, c.rest = taken ++ more ∧ m.rest = more ++ after := by
    rcases List.append_eq_append_iff.1 hrest with ⟨more, htaken, hafter⟩ | ⟨more, hc, hm⟩
    · have hlength := utf8Length_append c.rest more
      rw [← htaken] at hlength
      have hmore : utf8Length more = 0 := by omega
      obtain rfl := eq_nil_of_utf8Length hmore
      rw [List.append_nil] at htaken
      exact ⟨[], by rw [htaken, List.append_nil], hafter.symm⟩
    · exact ⟨more, hc, hm⟩
  obtain ⟨more, hc, hm⟩ := hsplit
  refine ⟨⟨c.offset + utf8Length taken, more⟩, ?_, hc, rfl⟩
  rw [Cursor.placed, Cursor.mk.injEq]
  refine ⟨?_, hm⟩
  show m.offset = c.offset + utf8Length taken + bytes
  omega

namespace Regap

variable {G : Regap} {c c' d d' : Cursor}

/-! ## Places -/

theorem offset_le {b : Cursor} (of : b.Of G.front) : b.offset ≤ G.stop := by
  have hoffset := of.offset_add
  rw [stop]
  omega

theorem ends_rest {b : Cursor} (of : b.Of G.front) : EndsElement b.rest :=
  G.ends.of_suffix of.suffix

theorem seam {b : Cursor} (of : b.Of G.front) (after : List Char) : Seam b.rest after :=
  (ends_rest of).seam after

/-- Behind the gap at the end of the text the rest of the source goes on. -/
theorem skipInline_gap : (⟨G.stop, G.after⟩ : Cursor).skipInline =
    (Cursor.mk 0 G.back).skipInline.placed G.resume [] := by
  rw [← Detached.nil.skipInline_placed, after, G.isGap.skipInline, Cursor.placed, List.append_nil,
    Nat.zero_add, resume, utf8Length_append, stop]

/-- Places that correspond stand in front of the end of the text, at it, or behind the gaps. -/
theorem Reach.cases (h : G.Reach c c') :
    (∃ b : Cursor, b.Of G.front ∧ b.rest ≠ [] ∧ c = b.placed 0 G.after ∧
      c' = b.placed 0 G.after') ∨
    (c = ⟨G.stop, G.after⟩ ∧ c' = ⟨G.stop, G.after'⟩) ∨
    ∃ b : Cursor, b.Of G.back ∧ c = b.placed G.resume [] ∧ c' = b.placed G.resume' [] := by
  cases h with
  | @front b of =>
    by_cases hb : b.rest = []
    · rw [of.eq_end hb]
      exact .inr (.inl ⟨rfl, rfl⟩)
    · exact .inl ⟨b, of, hb, rfl, rfl⟩
  | @back b of => exact .inr (.inr ⟨b, of, rfl, rfl⟩)

theorem exists_head : ∃ x ∈ InlineGap.heads, ∃ more, G.after = x :: more := by
  obtain ⟨x, hx, more, hgap⟩ := G.isGap.exists_head G.gap_ne_nil
  exact ⟨x, hx, more ++ G.back, by rw [after, hgap, List.cons_append]⟩

theorem exists_head' : ∃ x ∈ InlineGap.heads, ∃ more, G.after' = x :: more :=
  G.swap.exists_head

namespace Reach

theorem inline (h : G.Reach c c') : G.Reach c.skipInline c'.skipInline := by
  rcases h.cases with ⟨b, of, hb, rfl, rfl⟩ | ⟨rfl, rfl⟩ | ⟨b, of, rfl, rfl⟩
  · rw [(Cursor.skipInline_of_ends (ends_rest of) hb).2,
      (Cursor.skipInline_of_ends (ends_rest of) hb).2]
    exact .front of.skipInline
  · have hgap' : Cursor.skipInline ⟨G.stop, G.after'⟩ = _ := G.swap.skipInline_gap
    rw [skipInline_gap, hgap']
    exact .back (Cursor.Of.skipInline ⟨[], .refl _⟩)
  · rw [Detached.nil.skipInline_placed, Detached.nil.skipInline_placed]
    exact .back of.skipInline

theorem skipSpaces (h : G.Reach c c') (hne : c.offset ≠ G.stop) :
    G.Reach c.skipSpaces c'.skipSpaces := by
  rcases h.cases with ⟨b, of, hb, rfl, rfl⟩ | ⟨rfl, rfl⟩ | ⟨b, of, rfl, rfl⟩
  · rw [(Cursor.skipSpaces_of_ends (ends_rest of) hb).2,
      (Cursor.skipSpaces_of_ends (ends_rest of) hb).2]
    exact .front (of.passes b.passes_skipSpaces.choose_spec)
  · exact absurd rfl hne
  · rw [Detached.nil.skipSpaces_placed, Detached.nil.skipSpaces_placed]
    exact .back (of.passes b.passes_skipSpaces.choose_spec)

/-- A gap between statements ends in front of the end of the text, or begins behind the gaps. -/
theorem separators (h : G.Reach c c')
    (hclear : c.skipSeparators.offset < G.stop ∨ G.stop < c.offset) :
    G.Reach c.skipSeparators c'.skipSeparators := by
  obtain ⟨_, hpasses⟩ := c.passes_skipSeparators
  have hle := hpasses.le
  rcases h.cases with ⟨b, of, hb, rfl, rfl⟩ | ⟨rfl, rfl⟩ | ⟨b, of, rfl, rfl⟩
  · have hlt : b.offset < G.stop := of.lt_end hb
    rw [Cursor.placed_offset] at hclear
    have hclear := hclear.resolve_right (by omega)
    -- A gap that reached the end of the text would end there, or behind it.
    have hrest : b.skipSeparators.rest ≠ [] := by
      intro hnil
      rcases @Cursor.skipSeparators_placed 0 G.after b with ⟨hrest, -⟩ | ⟨-, hgap⟩
      · exact hrest hnil
      · obtain ⟨_, hgap⟩ := Cursor.GapGoesOn.passes hgap
        have hend := hgap.le
        rw [of.skipSeparators.eq_end hnil] at hend
        exact absurd hclear (Nat.not_lt.2 hend)
    have hsame : ∀ after, (b.placed 0 after).skipSeparators = b.skipSeparators.placed 0 after :=
      fun after => (Cursor.skipSeparators_placed.resolve_right fun h => hrest h.1).2
    rw [hsame, hsame]
    exact .front of.skipSeparators
  · exact absurd hclear (by simp only [not_or, Nat.not_lt]; exact ⟨hle, Nat.le_refl _⟩)
  · rw [Cursor.skipSeparators_eq_placed (Nat.zero_le _),
      Cursor.skipSeparators_eq_placed (Nat.zero_le _)]
    exact .back of.skipSeparators

/-! ## Next characters -/

/-- The same character comes next, or a gap in both sources. -/
theorem head_cases (h : G.Reach c c') : c'.rest.head? = c.rest.head? ∨
    (∃ x ∈ InlineGap.heads, ∃ more, c.rest = x :: more) ∧
      ∃ x ∈ InlineGap.heads, ∃ more, c'.rest = x :: more := by
  rcases h.cases with ⟨b, of, hb, rfl, rfl⟩ | ⟨rfl, rfl⟩ | ⟨b, of, rfl, rfl⟩
  · rw [Cursor.head?_placed hb, Cursor.head?_placed hb]
    exact .inl rfl
  · exact .inr ⟨G.exists_head, G.exists_head'⟩
  · exact .inl rfl

theorem head?_iff (h : G.Reach c c') {x : Char} (hx : x ∉ InlineGap.heads) :
    c'.rest.head? = some x ↔ c.rest.head? = some x := by
  rcases h.head_cases with hsame | ⟨⟨y, hy, _, hrest⟩, y', hy', _, hrest'⟩
  · rw [hsame]
  · have hno : ∀ {y : Char}, y ∈ InlineGap.heads → y ≠ x := by
      rintro _ hy rfl
      exact hx hy
    rw [hrest, hrest', List.head?_cons, List.head?_cons, Option.some.injEq, Option.some.injEq]
    exact ⟨fun h => absurd h (hno hy'), fun h => absurd h (hno hy)⟩

theorem nil_iff (h : G.Reach c c') : c'.rest = [] ↔ c.rest = [] := by
  rcases h.head_cases with hsame | ⟨⟨y, hy, _, hrest⟩, y', hy', _, hrest'⟩
  · rw [← List.head?_eq_none_iff, hsame, List.head?_eq_none_iff]
  · simp only [hrest, hrest', List.cons_ne_nil]

theorem atStatementEnd_eq (h : G.Reach c c') : c'.atStatementEnd = c.atStatementEnd := by
  have hheads : InlineGap.heads.any (fun x => x == '\n' || x == ';' || x == '}' || x == '#') =
      false := by
    decide
  rcases h.head_cases with hsame | ⟨⟨y, hy, _, hrest⟩, y', hy', _, hrest'⟩
  · unfold Cursor.atStatementEnd
    split
    · next hnil =>
      rw [h.nil_iff.1 hnil]
    · next x more hrest =>
      rw [hrest, List.head?_cons] at hsame
      obtain ⟨_, hrest'⟩ := List.head?_eq_some_iff.1 hsame.symm
      rw [hrest']
  · rw [Cursor.atStatementEnd, Cursor.atStatementEnd, hrest, hrest']
    exact (eq_false_of_mem hheads hy').trans (eq_false_of_mem hheads hy).symm

theorem atStageEnd_eq (h : G.Reach c c') : c'.atStageEnd = c.atStageEnd := by
  have hpipe : (c'.rest.head? == some '|') = (c.rest.head? == some '|') :=
    Bool.eq_iff_iff.2 (by rw [beq_iff_eq, beq_iff_eq, h.head?_iff (by decide)])
  rw [Cursor.atStageEnd, Cursor.atStageEnd, h.atStatementEnd_eq, hpipe]

/-- A character that begins no gap comes next in both sources, and what follows corresponds. It is
not the last one in front of the gap, if it ends no element. -/
theorem cons (h : G.Reach c c') {x : Char} {rest : List Char} (hx : x ∉ InlineGap.heads)
    (hrest : c.rest = x :: rest) :
    ∃ rest', c'.rest = x :: rest' ∧ G.Reach (c.seek rest) (c'.seek rest') ∧
      (endsElement x = false → (c.seek rest).offset ≠ G.stop) := by
  have hseek : ∀ {b : Cursor} {cs : List Char} (bytes : Nat) (after : List Char),
      b.rest = x :: cs → (b.placed bytes after).seek (cs ++ after) =
        (b.seek cs).placed bytes after :=
    fun _ _ hb => Cursor.seek_placed (hb ▸ List.suffix_cons _ _)
  have hplaced : ∀ {b : Cursor} {after : List Char}, b.rest ≠ [] → b.rest ++ after = x :: rest →
      ∃ cs, b.rest = x :: cs ∧ rest = cs ++ after := by
    intro b after hb heq
    obtain ⟨y, cs, hcs⟩ := List.exists_cons_of_ne_nil hb
    rw [hcs] at heq
    obtain ⟨rfl, rfl⟩ := List.cons.inj heq
    exact ⟨cs, hcs, rfl⟩
  rcases h.cases with ⟨b, of, hb, rfl, rfl⟩ | ⟨rfl, rfl⟩ | ⟨b, of, rfl, rfl⟩
  · obtain ⟨cs, hcs, rfl⟩ := hplaced hb hrest
    have of' : (b.seek cs).Of G.front := of.passes (Cursor.passes_seek_cons hcs)
    refine ⟨cs ++ G.after', by rw [Cursor.placed_rest, hcs, List.cons_append], ?_, fun hx => ?_⟩
    · rw [hseek _ _ hcs, hseek _ _ hcs]
      exact .front of'
    · rw [hseek _ _ hcs]
      exact Nat.ne_of_lt (of'.lt_end ((hcs ▸ ends_rest of).ne_nil hx))
  · obtain ⟨y, hy, more, hafter⟩ := G.exists_head
    obtain ⟨rfl, -⟩ := List.cons.inj (hafter.symm.trans hrest)
    exact absurd hy hx
  · obtain ⟨cs, hcs, rfl⟩ := hplaced (by rintro hb; simp [hb] at hrest) hrest
    refine ⟨cs ++ [], by rw [Cursor.placed_rest, hcs, List.cons_append], ?_, fun _ => ?_⟩
    · rw [hseek _ _ hcs, hseek _ _ hcs]
      exact .back (of.passes (Cursor.passes_seek_cons hcs))
    · have hlt := G.stop_lt_resume
      rw [hseek _ _ hcs, Cursor.placed_offset]
      omega

/-! ## Stages and values -/

/-- The sources have a further stage at places that correspond, or none at all. -/
theorem pipe? (h : G.Reach c c') : Option.Rel G.Reach (pipe? c) (pipe? c') := by
  have hinline := h.inline
  unfold Script.pipe?
  dsimp only
  generalize c.skipInline = e, c'.skipInline = e' at hinline
  by_cases hpipe : e.rest.head? = some '|'
  · obtain ⟨rest, hrest⟩ := List.head?_eq_some_iff.1 hpipe
    obtain ⟨rest', hrest', hseek, hstop⟩ := hinline.cons (by decide) hrest
    simp only [hrest, hrest']
    exact .some (hseek.skipSpaces (hstop (by decide)))
  · have hpipe' := mt (hinline.head?_iff (by decide)).1 hpipe
    split
    · next hrest => exact absurd (congrArg List.head? hrest) hpipe
    split
    · next hrest => exact absurd (congrArg List.head? hrest) hpipe'
    · exact .none

/-- The sources have the same variable at places that correspond, or none at all. -/
theorem splitVariable? (h : G.Reach c c') :
    Option.Rel (fun read read' => read'.1 = read.1 ∧ G.Reach (c.seek read.2) (c'.seek read'.2))
      (Atom.splitVariable? c.rest) (Atom.splitVariable? c'.rest) := by
  have hplaced : ∀ {b : Cursor} {first second : Nat} {after after' : List Char}, Parting after →
      Parting after' → (∀ rest, rest <:+ b.rest →
        G.Reach ((b.seek rest).placed first after) ((b.seek rest).placed second after')) →
      Option.Rel (fun read read' => read'.1 = read.1 ∧
          G.Reach ((b.placed first after).seek read.2) ((b.placed second after').seek read'.2))
        (Atom.splitVariable? (b.placed first after).rest)
        (Atom.splitVariable? (b.placed second after').rest) := by
    intro b first second after after' hafter hafter' hreach
    rw [Cursor.placed_rest, Cursor.placed_rest, Atom.splitVariable?_append hafter,
      Atom.splitVariable?_append hafter']
    rcases hname : Atom.splitVariable? b.rest with _ | ⟨name, rest⟩
    · exact .none
    · have hsuffix : rest <:+ b.rest := ⟨_, (Atom.splitVariable?_eq hname).2⟩
      refine .some ⟨rfl, ?_⟩
      rw [Cursor.seek_placed hsuffix, Cursor.seek_placed hsuffix]
      exact hreach rest hsuffix
  cases h with
  | front of =>
    refine hplaced G.parting G.parting' fun rest hrest => .front ?_
    exact of.passes (Cursor.passes_seek hrest.choose_spec.symm)
  | back of =>
    refine hplaced Detached.nil.closing.parting Detached.nil.closing.parting fun rest hrest =>
      .back ?_
    exact of.passes (Cursor.passes_seek hrest.choose_spec.symm)

theorem assignment? (h : G.Reach c c') :
    Option.Rel (fun found found' => found'.1 = found.1 ∧ G.Reach found.2 found'.2)
      (assignment? c) (assignment? c') := by
  have hname := h.splitVariable?
  unfold Script.assignment?
  generalize Atom.splitVariable? c.rest = read, Atom.splitVariable? c'.rest = read' at hname
  rcases hname with ⟨hsame, hreach⟩ | _
  swap
  · exact .none
  next found found' =>
  obtain ⟨name, rest⟩ := found
  obtain ⟨name', rest'⟩ := found'
  obtain rfl : name' = name := hsame
  have hinline := hreach.inline
  dsimp only
  generalize (c.seek rest).skipInline = e, (c'.seek rest').skipInline = e' at hinline
  by_cases hequals : e.rest.head? = some '='
  · obtain ⟨rest, hrest⟩ := List.head?_eq_some_iff.1 hequals
    obtain ⟨rest', hrest', hseek, -⟩ := hinline.cons (by decide) hrest
    have hsecond := hseek.head?_iff (x := '=') (by decide)
    rw [Cursor.seek_rest, Cursor.seek_rest] at hsecond
    rw [hrest, hrest']
    by_cases hdouble : rest.head? = some '='
    · obtain ⟨_, rfl⟩ := List.head?_eq_some_iff.1 hdouble
      obtain ⟨_, rfl⟩ := List.head?_eq_some_iff.1 (hsecond.2 hdouble)
      exact .none
    have hdouble' := mt hsecond.1 hdouble
    split
    · next heq => exact absurd (congrArg List.head? (List.cons.inj heq).2) hdouble
    · next heq =>
      obtain rfl := (List.cons.inj heq).2
      split
      · next heq => exact absurd (congrArg List.head? (List.cons.inj heq).2) hdouble'
      · next heq =>
        obtain rfl := (List.cons.inj heq).2
        exact .some ⟨rfl, hseek.inline⟩
      · next hother => exact absurd rfl (hother _)
    · next hother => exact absurd rfl (hother _)
  · have hequals' := mt (hinline.head?_iff (by decide)).1 hequals
    split
    · next heq => exact absurd (congrArg List.head? heq) hequals
    · next heq => exact absurd (congrArg List.head? heq) hequals
    split
    · next heq => exact absurd (congrArg List.head? heq) hequals'
    · next heq => exact absurd (congrArg List.head? heq) hequals'
    · exact .none

/-! ## Texts -/

/-- The texts between places that correspond are the same, or the gap is replaced in them. -/
theorem textTo_cases {taken taken' : List Char} (h : G.Reach c c') (h' : G.Reach d d')
    (hpasses : c.Passes taken d) (hpasses' : c'.Passes taken' d') :
    c'.textTo d' = c.textTo d ∨ (c.spanTo d).Encloses ⟨G.stop, G.resume⟩ ∧ ∃ before behind,
      (c.textTo d).toList = before ++ (G.gap ++ behind) ∧
        (c'.textTo d').toList = before ++ (G.gap' ++ behind) := by
  cases h with
  | @front b of =>
    cases h' with
    | front =>
      rw [Cursor.textTo_placed hpasses.of_placed, Cursor.textTo_placed hpasses.of_placed]
      exact .inl rfl
    | @back m of' =>
      obtain ⟨behind, hback⟩ := of'
      have hbehind : G.back = behind ++ m.rest := hback.rest_eq
      have htaken : ∀ {gap taken : List Char}, b.rest ++ (gap ++ G.back) = taken ++ (m.rest ++ []) →
          taken = b.rest ++ (gap ++ behind) := by
        intro gap taken hrest
        rw [List.append_nil, hbehind, ← List.append_assoc, ← List.append_assoc] at hrest
        rw [← List.append_assoc]
        exact (List.append_cancel_right hrest).symm
      rw [hpasses.textTo_eq, hpasses'.textTo_eq, String.toList_ofList, String.toList_ofList]
      have hstart : b.offset ≤ G.stop := offset_le of
      refine .inr ⟨⟨hstart, Nat.le_add_left _ _⟩, b.rest, behind, ?_, ?_⟩
      · exact htaken hpasses.rest_eq
      · exact htaken hpasses'.rest_eq
  | back =>
    cases h' with
    | front of' =>
      have hle := hpasses.le
      have hlt := G.stop_lt_resume
      have hfront := offset_le of'
      rw [Cursor.placed_offset, Cursor.placed_offset] at hle
      omega
    | back =>
      rw [Cursor.textTo_placed hpasses.of_placed, Cursor.textTo_placed hpasses.of_placed]
      exact .inl rfl

/-- Where the gap does not stand between the places, the texts are the same. -/
theorem textTo_eq {taken taken' : List Char} (h : G.Reach c c') (h' : G.Reach d d')
    (hpasses : c.Passes taken d) (hpasses' : c'.Passes taken' d')
    (hclear : d.offset < G.stop ∨ G.stop < c.offset) : c'.textTo d' = c.textTo d := by
  refine (h.textTo_cases h' hpasses hpasses').resolve_right ?_
  rintro ⟨⟨hstart, hstop⟩, -⟩
  have hlt := G.stop_lt_resume
  have hstart : c.offset ≤ G.stop := hstart
  have hstop : G.resume ≤ d.offset := hstop
  omega

end Reach

end Regap

/-! ## Trees -/

/-- Where a place of a source is, once the gap behind a text is replaced by another one. -/
def regappedOffset (front gap gap' : List Char) (offset : Nat) : Nat :=
  if offset ≤ utf8Length front then offset
  else offset - utf8Length (front ++ gap) + utf8Length (front ++ gap')

/-- The trees differ in the places behind a gap that is replaced, and in the texts of the blocks
that the gap stands in. -/
def Likeness.regapped (front gap gap' : List Char) : Likeness where
  span span span' := span' = ⟨regappedOffset front gap gap' span.start,
    regappedOffset front gap gap' span.stop⟩
  text text text' := text' = text
  value value value' := value' = value
  raw span text text' := text' = text ∨
    span.Encloses ⟨utf8Length front, utf8Length (front ++ gap)⟩ ∧ ∃ before behind,
      text.toList = before ++ (gap ++ behind) ∧ text'.toList = before ++ (gap' ++ behind)
  assigned text text' := text' = text
  sameName_of_text := sameName_of_eq

namespace Regap

variable {G : Regap} {c c' d d' : Cursor}

/-- The trees of the source and of the new one are alike in this way. -/
def likeness (G : Regap) : Likeness :=
  .regapped G.front G.gap G.gap'

theorem Reach.offset_eq (h : G.Reach c c') :
    c'.offset = regappedOffset G.front G.gap G.gap' c.offset := by
  have hlt := G.stop_lt_resume
  unfold regappedOffset
  cases h with
  | front of =>
    have hle := offset_le of
    rw [stop] at hle
    rw [if_pos (by rw [Cursor.placed_offset]; omega)]
    rfl
  | @back b =>
    rw [stop] at hlt
    rw [if_neg (by rw [Cursor.placed_offset]; omega)]
    show b.offset + G.resume' = b.offset + G.resume - G.resume + G.resume'
    rw [Nat.add_sub_cancel]

theorem Reach.span (h : G.Reach c c') (h' : G.Reach d d') :
    G.likeness.span (c.spanTo d) (c'.spanTo d') := by
  show c'.spanTo d' = ⟨regappedOffset _ _ _ c.offset, regappedOffset _ _ _ d.offset⟩
  rw [← h.offset_eq, ← h'.offset_eq]
  rfl

end Regap

/-! ## Atoms -/

/-- An atom of a source is one of another source in which the text that it stands in is followed by
something else. -/
theorem Atom.read_replaced {bytes : Nat} (bytes' : Nat) {after after' source : List Char}
    {c d : Cursor} {read : Consumed Element (c.placed bytes after)} (hc : c.Of source)
    (hafter : Parting after) (hafter' : Parting after') (hseam : Seam c.rest after)
    (hseam' : Seam c.rest after') (hends : endsNumber after = true)
    (hends' : endsNumber after' = true)
    (hword : read.value.isBareword = true → d.rest = [] → EndsWord after ∧ EndsWord after')
    (hquotes : Group.StayUnpaired (Group.unpaired c.rest) after →
      Group.StayUnpaired (Group.unpaired c.rest) after')
    (h : Atom.read (c.placed bytes after) = .ok read) (hnext : read.next = d.placed bytes after) :
    ∃ read', ∃ own : Element, Atom.read (c.placed bytes' after') = .ok read' ∧
      read'.next = d.placed bytes' after' ∧ (∀ block, own ≠ .script block) ∧
      own.span = c.spanTo d ∧ read.value = own.shift bytes ∧ read'.value = own.shift bytes' := by
  obtain ⟨own, hown, hvalue, rfl⟩ := read_placed hafter hseam (fun _ => hends)
    (fun hbare hd => (hword hbare hd).1) h hnext
  have hbareword : own.value.isBareword = read.value.isBareword := by
    rw [hvalue, Element.isBareword_shift]
  obtain ⟨⟨_, -, -, hspan⟩, hatom⟩ := stands_read hown
  have hunpaired := staysUnpaired_of_placed hafter hc hown h hvalue hnext
  obtain ⟨read', hread', hnext', hvalue'⟩ := @read_append bytes' after' c hafter' hseam' hends'
    own hown (fun hbare hd => (hword (hbareword.symm.trans hbare) hd).2)
    (fun hgroup => hquotes (hunpaired hgroup c hc (by rw [hspan]; rfl)))
  exact ⟨read', own.value, hread', hnext', hatom, hspan, hvalue, hvalue'⟩

namespace Regap

variable {G : Regap} {c c' d d' : Cursor}

/-- A quote without a partner in what follows the text has none behind the other gap. -/
theorem stayUnpaired {b : Cursor} (of : b.Of G.front)
    (h : Group.StayUnpaired (Group.unpaired b.rest) G.after) :
    Group.StayUnpaired (Group.unpaired b.rest) G.after' := by
  intro quote hquote
  have hends : EndsElement quote := (ends_rest of).of_suffix (Group.suffix_of_unpaired hquote)
  refine (Quoted.read?_none_congr hends G.parting G.parting' ?_ ?_).1 (h quote hquote)
  · exact (G.isGap.readDouble?_eq_none _).trans (G.isGap'.readDouble?_eq_none _).symm
  · exact (G.isGap.readSingle?_eq_none _).trans (G.isGap'.readSingle?_eq_none _).symm

/-- An atom at places that correspond is alike in both sources. -/
theorem Reach.like_atom {bytes bytes' : Nat} {after after' : List Char} {e : Element}
    (h : G.Reach (c.placed bytes after) (c.placed bytes' after'))
    (h' : G.Reach (d.placed bytes after) (d.placed bytes' after'))
    (hatom : ∀ block, e ≠ .script block) (hspan : e.span = c.spanTo d) :
    (e.shift bytes).Like G.likeness (e.shift bytes') := by
  refine Element.like_shift (L := G.likeness) hatom (fun _ => rfl) (fun _ => rfl) ?_
  rw [hspan]
  exact h.span h'

/-- The sources have the same atom at places that correspond, unless the gap stands in it, or it is
a word in front of the gap. -/
theorem Reach.atom (h : G.Reach c c') {read : Consumed Element c} (hread : Atom.read c = .ok read)
    (hplace : read.next.offset < G.stop ∨ G.stop < c.offset ∨
      read.next.offset = G.stop ∧ read.value.isBareword = false) :
    ∃ read', Atom.read c' = .ok read' ∧ G.Reach read.next read'.next ∧
      read.value.Like G.likeness read'.value := by
  obtain ⟨⟨taken, hpasses, -⟩, -⟩ := Atom.stands_read hread
  cases h with
  | @front b of =>
    have hle := offset_le of
    have hfront : b.offset + utf8Length b.rest = G.stop := of.offset_add
    rw [Cursor.placed_offset] at hplace
    obtain ⟨d, hnext, hd⟩ := hpasses.within_placed (by omega)
    have hword : read.value.isBareword = true → d.rest = [] →
        EndsWord G.after ∧ EndsWord G.after' := by
      intro hbare hrest
      have hstop : read.next.offset = G.stop := by
        rw [hnext, (of.passes hd).eq_end hrest]
        rfl
      have hnoWord := hplace.resolve_left (by omega)
      rw [hbare] at hnoWord
      exact absurd (hnoWord.resolve_left (by omega)).2 (by decide)
    obtain ⟨read', own, hread', hnext', hatom, hspan, hvalue, hvalue'⟩ :=
      Atom.read_replaced 0 of G.parting G.parting' (seam of _) (seam of _) G.endsNumber
        G.endsNumber' hword (stayUnpaired of) hread hnext
    have hreach := Reach.front (of.passes hd)
    refine ⟨read', hread', by rwa [hnext, hnext'], ?_⟩
    rw [hvalue, hvalue']
    exact Reach.like_atom (.front of) hreach hatom hspan
  | @back b of =>
    have hle : read.next.offset ≤ b.offset + G.resume + utf8Length b.rest := by
      have hrest : b.rest ++ [] = taken ++ read.next.rest := hpasses.rest_eq
      have hlength := congrArg utf8Length hrest
      have hoffset : read.next.offset = b.offset + G.resume + utf8Length taken := hpasses.offset_eq
      rw [List.append_nil, utf8Length_append] at hlength
      omega
    obtain ⟨d, hnext, hd⟩ := hpasses.within_placed hle
    have hafter : Parting [] := Detached.nil.closing.parting
    have hword : EndsWord [] := Detached.nil.closing.endsWord
    obtain ⟨read', own, hread', hnext', hatom, hspan, hvalue, hvalue'⟩ :=
      Atom.read_replaced G.resume' of hafter hafter (Detached.nil.seam _)
        (Detached.nil.seam _) rfl rfl (fun _ _ => ⟨hword, hword⟩) id hread hnext
    have hreach := Reach.back (of.passes hd)
    refine ⟨read', hread', by rwa [hnext, hnext'], ?_⟩
    rw [hvalue, hvalue']
    exact Reach.like_atom (.back of) hreach hatom hspan

end Regap

end Script
end KeywordScope
