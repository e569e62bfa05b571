import KeywordScope.Proofs.Script.Rounds
import KeywordScope.Proofs.Script.Shifted

/-!
# A text within a source

Places of a text that stands within a source, and the gaps from there on.

* `Cursor.placed bytes after c`: the place of the source that the cursor of the text is at, if the
  text stands behind `bytes` bytes and in front of `after`.
* `Closing after`, `Parting after`: what follows begins no lexeme, or none but perhaps a word.
* `Seam text after`: what follows continues no line.
* `Cursor.skipInline_placed`, …: gaps end in the same place, or reach the end of the text.
-/

namespace KeywordScope
namespace Script

/-- The place in a source where the text stands behind `bytes` bytes and in front of `after`. -/
def Cursor.placed (bytes : Nat) (after : List Char) (c : Cursor) : Cursor :=
  ⟨c.offset + bytes, c.rest ++ after⟩

/-- What follows a text is nothing, or begins with a blank, a closing brace, a semicolon or a
backtick. -/
def Parting (after : List Char) : Prop :=
  ∀ x ∈ after.head?, isBlank x = true ∨ x ∈ ['}', ';', '\x60']

/-- What follows a text is nothing, or begins with a blank, a closing brace or a semicolon. -/
def Closing (after : List Char) : Prop :=
  ∀ x ∈ after.head?, isBlank x = true ∨ x ∈ ['}', ';']

/-- No backtick at the end of the text continues a line that ends in what follows. -/
structure Seam (text after : List Char) : Prop where
  newline : ¬ (['\x60'] <:+ text ∧ ['\n'] <+: after)
  carriageReturn : ¬ (['\x60'] <:+ text ∧ ['\r', '\n'] <+: after)
  between : ¬ (['\x60', '\r'] <:+ text ∧ ['\n'] <+: after)

variable {bytes : Nat} {after : List Char} {c d : Cursor}

theorem Seam.of_suffix {text rest : List Char} (h : Seam text after) (hrest : rest <:+ text) :
    Seam rest after :=
  ⟨fun h' => h.newline ⟨h'.1.trans hrest, h'.2⟩,
    fun h' => h.carriageReturn ⟨h'.1.trans hrest, h'.2⟩,
    fun h' => h.between ⟨h'.1.trans hrest, h'.2⟩⟩

/-- Only what begins with the end of a line can be where a continued line ends. -/
theorem Seam.of_head {text : List Char} (h : ∀ x ∈ after.head?, x ≠ '\n' ∧ x ≠ '\r') :
    Seam text after := by
  have hnot : ∀ {x : Char} {more : List Char}, x :: more <+: after → x ≠ '\n' ∧ x ≠ '\r' := by
    rintro x more ⟨rest, rfl⟩
    exact h x rfl
  exact ⟨fun h' => (hnot h'.2).1 rfl, fun h' => (hnot h'.2).2 rfl, fun h' => (hnot h'.2).1 rfl⟩

/-- A continued line that begins in the text ends there. -/
theorem Seam.newline_eq {cs rest : List Char} (h : Seam ('\x60' :: cs) after)
    (heq : cs ++ after = '\n' :: rest) : ∃ more, cs = '\n' :: more := by
  rcases cs with _ | ⟨x, cs⟩
  · exact absurd ⟨List.suffix_refl _, ⟨rest, heq.symm⟩⟩ h.newline
  · obtain ⟨rfl, -⟩ := List.cons.inj heq
    exact ⟨cs, rfl⟩

theorem Seam.carriageReturn_eq {cs rest : List Char} (h : Seam ('\x60' :: cs) after)
    (heq : cs ++ after = '\r' :: '\n' :: rest) : ∃ more, cs = '\r' :: '\n' :: more := by
  rcases cs with _ | ⟨x, _ | ⟨y, cs⟩⟩
  · exact absurd ⟨List.suffix_refl _, ⟨rest, heq.symm⟩⟩ h.carriageReturn
  · obtain ⟨rfl, hmore⟩ := List.cons.inj heq
    exact absurd ⟨List.suffix_refl _, ⟨rest, hmore.symm⟩⟩ h.between
  · obtain ⟨rfl, hmore⟩ := List.cons.inj heq
    obtain ⟨rfl, -⟩ := List.cons.inj hmore
    exact ⟨cs, rfl⟩

theorem Closing.parting (h : Closing after) : Parting after := by
  intro x hx
  refine (h x hx).imp_right fun hx => ?_
  rw [List.mem_cons, List.mem_singleton] at hx
  rcases hx with rfl | rfl
  · decide
  · decide

theorem eq_false_of_mem {p : Char → Bool} {xs : List Char} (h : xs.any p = false) {x : Char}
    (hx : x ∈ xs) : p x = false :=
  Bool.eq_false_iff.2 (List.any_eq_false.1 h x hx)

/-- What follows does not begin with a character of a class without blanks, closing braces,
semicolons and backticks. -/
theorem Parting.not {p : Char → Bool} (h : Parting after)
    (hblank : ∀ x, isBlank x = true → p x = false)
    (hother : ['}', ';', '\x60'].any p = false) : ∀ x ∈ after.head?, p x = false :=
  fun x hx => (h x hx).elim (hblank x) (eq_false_of_mem hother)

theorem Parting.head_ne (h : Parting after) {x : Char} (hblank : isBlank x = false)
    (hother : x ∉ ['}', ';', '\x60']) (rest : List Char) : after ≠ x :: rest := by
  rintro rfl
  rcases h x rfl with hx | hx
  · rw [hblank] at hx
    cases hx
  · exact hother hx

/-- What stands in front of a source and cannot follow the text stands in front of the text. -/
theorem Parting.cons_eq (h : Parting after) {x : Char} {cs rest : List Char}
    (hblank : isBlank x = false) (hother : x ∉ ['}', ';', '\x60']) (heq : cs ++ after = x :: rest) :
    ∃ rest', cs = x :: rest' ∧ rest = rest' ++ after := by
  rcases cs with _ | ⟨y, cs⟩
  · exact absurd heq (h.head_ne hblank hother rest)
  · obtain ⟨rfl, rfl⟩ := List.cons.inj heq
    exact ⟨cs, rfl, rfl⟩

/-- What does not begin with a character does not begin with it if something else follows. -/
theorem append_ne_cons {cs : List Char} {x : Char} (hcs : ∀ more, cs ≠ x :: more)
    (hafter : ∀ more, after ≠ x :: more) : ∀ more, cs ++ after ≠ x :: more := by
  intro more h
  rcases cs with _ | ⟨y, cs⟩
  · exact hafter more h
  · exact hcs cs (congrArg (· :: cs) (List.cons.inj h).1)

/-- A text in front of what follows begins with a character just if it does so alone. -/
theorem Parting.front_cases (h : Parting after) (cs : List Char) {x : Char}
    (hblank : isBlank x = false) (hother : x ∉ ['}', ';', '\x60']) :
    (∃ rest, cs = x :: rest) ∨ (∀ rest, cs ≠ x :: rest) ∧ ∀ rest, cs ++ after ≠ x :: rest := by
  by_cases hcs : ∃ rest, cs = x :: rest
  · exact .inl hcs
  · have hcs := not_exists.1 hcs
    exact .inr ⟨hcs, append_ne_cons hcs (h.head_ne hblank hother)⟩

/-! ## Cursors -/

namespace Cursor

@[simp]
theorem placed_rest : (c.placed bytes after).rest = c.rest ++ after := rfl

@[simp]
theorem placed_offset : (c.placed bytes after).offset = c.offset + bytes := rfl

theorem head?_placed (h : c.rest ≠ []) : (c.placed bytes after).rest.head? = c.rest.head? := by
  obtain ⟨x, cs, hcs⟩ := List.exists_cons_of_ne_nil h
  rw [placed_rest, hcs]
  rfl

/-- What goes on within the text begins within it. -/
theorem ne_nil_of_shorter
    (h : (d.placed bytes after).rest.length < (c.placed bytes after).rest.length) :
    c.rest ≠ [] := by
  intro hnil
  rw [placed_rest, placed_rest, hnil, List.length_append, List.nil_append] at h
  omega

theorem placed_inj : c.placed bytes after = d.placed bytes after ↔ c = d := by
  obtain ⟨offset, rest⟩ := c
  obtain ⟨offset', rest'⟩ := d
  simp only [placed, Cursor.mk.injEq, Nat.add_right_cancel_iff, List.append_left_inj]

theorem spanTo_placed :
    (c.placed bytes after).spanTo (d.placed bytes after) = (c.spanTo d).shift bytes := rfl

theorem Passes.suffix {taken : List Char} (h : c.Passes taken d) : d.rest <:+ c.rest :=
  ⟨taken, h.rest_eq.symm⟩

theorem Passes.seek_eq {taken : List Char} (h : c.Passes taken d) : c.seek d.rest = d := by
  rw [Cursor.mk.injEq]
  exact ⟨(passes_seek h.rest_eq).offset_eq.trans h.offset_eq.symm, rfl⟩

theorem Passes.placed {taken : List Char} (h : c.Passes taken d) :
    (c.placed bytes after).Passes taken (d.placed bytes after) := by
  refine ⟨?_, ?_⟩
  · rw [placed_rest, placed_rest, h.rest_eq, List.append_assoc]
  · rw [placed_offset, placed_offset, h.offset_eq, Nat.add_right_comm]

theorem Passes.of_placed {taken : List Char}
    (h : (c.placed bytes after).Passes taken (d.placed bytes after)) : c.Passes taken d := by
  have hrest := h.rest_eq
  have hoffset := h.offset_eq
  rw [placed_rest, placed_rest, ← List.append_assoc] at hrest
  rw [placed_offset, placed_offset] at hoffset
  exact ⟨List.append_cancel_right hrest, by omega⟩

theorem seek_placed {rest : List Char} (h : rest <:+ c.rest) :
    (c.placed bytes after).seek (rest ++ after) = (c.seek rest).placed bytes after := by
  obtain ⟨taken, htaken⟩ := h
  have hrest : (c.placed bytes after).rest = taken ++ (rest ++ after) := by
    rw [placed_rest, ← htaken, List.append_assoc]
  rw [seek_append _ hrest, seek_append _ htaken.symm]
  exact congrArg (Cursor.mk · _) (Nat.add_right_comm _ _ _)

/-- A character that cannot follow the text is passed in it. -/
theorem seek_cons_placed (hafter : Parting after) {x : Char} {rest : List Char}
    (hblank : isBlank x = false) (hother : x ∉ ['}', ';', '\x60'])
    (h : (c.placed bytes after).rest = x :: rest) :
    ∃ rest', c.rest = x :: rest' ∧ rest = rest' ++ after ∧
      (c.placed bytes after).seek rest = (c.seek rest').placed bytes after := by
  obtain ⟨rest', hrest', rfl⟩ := hafter.cons_eq hblank hother h
  exact ⟨rest', hrest', rfl, seek_placed (hrest' ▸ List.suffix_cons _ _)⟩

theorem textTo_placed {taken : List Char} (h : c.Passes taken d) :
    (c.placed bytes after).textTo (d.placed bytes after) = c.textTo d := by
  have hplaced : (c.placed bytes after).Passes taken (d.placed bytes after) := h.placed
  rw [h.textTo_eq, hplaced.textTo_eq]

/-- What lies between two places of the text is a place of the text. -/
theorem Passes.between {m : Cursor} {taken more : List Char}
    (h : (c.placed bytes after).Passes taken m) (h' : m.Passes more (d.placed bytes after)) :
    ∃ m', m = m'.placed bytes after ∧ c.Passes taken m' ∧ m'.Passes more d := by
  have hrest : c.rest = taken ++ (more ++ d.rest) := by
    have hall := h.rest_eq
    rw [h'.rest_eq, placed_rest, placed_rest, ← List.append_assoc, ← List.append_assoc] at hall
    rw [← List.append_assoc]
    exact List.append_cancel_right hall
  have hoffset : m.offset = c.offset + utf8Length taken + bytes := by
    rw [h.offset_eq, placed_offset, Nat.add_right_comm]
  refine ⟨⟨c.offset + utf8Length taken, more ++ d.rest⟩, ?_, ⟨hrest, rfl⟩, rfl, ?_⟩
  · rw [Cursor.placed, Cursor.mk.injEq]
    refine ⟨hoffset, ?_⟩
    rw [h'.rest_eq, placed_rest, List.append_assoc]
  · have hall := h'.offset_eq
    rw [placed_offset, hoffset] at hall
    show d.offset = c.offset + utf8Length taken + utf8Length more
    omega

/-- A rest that the text ends in is not shorter than what follows the text. -/
theorem Passes.length_le {taken : List Char} {m : Cursor}
    (h : m.Passes taken (d.placed bytes after)) : after.length ≤ m.rest.length := by
  rw [h.rest_eq, placed_rest, List.length_append, List.length_append]
  omega

/-! ## Gaps -/

/-- A gap that takes nothing stays where it is. -/
theorem eq_or_shorter {gap : List Char} (h : c.Passes gap d) :
    d = c ∨ d.rest.length < c.rest.length := by
  rcases gap with _ | ⟨x, gap⟩
  · left
    rw [Cursor.mk.injEq]
    exact ⟨h.offset_eq, h.rest_eq.symm⟩
  · right
    rw [h.rest_eq, List.length_append, List.length_cons]
    omega

/-- A gap that goes on behind the end of the text takes some of what follows, or nothing. -/
theorem end_placed {gap : List Char} {m e : Cursor} (hm : m.rest = [])
    (hgap : (m.placed bytes after).Passes gap e) :
    e = m.placed bytes after ∨ m.rest = [] ∧ e.rest.length < after.length := by
  rcases eq_or_shorter hgap with h | h
  · exact .inl h
  · rw [placed_rest, hm] at h
    exact .inr ⟨hm, h⟩

private theorem skipInline_go_placed (offset : Nat) (cs : List Char) (hseam : Seam cs after) :
    skipInline.go (offset + bytes) (cs ++ after) = (skipInline.go offset cs).placed bytes after ∨
      (skipInline.go offset cs).rest = [] ∧ skipInline.go (offset + bytes) (cs ++ after) =
        ((skipInline.go offset cs).placed bytes after).skipInline := by
  fun_induction skipInline.go offset cs with
  | case1 offset rest ih | case2 offset rest ih | case3 offset rest ih =>
    have h := ih (hseam.of_suffix (List.suffix_cons _ _))
    rw [Nat.add_right_comm] at h
    exact h
  | case4 offset rest ih =>
    have h := ih (hseam.of_suffix (List.suffix_append ['\x60', '\r', '\n'] rest))
    rw [Nat.add_right_comm] at h
    exact h
  | case5 offset rest ih =>
    have h := ih (hseam.of_suffix (List.suffix_append ['\x60', '\n'] rest))
    rw [Nat.add_right_comm] at h
    exact h
  | case6 offset cs hspace htab hreturn hcrlf hline =>
    rcases cs with _ | ⟨x, cs⟩
    · exact .inr ⟨rfl, rfl⟩
    · left
      rw [List.cons_append]
      unfold skipInline.go
      split
      · next heq =>
        obtain ⟨rfl, -⟩ := List.cons.inj heq
        exact absurd rfl (hspace cs)
      · next heq =>
        obtain ⟨rfl, -⟩ := List.cons.inj heq
        exact absurd rfl (htab cs)
      · next heq =>
        obtain ⟨rfl, -⟩ := List.cons.inj heq
        exact absurd rfl (hreturn cs)
      · next heq =>
        obtain ⟨rfl, hmore⟩ := List.cons.inj heq
        obtain ⟨more, rfl⟩ := hseam.carriageReturn_eq hmore
        exact absurd rfl (hcrlf more)
      · next heq =>
        obtain ⟨rfl, hmore⟩ := List.cons.inj heq
        obtain ⟨more, rfl⟩ := hseam.newline_eq hmore
        exact absurd rfl (hline more)
      · rfl

/-- A gap within a statement ends in the same place, or reaches the end of the text and goes on. -/
theorem skipInline_placed_or (bytes : Nat) (hseam : Seam c.rest after) :
    (c.placed bytes after).skipInline = c.skipInline.placed bytes after ∨
      c.skipInline.rest = [] ∧
        (c.placed bytes after).skipInline = (c.skipInline.placed bytes after).skipInline :=
  skipInline_go_placed c.offset c.rest hseam

theorem skipInline_placed (bytes : Nat) (hseam : Seam c.rest after) :
    (c.placed bytes after).skipInline = c.skipInline.placed bytes after ∨
      c.skipInline.rest = [] ∧ (c.placed bytes after).skipInline.rest.length < after.length := by
  rcases skipInline_placed_or bytes hseam with h | ⟨hnil, h⟩
  · exact .inl h
  · obtain ⟨_, hgap⟩ := (c.skipInline.placed bytes after).passes_skipInline
    exact end_placed hnil (h ▸ hgap)

theorem skipInline_eq_placed (hseam : Seam c.rest after)
    (h : after.length ≤ (c.placed bytes after).skipInline.rest.length) :
    (c.placed bytes after).skipInline = c.skipInline.placed bytes after :=
  (skipInline_placed bytes hseam).resolve_right fun h' => absurd h'.2 (Nat.not_lt.2 h)

private theorem skipSpaces_go_placed (offset : Nat) (cs : List Char) :
    skipSpaces.go (offset + bytes) (cs ++ after) = (skipSpaces.go offset cs).placed bytes after ∨
      (skipSpaces.go offset cs).rest = [] ∧ skipSpaces.go (offset + bytes) (cs ++ after) =
        ((skipSpaces.go offset cs).placed bytes after).skipSpaces := by
  fun_induction skipSpaces.go offset cs with
  | case1 offset rest ih | case2 offset rest ih | case3 offset rest ih | case4 offset rest ih =>
    rw [Nat.add_right_comm] at ih
    exact ih
  | case5 offset cs hspace htab hreturn hline =>
    rcases cs with _ | ⟨x, cs⟩
    · exact .inr ⟨rfl, rfl⟩
    · left
      rw [List.cons_append]
      unfold skipSpaces.go
      split
      · next heq =>
        obtain ⟨rfl, -⟩ := List.cons.inj heq
        exact absurd rfl (hspace cs)
      · next heq =>
        obtain ⟨rfl, -⟩ := List.cons.inj heq
        exact absurd rfl (htab cs)
      · next heq =>
        obtain ⟨rfl, -⟩ := List.cons.inj heq
        exact absurd rfl (hreturn cs)
      · next heq =>
        obtain ⟨rfl, -⟩ := List.cons.inj heq
        exact absurd rfl (hline cs)
      · rfl

theorem skipSpaces_placed_or :
    (c.placed bytes after).skipSpaces = c.skipSpaces.placed bytes after ∨
      c.skipSpaces.rest = [] ∧
        (c.placed bytes after).skipSpaces = (c.skipSpaces.placed bytes after).skipSpaces :=
  skipSpaces_go_placed c.offset c.rest

theorem skipSpaces_eq_placed (h : after.length ≤ (c.placed bytes after).skipSpaces.rest.length) :
    (c.placed bytes after).skipSpaces = c.skipSpaces.placed bytes after := by
  rcases skipSpaces_placed_or with hsame | ⟨hnil, hsame⟩
  · exact hsame
  · obtain ⟨_, hgap⟩ := (c.skipSpaces.placed bytes after).passes_skipSpaces
    exact (end_placed hnil (hsame ▸ hgap)).resolve_right fun h' => absurd h'.2 (Nat.not_lt.2 h)

/-- A comment is passed up to the end of its line. -/
theorem passes_comment (c : Cursor) :
    ∃ gap, c.Passes gap (skipSeparators.comment c.offset c.rest) := by
  have hgap : c.Passes (c.rest.takeWhile (· ≠ '\n'))
      ⟨c.offset + utf8Length (c.rest.takeWhile (· ≠ '\n')), c.rest.dropWhile (· ≠ '\n')⟩ :=
    ⟨List.takeWhile_append_dropWhile.symm, rfl⟩
  rw [skipSeparators_comment]
  obtain ⟨gap, hmore⟩ := passes_skipSeparators
    ⟨c.offset + utf8Length (c.rest.takeWhile (· ≠ '\n')), c.rest.dropWhile (· ≠ '\n')⟩
  exact ⟨_, hgap.trans hmore⟩

/-- A gap between statements goes on from the one cursor up to the other, perhaps in a comment. -/
def GapGoesOn (c d : Cursor) : Prop :=
  d = c.skipSeparators ∨ d = skipSeparators.comment c.offset c.rest

private theorem skipSeparators_go_placed (offset : Nat) (cs : List Char) :
    ((skipSeparators.go offset cs).rest ≠ [] ∧ skipSeparators.go (offset + bytes) (cs ++ after) =
        (skipSeparators.go offset cs).placed bytes after ∨
      (skipSeparators.go offset cs).rest = [] ∧
        GapGoesOn ((skipSeparators.go offset cs).placed bytes after)
          (skipSeparators.go (offset + bytes) (cs ++ after))) ∧
    ((skipSeparators.comment offset cs).rest ≠ [] ∧
      skipSeparators.comment (offset + bytes) (cs ++ after) =
        (skipSeparators.comment offset cs).placed bytes after ∨
      (skipSeparators.comment offset cs).rest = [] ∧
        GapGoesOn ((skipSeparators.comment offset cs).placed bytes after)
          (skipSeparators.comment (offset + bytes) (cs ++ after))) := by
  induction cs generalizing offset with
  | nil => exact ⟨.inr ⟨rfl, .inl rfl⟩, .inr ⟨rfl, .inr rfl⟩⟩
  | cons x cs ih =>
    rw [List.cons_append]
    constructor
    · unfold skipSeparators.go
      split
      case h_6 rest heq =>
        obtain ⟨rfl, rfl⟩ := List.cons.inj heq
        have h := (ih (offset + 1)).2
        rw [Nat.add_right_comm] at h
        exact h
      case h_7 hspace htab hreturn hline hsemicolon hcomment =>
        left
        split
        case h_7 => exact ⟨List.cons_ne_nil x cs, rfl⟩
        all_goals
          next rest heq =>
          obtain ⟨rfl, rfl⟩ := List.cons.inj heq
          simp at hspace htab hreturn hline hsemicolon hcomment
      all_goals
        next rest heq =>
        obtain ⟨rfl, rfl⟩ := List.cons.inj heq
        have h := (ih (offset + 1)).1
        rw [Nat.add_right_comm] at h
        exact h
    · by_cases hx : x = '\n'
      · subst hx
        have h := (ih (offset + 1)).1
        rw [Nat.add_right_comm] at h
        exact h
      · have h := (ih (offset + x.utf8Size)).2
        rw [Nat.add_right_comm] at h
        rw [skipSeparators.comment, skipSeparators.comment]
        · exact h
        · exact hx
        · exact hx

/-- A gap between statements ends in the same place, or reaches the end of the text and goes on. -/
theorem skipSeparators_placed :
    c.skipSeparators.rest ≠ [] ∧
        (c.placed bytes after).skipSeparators = c.skipSeparators.placed bytes after ∨
      c.skipSeparators.rest = [] ∧
        GapGoesOn (c.skipSeparators.placed bytes after) (c.placed bytes after).skipSeparators :=
  (skipSeparators_go_placed c.offset c.rest).1

theorem GapGoesOn.passes (h : GapGoesOn c d) : ∃ gap, c.Passes gap d := by
  rcases h with rfl | rfl
  · exact c.passes_skipSeparators
  · exact c.passes_comment

theorem skipSeparators_eq_placed
    (h : after.length ≤ (c.placed bytes after).skipSeparators.rest.length) :
    (c.placed bytes after).skipSeparators = c.skipSeparators.placed bytes after := by
  rcases skipSeparators_placed with ⟨-, hsame⟩ | ⟨hnil, hgap⟩
  · exact hsame
  · obtain ⟨_, hgap⟩ := GapGoesOn.passes hgap
    exact (end_placed hnil hgap).resolve_right fun h' => absurd h'.2 (Nat.not_lt.2 h)

/-- Where a statement may end in the source, one may end in the text. -/
theorem atStatementEnd_placed (hseam : Seam c.rest after)
    (h : (c.placed bytes after).skipInline.atStatementEnd = true) :
    c.skipInline.atStatementEnd = true := by
  rcases skipInline_placed bytes hseam with hsame | ⟨hnil, -⟩
  · rw [hsame] at h
    unfold atStatementEnd at h ⊢
    rcases hrest : c.skipInline.rest with _ | ⟨x, rest⟩
    · rfl
    · rw [placed_rest, hrest] at h
      exact h
  · rw [atStatementEnd, hnil]

theorem atStageEnd_placed (hseam : Seam c.rest after)
    (h : (c.placed bytes after).skipInline.atStageEnd = true) :
    c.skipInline.atStageEnd = true := by
  unfold atStageEnd at h ⊢
  rcases Bool.or_eq_true_iff.1 h with h | h
  · rw [atStatementEnd_placed hseam h, Bool.true_or]
  · rcases skipInline_placed bytes hseam with hsame | ⟨hnil, -⟩
    · rw [hsame] at h
      rcases hrest : c.skipInline.rest with _ | ⟨x, rest⟩
      · rw [atStatementEnd, hrest, Bool.true_or]
      · rw [placed_rest, hrest, List.cons_append, List.head?_cons] at h
        rw [List.head?_cons, h, Bool.or_true]
    · rw [atStatementEnd, hnil, Bool.true_or]

end Cursor

end Script
end KeywordScope
