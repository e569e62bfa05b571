import KeywordScope.Proofs.Script.Follow

/-!
# A text in front of a semicolon

What is read of a text alone is read of it where a semicolon follows, too. Only groups may end
elsewhere there.

* `Detached after`: what follows a text is nothing, or begins with a semicolon.
* `Detached.skipInline_placed`, …: gaps, values and stages are found in the same places.
* `follows_detached`: the readers find the same in front of a semicolon, but for groups in which a
  quote finds a partner there.
-/

namespace KeywordScope
namespace Script

variable {bytes : Nat} {after : List Char} {c d : Cursor}

/-! ## In front of a semicolon -/

/-- What follows a text is nothing, or begins with a semicolon. -/
def Detached (after : List Char) : Prop :=
  ∀ x ∈ after.head?, x = ';'

namespace Detached

theorem nil : Detached [] := by
  intro x hx
  cases hx

theorem closing (h : Detached after) : Closing after := by
  intro x hx
  obtain rfl := h x hx
  exact .inr (by decide)

theorem seam (h : Detached after) (text : List Char) : Seam text after := by
  refine .of_head fun x hx => ?_
  obtain rfl := h x hx
  decide

theorem endsNumber (h : Detached after) : Atom.endsNumber after = true := by
  rcases after with _ | ⟨x, after⟩
  · rfl
  · obtain rfl := h x rfl
    rfl

theorem skipInline_placed (h : Detached after) :
    (c.placed bytes after).skipInline = c.skipInline.placed bytes after := by
  rcases Cursor.skipInline_placed_or bytes (h.seam c.rest) with hsame | ⟨hnil, hsame⟩
  · exact hsame
  rw [hsame]
  generalize c.skipInline = m at hnil
  obtain ⟨offset, rest⟩ := m
  obtain rfl : rest = [] := hnil
  rcases after with _ | ⟨x, after⟩
  · rfl
  · obtain rfl := h x rfl
    rfl

theorem skipSpaces_placed (h : Detached after) :
    (c.placed bytes after).skipSpaces = c.skipSpaces.placed bytes after := by
  rcases Cursor.skipSpaces_placed_or with hsame | ⟨hnil, hsame⟩
  · exact hsame
  rw [hsame]
  generalize c.skipSpaces = m at hnil
  obtain ⟨offset, rest⟩ := m
  obtain rfl : rest = [] := hnil
  rcases after with _ | ⟨x, after⟩
  · rfl
  · obtain rfl := h x rfl
    rfl

theorem atStatementEnd_placed (h : Detached after) :
    (c.placed bytes after).atStatementEnd = c.atStatementEnd := by
  unfold Cursor.atStatementEnd
  rw [Cursor.placed_rest]
  rcases c.rest with _ | ⟨x, cs⟩
  · rcases after with _ | ⟨x, after⟩
    · rfl
    · obtain rfl := h x rfl
      rfl
  · rfl

theorem atStageEnd_placed (h : Detached after) :
    (c.placed bytes after).atStageEnd = c.atStageEnd := by
  by_cases hc : c.rest = []
  · rw [Cursor.atStageEnd, Cursor.atStageEnd, h.atStatementEnd_placed, Cursor.atStatementEnd, hc,
      Bool.true_or, Bool.true_or]
  · exact Cursor.atStageEnd_eq_placed hc

theorem pipe?_placed (h : Detached after) :
    pipe? (c.placed bytes after) = (pipe? c).map (Cursor.placed bytes after) := by
  unfold pipe?
  dsimp only
  rw [h.skipInline_placed, Cursor.placed_rest]
  rcases h.closing.parting.front_cases c.skipInline.rest (by decide : isBlank '|' = false)
    (by decide) with ⟨rest, hrest⟩ | ⟨hcs, hall⟩
  · simp only [hrest, List.cons_append, Option.map_some,
      Cursor.seek_placed (hrest ▸ List.suffix_cons _ _), h.skipSpaces_placed]
  · split
    · next heq => exact absurd heq (hall _)
    · rfl

theorem assignment?_placed (h : Detached after) :
    assignment? (c.placed bytes after) =
      (assignment? c).map fun found => (found.1, found.2.placed bytes after) := by
  unfold assignment?
  rw [Cursor.placed_rest, Atom.splitVariable?_append h.closing.parting]
  rcases hname : Atom.splitVariable? c.rest with _ | ⟨name, rest⟩
  · rfl
  rw [Option.map_some]
  dsimp only
  rw [Cursor.seek_placed ⟨_, (Atom.splitVariable?_eq hname).2⟩, h.skipInline_placed,
    Cursor.placed_rest]
  generalize (c.seek rest).skipInline = e
  rcases h.closing.parting.front_cases e.rest (by decide : isBlank '=' = false) (by decide) with
    ⟨rest, hrest⟩ | ⟨hcs, hall⟩
  · rcases h.closing.parting.front_cases rest (by decide : isBlank '=' = false) (by decide) with
      ⟨rest, rfl⟩ | ⟨hcs, hall⟩
    · simp only [hrest, List.cons_append, Option.map_none]
    · have hseek : (e.placed bytes after).seek (rest ++ after) = (e.seek rest).placed bytes after :=
        Cursor.seek_placed (hrest ▸ List.suffix_cons '=' rest)
      simp only [hrest, List.cons_append, hseek, h.skipInline_placed, Option.map_some]
  · split
    · next heq => exact absurd heq (hall _)
    · next heq => exact absurd heq (hall _)
    split
    · next heq => exact absurd heq (hcs _)
    · next heq => exact absurd heq (hcs _)
    · rfl

end Detached

/-- An atom of a text is one in front of a semicolon, unless it is a group in which a quote finds a
partner there. -/
theorem Atom.read_detached (hafter : Detached after) {read : Consumed Element c}
    (h : Atom.read c = .ok read)
    (hquotes : read.value.isGroup = true → Group.StayUnpaired (Group.unpaired c.rest) after) :
    ∃ read', Atom.read (c.placed bytes after) = .ok read' ∧
      read'.next = read.next.placed bytes after ∧ read.value.Like (.moved bytes) read'.value := by
  have hclosing := hafter.closing
  obtain ⟨read', hread, hnext, hvalue⟩ := Atom.read_append hclosing.parting (hafter.seam _)
    hafter.endsNumber h (fun _ _ => hclosing.endsWord) hquotes
  refine ⟨read', hread, hnext, ?_⟩
  have hatom := (Atom.stands_read h).2
  have hlike : (read.value.shift 0).Like (.moved bytes) (read.value.shift bytes) :=
    Element.like_shift hatom (fun _ => rfl) (fun _ => rfl) rfl
  rwa [Element.shift_zero hatom, ← hvalue] at hlike

/-- The readers find the same in front of a semicolon, but for groups in which a quote finds a
partner. -/
theorem follows_detached (bytes : Nat) (source : List Char) (hafter : Detached after) :
    Follows (.moved bytes) (fun c c' => c.Of source ∧ c' = c.placed bytes after)
      (Piece.IsFine (after = []) (Element.StaysUnpaired source after))
      (Cursor.GoesOn (after = [])) where
  span h h' := by
    rw [h.2, h'.2]
    exact Cursor.spanTo_placed
  raw h h' hpasses _ _ := by
    rw [h.2, h'.2]
    exact Cursor.textTo_placed hpasses
  assigned h h' hpasses _ _ _ := by
    rw [h.2, h'.2]
    exact Cursor.textTo_placed hpasses
  inline h := ⟨h.1.skipInline, by rw [h.2, hafter.skipInline_placed]⟩
  separators h hwithin := by
    refine ⟨h.1.skipSeparators, ?_⟩
    rw [h.2]
    rcases Cursor.skipSeparators_placed with ⟨-, hsame⟩ | ⟨hnil, hgap⟩
    · exact hsame
    · obtain rfl := hwithin.resolve_left fun hne => hne hnil
      obtain ⟨_, hgap⟩ := Cursor.GapGoesOn.passes hgap
      exact (Cursor.end_placed hnil hgap).resolve_right fun h => Nat.not_lt_zero _ h.2
  stop h hwithin := by
    rw [h.2]
    rcases hwithin.imp_right Piece.IsFine.within with hne | hne | rfl
    · rw [Cursor.head?_placed hne, Cursor.placed_rest]
      simp [hne]
    · rw [Cursor.head?_placed hne, Cursor.placed_rest]
      simp [hne]
    · rw [Cursor.placed_rest, List.append_nil]
  statementEnd h := by rw [h.2, hafter.atStatementEnd_placed]
  stageEnd h := by rw [h.2, hafter.atStageEnd_placed]
  noValue h hnone := by rw [h.2, hafter.assignment?_placed, hnone, Option.map_none]
  value h hfound := by
    refine ⟨_, _, ?_, rfl, h.1.passes (passes_assignment? hfound).choose_spec, rfl⟩
    rw [h.2, hafter.assignment?_placed, hfound, Option.map_some]
  noPipe h hnone := by rw [h.2, hafter.pipe?_placed, hnone, Option.map_none]
  pipe h hfound := by
    refine ⟨_, ?_, h.1.passes (passes_pipe? hfound).choose_spec, rfl⟩
    rw [h.2, hafter.pipe?_placed, hfound, Option.map_some]
  brace {c c' x rest} _ h hrest := by
    refine ⟨rest ++ after, ?_, h.1.passes (Cursor.passes_seek_cons hrest), ?_⟩
    · rw [h.2, Cursor.placed_rest, hrest]
      rfl
    · rw [h.2, Cursor.seek_placed (hrest ▸ List.suffix_cons _ _)]
  noBrace {c c'} h hother := by
    rw [h.2, Cursor.placed_rest]
    rcases hrest : c.rest with _ | ⟨x, rest⟩
    · intro hbrace
      exact absurd (hafter '{' hbrace) (by decide)
    · rw [hrest] at hother
      exact hother
  atom h hread hfine := by
    obtain ⟨⟨taken, hpasses, -, hspan⟩, -⟩ := Atom.stands_read hread
    rw [h.2]
    obtain ⟨read', hread', hnext, hlike⟩ := Atom.read_detached hafter hread
      fun hgroup => hfine.fine _ (List.mem_singleton_self _) hgroup _ h.1 (by rw [hspan]; rfl)
    exact ⟨read', hread', ⟨h.1.passes hpasses, hnext⟩, hlike⟩

end Script
end KeywordScope
