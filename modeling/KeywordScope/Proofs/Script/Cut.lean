import KeywordScope.Proofs.Script.Kept
import KeywordScope.Proofs.Script.Unpaired

/-!
# Readings within a source

A piece of a source that stands in a text of its own is read of the text alone, too. Only what
follows the text must be able to follow it: it begins no lexeme, and continues no line.

* `Reading.forward`: what is read stands between two cursors. `Reading.of_mem`: so do its parts.
* `assignment?_placed`, `pipe?_placed`: where values and stages begin.
* `Reading.placed`: a reading of the source within the text is one of the text, up to its spans.
-/

namespace KeywordScope
namespace Script

variable {bytes : Nat} {after : List Char} {c d : Cursor}

/-- Any cursor is a place of some source, so that a reading passes what it reads. -/
theorem Reading.forward {piece : Piece} {parts : List Piece} (h : Reading c piece d parts) :
    ∃ taken, c.Passes taken d := by
  have hlength : ∀ n, utf8Length (List.replicate n ' ') = n := by
    intro n
    induction n with
    | zero => rfl
    | succ n ih => rw [List.replicate_succ, utf8Length_cons, ih, Nat.add_comm]; rfl
  have hof : c.Of (List.replicate c.offset ' ' ++ c.rest) :=
    ⟨List.replicate c.offset ' ', rfl, by rw [hlength, Nat.zero_add]⟩
  exact h.passes hof

/-- An element among the parts of a reading is read on the way, or is the variable in front of an
assignment. -/
theorem Reading.of_mem {piece : Piece} {parts : List Piece} (h : Reading c piece d parts)
    {e : Element} (he : .element e ∈ parts) :
    (∃ a b gap parts', c.Passes gap a ∧ Reading a (.element e) b parts') ∨
      ∃ a v target, assignment? a = some (target, v) ∧ e = targetElement a target := by
  -- What is found behind a gap is found from in front of it.
  have further : ∀ {c m : Cursor}, (∃ gap, c.Passes gap m) →
      ((∃ a b gap parts', m.Passes gap a ∧ Reading a (.element e) b parts') ∨
        ∃ a v target, assignment? a = some (target, v) ∧ e = targetElement a target) →
      (∃ a b gap parts', c.Passes gap a ∧ Reading a (.element e) b parts') ∨
        ∃ a v target, assignment? a = some (target, v) ∧ e = targetElement a target := by
    rintro c m ⟨_, hgap⟩ (⟨a, b, _, parts', hpasses, hread⟩ | htarget)
    · exact .inl ⟨a, b, _, parts', hgap.trans hpasses, hread⟩
    · exact .inr htarget
  induction h with
  | noStatements | noStages | noElements => cases he
  | @statements c d _ _ _ _ _ _ first _ _ ihFirst ihMore =>
    obtain ⟨_, hfirst⟩ := first.forward
    obtain ⟨_, hgap⟩ := d.passes_skipInline
    obtain ⟨_, hgap'⟩ := d.skipInline.passes_skipSeparators
    rcases List.mem_append.1 he with he | he
    · exact ihFirst he
    · exact further ⟨_, hfirst.trans (hgap.trans hgap')⟩ (ihMore he)
  | @assignment c v _ target _ _ _ begins _ ih =>
    rcases List.mem_append.1 he with he | he
    · rcases List.mem_cons.1 he with he | he
      · exact .inr ⟨c, v, target, begins, Piece.element.inj he⟩
      · obtain ⟨_, htarget⟩ := passes_assignment? begins
        exact further ⟨_, htarget⟩ (ih he)
    · cases List.mem_singleton.1 he
  | pipeline _ first _ ihFirst ihMore =>
    rcases List.mem_append.1 he with he | he
    · rcases List.mem_append.1 he with he | he
      · exact ihFirst he
      · exact further first.forward (ihMore he)
    · cases List.mem_singleton.1 he
  | stages goOn first _ ihFirst ihMore =>
    rcases List.mem_append.1 he with he | he
    · exact further (passes_pipe? goOn) (ihFirst he)
    · exact further (passes_pipe? goOn) (further first.forward (ihMore he))
  | command first _ _ ihFirst ihMore =>
    rcases List.mem_append.1 he with he | he
    · exact ihFirst he
    · exact further first.forward (ihMore he)
  | expression _ _ ih => exact ih he
  | @elements c _ _ _ _ _ _ _ first _ ihFirst ihMore =>
    rcases List.mem_append.1 he with he | he
    · exact further c.passes_skipInline (ihFirst he)
    · exact further c.passes_skipInline (further first.forward (ihMore he))
  | @script c d rest after statements b parts opens inner closes assembled ih =>
    rcases List.mem_append.1 he with he | he
    · obtain ⟨_, hgap⟩ := (c.seek rest).passes_skipSeparators
      exact further ⟨_, (Cursor.passes_seek_cons opens).trans hgap⟩ (ih he)
    · cases List.mem_singleton.1 he
      exact .inl ⟨_, _, _, _, .refl _, .script opens inner closes assembled⟩
  | atom noBlock isRead =>
    cases List.mem_singleton.1 he
    exact .inl ⟨_, _, _, _, .refl _, .atom noBlock isRead⟩

/-! ## Where values and stages begin -/

theorem pipe?_placed_none (hseam : Seam c.rest after) (h : pipe? (c.placed bytes after) = none) :
    pipe? c = none := by
  unfold pipe? at h ⊢
  dsimp only at h ⊢
  split
  · next rest hpipe =>
    rcases Cursor.skipInline_placed bytes hseam with hsame | ⟨hnil, -⟩
    · rw [hsame, Cursor.placed_rest, hpipe] at h
      cases h
    · rw [hnil] at hpipe
      cases hpipe
  · rfl

theorem pipe?_placed (hafter : Parting after) (hseam : Seam c.rest after) {m : Cursor}
    (h : pipe? (c.placed bytes after) = some m) (hlength : after.length ≤ m.rest.length) :
    ∃ d, m = d.placed bytes after ∧ pipe? c = some d := by
  unfold pipe? at h ⊢
  dsimp only at h ⊢
  split at h
  · next rest hpipe =>
    obtain rfl := Option.some.inj h
    have hspaces := (((c.placed bytes after).skipInline.seek rest)).skipSpaces_le
    rw [Cursor.seek_rest] at hspaces
    have hplace : (c.placed bytes after).skipInline = c.skipInline.placed bytes after := by
      apply Cursor.skipInline_eq_placed hseam
      rw [hpipe, List.length_cons]
      omega
    rw [hplace] at hpipe hlength ⊢
    obtain ⟨rest', hrest', -, hseek⟩ := Cursor.seek_cons_placed hafter rfl (by decide) hpipe
    rw [hseek] at hlength ⊢
    refine ⟨_, Cursor.skipSpaces_eq_placed hlength, ?_⟩
    simp only [hrest']
  · cases h

theorem assignment?_placed_none (hafter : Parting after) (hseam : Seam c.rest after)
    (h : assignment? (c.placed bytes after) = none) : assignment? c = none := by
  unfold assignment? at h ⊢
  rw [Cursor.placed_rest, Atom.splitVariable?_append hafter] at h
  split
  · rfl
  next name rest hname =>
  obtain ⟨taken, htaken⟩ : rest <:+ c.rest := ⟨_, (Atom.splitVariable?_eq hname).2⟩
  rw [hname, Option.map_some] at h
  dsimp only at h ⊢
  rw [Cursor.seek_placed ⟨taken, htaken⟩] at h
  have hseam' : Seam (c.seek rest).rest after := hseam.of_suffix ⟨taken, htaken⟩
  split
  · rfl
  · next rest' hsingle hequals =>
    rcases Cursor.skipInline_placed bytes hseam' with hsame | ⟨hnil, -⟩
    · rw [hsame, Cursor.placed_rest, hequals, List.cons_append] at h
      split at h
      · next more hdouble =>
        obtain ⟨more', rfl, -⟩ := hafter.cons_eq rfl (by decide) (List.cons.inj hdouble).2
        exact absurd rfl (hsingle more')
      · cases h
      · next hother => exact absurd rfl (hother _)
    · rw [hnil] at hequals
      cases hequals
  · rfl

theorem assignment?_placed (hafter : Parting after) (hseam : Seam c.rest after) {target : String}
    {m : Cursor} (h : assignment? (c.placed bytes after) = some (target, m))
    (hlength : after.length ≤ m.rest.length) :
    ∃ d, m = d.placed bytes after ∧ assignment? c = some (target, d) := by
  unfold assignment? at h ⊢
  rw [Cursor.placed_rest, Atom.splitVariable?_append hafter] at h
  rcases hname : Atom.splitVariable? c.rest with _ | ⟨name, rest⟩
  · rw [hname] at h
    cases h
  obtain ⟨taken, htaken⟩ : rest <:+ c.rest := ⟨_, (Atom.splitVariable?_eq hname).2⟩
  rw [hname, Option.map_some] at h
  dsimp only at h ⊢
  rw [Cursor.seek_placed ⟨taken, htaken⟩] at h
  have hseam' : Seam (c.seek rest).rest after := hseam.of_suffix ⟨taken, htaken⟩
  split at h
  · cases h
  · next rest' hsingle hequals =>
    obtain ⟨rfl, rfl⟩ := Prod.mk.inj (Option.some.inj h)
    have hinline := (((c.seek rest).placed bytes after).skipInline.seek rest').skipInline_le
    rw [Cursor.seek_rest] at hinline
    have hplace : ((c.seek rest).placed bytes after).skipInline =
        (c.seek rest).skipInline.placed bytes after := by
      apply Cursor.skipInline_eq_placed hseam'
      rw [hequals, List.length_cons]
      omega
    rw [hplace] at hequals hlength ⊢
    obtain ⟨rest'', hrest'', rfl, hseek⟩ :=
      Cursor.seek_cons_placed hafter rfl (by decide) hequals
    rw [hseek] at hlength ⊢
    obtain ⟨gap, hgap⟩ := (c.seek rest).passes_skipInline
    have hseam'' : Seam ((c.seek rest).skipInline.seek rest'').rest after :=
      (hseam'.of_suffix hgap.suffix).of_suffix (hrest'' ▸ List.suffix_cons _ _)
    refine ⟨_, Cursor.skipInline_eq_placed hseam'' hlength, ?_⟩
    rw [hrest'']
    split
    · next hdouble =>
      obtain rfl := (List.cons.inj hdouble).2
      exact absurd rfl (hsingle _)
    · next heq =>
      obtain rfl := (List.cons.inj heq).2
      rfl
    · next hother => exact absurd rfl (hother _)
  · cases h

/-! ## Readings -/

/-- The groups among the parts hold no quote that finds a partner in what follows the source. -/
def StayUnpaired (source after : List Char) (parts : List Piece) : Prop :=
  ∀ e, .element e ∈ parts → e.StaysUnpaired source after

/-- A piece of the text is read from the one cursor up to the other, the piece is that one with all
spans moved, and its groups end where they do in the source. -/
def Piece.IsPlaced (text after : List Char) (bytes : Nat) (c d : Cursor) : Piece → Prop
  | .statements answer => ∃ own parts, Reading c (.statements own) d parts ∧
      answer = Statement.shiftAll bytes own ∧ StayUnpaired text after parts
  | .statement answer => ∃ own parts, Reading c (.statement own) d parts ∧
      answer = own.shift bytes ∧ StayUnpaired text after parts
  | .stages answer => ∃ own parts, Reading c (.stages own) d parts ∧
      answer = Stage.shiftAll bytes own ∧ StayUnpaired text after parts
  | .stage answer => ∃ own parts, Reading c (.stage own) d parts ∧ answer = own.shift bytes ∧
      StayUnpaired text after parts
  | .elements answer => ∃ own parts, Reading c (.elements own) d parts ∧
      answer = Element.shiftAll bytes own ∧ StayUnpaired text after parts
  | .element answer => ∃ own parts, Reading c (.element own) d parts ∧ answer = own.shift bytes ∧
      StayUnpaired text after parts

section StayUnpaired

variable {source : List Char} {parts parts' : List Piece}

theorem StayUnpaired.nil : StayUnpaired source after [] := nofun

theorem StayUnpaired.append (h : StayUnpaired source after parts)
    (h' : StayUnpaired source after parts') : StayUnpaired source after (parts ++ parts') :=
  fun e he => (List.mem_append.1 he).elim (h e) (h' e)

theorem StayUnpaired.single {e : Element} (h : e.StaysUnpaired source after) :
    StayUnpaired source after [.element e] := by
  intro _ he
  cases List.mem_singleton.1 he
  exact h

theorem StayUnpaired.statement (s : Statement) : StayUnpaired source after [.statement s] := by
  intro _ he
  cases List.mem_singleton.1 he

end StayUnpaired

theorem Reading.shorter {element : Element} {parts : List Piece}
    (h : Reading c (.element element) d parts) : d.rest.length < c.rest.length :=
  h.isRead.choose

theorem Reading.shorter_statement {statement : Statement} {parts : List Piece}
    (h : Reading c (.statement statement) d parts) : d.rest.length < c.rest.length :=
  h.isRead.choose

/-- The next statement of the text is where that of the source is. -/
theorem Cursor.next_placed (hseam : Seam c.rest after)
    (h : after.length ≤ (c.placed bytes after).skipInline.skipSeparators.rest.length) :
    (c.placed bytes after).skipInline.skipSeparators =
      c.skipInline.skipSeparators.placed bytes after := by
  have hlength := (c.placed bytes after).skipInline.skipSeparators_le
  have hinline := Cursor.skipInline_eq_placed hseam (h.trans hlength)
  rw [hinline] at h ⊢
  exact Cursor.skipSeparators_eq_placed h

theorem Cursor.atStageEnd_eq_placed (h : c.rest ≠ []) :
    (c.placed bytes after).atStageEnd = c.atStageEnd := by
  obtain ⟨x, cs, hcs⟩ := List.exists_cons_of_ne_nil h
  simp only [Cursor.atStageEnd, Cursor.atStatementEnd, Cursor.placed_rest, hcs, List.cons_append,
    List.head?_cons]

/-- Where the text ends for a piece, it ends for what follows the piece. -/
theorem Cursor.Passes.end_of_end {taken : List Char} {P : Prop} (h : c.Passes taken d)
    (hend : d.rest = [] → P) (hc : c.rest = []) : P := by
  apply hend
  have hsuffix := h.suffix
  rw [hc] at hsuffix
  exact List.suffix_nil.1 hsuffix

/-- Between places of the text the piece is read of the text, too. If the text ends there, a number
at its end goes no further in the source. -/
def Piece.Places (text after : List Char) (bytes : Nat) (C D : Cursor) (piece : Piece) : Prop :=
  ∀ c d, C = c.placed bytes after → D = d.placed bytes after → c.Of text →
    (d.rest = [] → Atom.endsNumber after = true) → piece.IsPlaced text after bytes c d

/-- Of two pieces in a row that are read within the text, the first one ends within it. -/
theorem Reading.placed_row {text : List Char} {c e D : Cursor} {piece piece' : Piece}
    {parts parts' : List Piece} (first : Reading (c.placed bytes after) piece D parts)
    (more : Reading D piece' (e.placed bytes after) parts')
    (hfirst : piece.Places text after bytes (c.placed bytes after) D)
    (hmore : piece'.Places text after bytes D (e.placed bytes after)) (hc : c.Of text)
    (hend : e.rest = [] → Atom.endsNumber after = true) :
    ∃ d, D = d.placed bytes after ∧ piece.IsPlaced text after bytes c d ∧
      piece'.IsPlaced text after bytes d e := by
  obtain ⟨_, hto⟩ := first.forward
  obtain ⟨_, hon⟩ := more.forward
  obtain ⟨d, rfl, hcd, hde⟩ := hto.between hon
  exact ⟨d, rfl, hfirst c d rfl rfl hc (hde.end_of_end hend),
    hmore d e rfl rfl (hc.passes hcd) hend⟩

theorem Reading.placed_script (hafter : Closing after) {text : List Char} {C D : Cursor}
    {rest behind : List Char} {statements : List Statement} {block : Block} {parts : List Piece}
    (opens : C.rest = '{' :: rest)
    (inner : Reading (C.seek rest).skipSeparators (.statements statements) D parts)
    (closes : D.rest = '}' :: behind)
    (assembled : Block.assemble statements ((C.seek rest).textTo D) (C.spanTo (D.seek behind)) =
      .ok block)
    (ih : (Piece.statements statements).Places text after bytes (C.seek rest).skipSeparators D) :
    (Piece.element (.script block)).Places text after bytes C (D.seek behind) := by
  rintro c d rfl hd hc hend
  obtain ⟨rest', opens', rfl, hseek⟩ :=
    Cursor.seek_cons_placed hafter.parting rfl (by decide) opens
  have hclose := Cursor.passes_seek_cons closes
  obtain ⟨_, hinner⟩ := inner.forward
  rw [hd] at hclose
  rw [hseek] at hinner ih assembled
  have hgap := Cursor.skipSeparators_eq_placed (hinner.trans hclose).length_le
  rw [hgap] at hinner ih
  obtain ⟨m, rfl, hcm, hmd⟩ := hinner.between hclose
  obtain ⟨_, hseparators⟩ := (c.seek rest').passes_skipSeparators
  have hopen := (Cursor.passes_seek_cons opens').trans hseparators
  obtain ⟨owns, _, howns, rfl, hunpaired⟩ := ih (c.seek rest').skipSeparators m rfl rfl
    (hc.passes hopen) (hmd.end_of_end hend)
  have closes' : m.rest = '}' :: d.rest := hmd.rest_eq
  have hbehind : m.seek d.rest = d := hmd.seek_eq
  rw [Cursor.textTo_placed (hseparators.trans hcm), hd, Cursor.spanTo_placed,
    Block.assemble_shift] at assembled
  rcases hblock : Block.assemble owns ((c.seek rest').textTo m) (c.spanTo d) with _ | own
  · rw [hblock] at assembled
    cases assembled
  · rw [hblock] at assembled
    obtain rfl := Except.ok.inj assembled
    rw [← hbehind] at hblock
    have hread := Reading.script opens' howns closes' hblock
    rw [hbehind] at hread
    have hscript : (Element.script own).StaysUnpaired text after := fun hgroup => by cases hgroup
    exact ⟨_, _, hread, rfl, hunpaired.append (.single hscript)⟩

/-- A reading of the source within the text is one of the text. The induction is on the reading:
each place it passes is one of the text, as long as it ends there. -/
theorem Reading.placed {C D : Cursor} {piece : Piece} {parts : List Piece}
    (h : Reading C piece D parts) (hafter : Closing after) {text : List Char}
    (hseam : Seam text after) : piece.Places text after bytes C D := by
  induction h with
  | noStatements stop =>
    rintro c d rfl hd hc hend
    obtain rfl := Cursor.placed_inj.1 hd
    have hstop : c.rest = [] ∨ c.rest.head? = some '}' := by
      by_cases hnil : c.rest = []
      · exact .inl hnil
      · rw [Cursor.head?_placed hnil, Cursor.placed_rest, List.append_eq_nil_iff] at stop
        exact .inr (stop.resolve_left fun h => hnil h.1)
    exact ⟨[], _, .noStatements hstop, rfl, .nil⟩
  | @statements C D E statement statements parts parts' goOn first ends more ihFirst ihMore =>
    rintro c e rfl rfl hc hend
    obtain ⟨_, hfirst⟩ := first.forward
    obtain ⟨_, hmore⟩ := more.forward
    obtain ⟨_, hgap⟩ := D.passes_skipInline
    obtain ⟨_, hgap'⟩ := D.skipInline.passes_skipSeparators
    obtain ⟨d, rfl, hcd, hde⟩ := hfirst.between ((hgap.trans hgap').trans hmore)
    have hd : d.Of text := hc.passes hcd
    have hnext := Cursor.next_placed (hseam.of hd) hmore.length_le
    have hne := Cursor.ne_nil_of_shorter first.shorter_statement
    obtain ⟨own, _, hown, rfl, hunpaired⟩ := ihFirst c d rfl rfl hc (hde.end_of_end hend)
    obtain ⟨owns, _, howns, rfl, hunpaired'⟩ := ihMore d.skipInline.skipSeparators e hnext rfl
      hd.skipInline.skipSeparators hend
    have ends' := Cursor.atStatementEnd_placed (hseam.of hd) ends
    refine ⟨own :: owns, _, .statements ?_ hown ends' howns, rfl, hunpaired.append hunpaired'⟩
    rintro (hnil | hbrace)
    · exact hne hnil
    · rw [← Cursor.head?_placed hne] at hbrace
      exact goOn (.inr hbrace)
  | @assignment C V D target element elements parts begins value ih =>
    rintro c d rfl rfl hc hend
    obtain ⟨_, hvalue⟩ := value.forward
    obtain ⟨v, rfl, hbegins⟩ :=
      assignment?_placed hafter.parting (hseam.of hc) begins hvalue.length_le
    obtain ⟨_, htarget⟩ := passes_assignment? hbegins
    obtain ⟨own, _, hown, heq, hunpaired⟩ := ih v d rfl rfl (hc.passes htarget) hend
    obtain ⟨_, hpassed⟩ := hown.forward
    rcases own with _ | ⟨first, own⟩
    · cases heq
    refine ⟨_, _, .assignment hbegins hown, ?_, ?_⟩
    · rw [Cursor.textTo_placed hpassed, Cursor.spanTo_placed]
      rfl
    · have hvariable : (targetElement c target).StaysUnpaired text after := by
        intro hgroup
        cases hgroup
      exact ((StayUnpaired.single hvariable).append hunpaired).append (.statement _)
  | @pipeline C D E stage stages parts parts' begins first more ihFirst ihMore =>
    rintro c e rfl rfl hc hend
    obtain ⟨_, rfl, ⟨own, _, hown, rfl, hunpaired⟩, owns, _, howns, rfl, hunpaired'⟩ :=
      first.placed_row more ihFirst ihMore hc hend
    have hbegins := assignment?_placed_none hafter.parting (hseam.of hc) begins
    refine ⟨_, _, .pipeline hbegins hown howns, ?_,
      (hunpaired.append hunpaired').append (.statement _)⟩
    rw [Cursor.spanTo_placed, ← Statement.ofStages_shift]
    rfl
  | noStages stop =>
    rintro c d rfl hd hc hend
    obtain rfl := Cursor.placed_inj.1 hd
    exact ⟨[], _, .noStages (pipe?_placed_none (hseam.of hc) stop), rfl, .nil⟩
  | @stages C D E F stage stages parts parts' goOn first more ihFirst ihMore =>
    rintro c f rfl rfl hc hend
    obtain ⟨_, hfirst⟩ := first.forward
    obtain ⟨_, hmore⟩ := more.forward
    obtain ⟨d, rfl, hgoOn⟩ :=
      pipe?_placed hafter.parting (hseam.of hc) goOn (hfirst.trans hmore).length_le
    obtain ⟨_, hpipe⟩ := passes_pipe? hgoOn
    obtain ⟨_, rfl, ⟨own, _, hown, rfl, hunpaired⟩, owns, _, howns, rfl, hunpaired'⟩ :=
      first.placed_row more ihFirst ihMore (hc.passes hpipe) hend
    exact ⟨own :: owns, _, .stages hgoOn hown howns, rfl, hunpaired.append hunpaired'⟩
  | @command C D E element elements parts parts' first word more ihFirst ihMore =>
    rintro c e rfl rfl hc hend
    obtain ⟨_, rfl, ⟨own, _, hown, rfl, hunpaired⟩, owns, _, howns, rfl, hunpaired'⟩ :=
      first.placed_row more ihFirst ihMore hc hend
    rw [Element.isBareword_shift] at word
    exact ⟨_, _, .command hown word howns, rfl, hunpaired.append hunpaired'⟩
  | @expression C D element parts only noWord ih =>
    rintro c d rfl rfl hc hend
    obtain ⟨own, _, hown, rfl, hunpaired⟩ := ih c d rfl rfl hc hend
    rw [Element.isBareword_shift] at noWord
    exact ⟨_, _, .expression hown noWord, rfl, hunpaired⟩
  | noElements stop =>
    rintro c d rfl hd hc hend
    obtain rfl := Cursor.placed_inj.1 hd
    exact ⟨[], _, .noElements (Cursor.atStageEnd_placed (hseam.of hc) stop), rfl, .nil⟩
  | @elements C D E element elements parts parts' goOn first more ihFirst ihMore =>
    rintro c e rfl rfl hc hend
    obtain ⟨_, hfirst⟩ := first.forward
    obtain ⟨_, hmore⟩ := more.forward
    have hgap := Cursor.skipInline_eq_placed (hseam.of hc) (hfirst.trans hmore).length_le
    rw [hgap] at first goOn ihFirst
    obtain ⟨_, rfl, ⟨own, _, hown, rfl, hunpaired⟩, owns, _, howns, rfl, hunpaired'⟩ :=
      first.placed_row more ihFirst ihMore hc.skipInline hend
    refine ⟨own :: owns, _, .elements ?_ hown howns, rfl, hunpaired.append hunpaired'⟩
    rwa [Cursor.atStageEnd_eq_placed (Cursor.ne_nil_of_shorter first.shorter)] at goOn
  | script opens inner closes assembled ih =>
    exact Reading.placed_script hafter opens inner closes assembled ih
  | @atom C read noBlock isRead =>
    rintro c d rfl hd hc hend
    have hne : c.rest ≠ [] := Cursor.ne_nil_of_shorter (hd ▸ read.shorter)
    rw [Cursor.head?_placed hne] at noBlock
    obtain ⟨own, hown, hvalue, rfl⟩ := Atom.read_placed hafter.parting (hseam.of hc) hend
      (fun _ _ => hafter.endsWord) isRead hd
    exact ⟨own.value, _, .atom noBlock hown, hvalue,
      .single (Atom.staysUnpaired_of_placed hafter.parting hc hown isRead hvalue hd)⟩

end Script
end KeywordScope
