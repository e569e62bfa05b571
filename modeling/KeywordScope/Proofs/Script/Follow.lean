import KeywordScope.Proofs.Script.Alike
import KeywordScope.Proofs.Script.Cut

/-!
# Readings that follow each other

Two sources whose places correspond are read alike, if the readers find the same at corresponding
places.

* `Follows L R fits clear`: whatever a reader finds at a place, it finds at the corresponding place
  of the other source, up to `L`.
* `Inherited fits clear`: what fits is made up of parts that fit, with clear gaps between them.
* `Reading.follow_of_fits`: then what is read of the one source and fits is read of the other.
* `Reading.follow`: so is whatever is read, if it is enough that its elements are fine.
-/

namespace KeywordScope
namespace Script

/-- A piece that differs from the given one in nothing but what `L` allows is read from the one
cursor up to the other. -/
def Piece.IsAlike (L : Likeness) (c d : Cursor) : Piece → Prop
  | .statements answer => ∃ own parts, Reading c (.statements own) d parts ∧
      List.Forall₂ (Statement.Like L) answer own
  | .statement answer => ∃ own parts, Reading c (.statement own) d parts ∧ answer.Like L own
  | .stages answer => ∃ own parts, Reading c (.stages own) d parts ∧
      List.Forall₂ (Stage.Like L) answer own
  | .stage answer => ∃ own parts, Reading c (.stage own) d parts ∧ answer.Like L own ∧
      answer.isLed = true
  | .elements answer => ∃ own parts, Reading c (.elements own) d parts ∧
      List.Forall₂ (Element.Like L) answer own
  | .element answer => ∃ own parts, Reading c (.element own) d parts ∧ answer.Like L own

/-- The readers find the same at places that correspond by `R`, up to `L`. Of what is read only that
counts which `fits`, and of the gaps between statements only those which are `clear`. -/
structure Follows (L : Likeness) (R : Cursor → Cursor → Prop)
    (fits : Cursor → Piece → Cursor → List Piece → Prop) (clear : Cursor → Prop) : Prop where
  span : ∀ {c c' d d' : Cursor}, R c c' → R d d' → L.span (c.spanTo d) (c'.spanTo d')
  raw : ∀ {span : Span} {c c' d d' : Cursor} {taken taken' : List Char}, R c c' → R d d' →
    c.Passes taken d → c'.Passes taken' d' → span.Encloses (c.spanTo d) →
    L.raw span (c.textTo d) (c'.textTo d')
  assigned : ∀ {c v v' d d' : Cursor} {target : String} {taken taken' : List Char}
    {parts : List Piece}, R v v' → R d d' → v.Passes taken d → v'.Passes taken' d' →
    assignment? c = some (target, v) →
    fits c (.statement (.assignment target (v.textTo d) (c.spanTo d))) d parts →
    L.assigned (v.textTo d) (v'.textTo d')
  inline : ∀ {c c' : Cursor}, R c c' → R c.skipInline c'.skipInline
  separators : ∀ {c c' : Cursor}, R c c' → clear c → R c.skipSeparators c'.skipSeparators
  stop : ∀ {c c' : Cursor}, R c c' → c.rest ≠ [] ∨ fits c (.statements []) c [] →
    (c'.rest = [] ∨ c'.rest.head? = some '}' ↔ c.rest = [] ∨ c.rest.head? = some '}')
  statementEnd : ∀ {c c' : Cursor}, R c c' → c'.atStatementEnd = c.atStatementEnd
  stageEnd : ∀ {c c' : Cursor}, R c c' → c'.atStageEnd = c.atStageEnd
  noValue : ∀ {c c' : Cursor}, R c c' → assignment? c = none → assignment? c' = none
  value : ∀ {c c' v : Cursor} {target : String}, R c c' → assignment? c = some (target, v) →
    ∃ target' v', assignment? c' = some (target', v') ∧ L.text target target' ∧ R v v'
  noPipe : ∀ {c c' : Cursor}, R c c' → pipe? c = none → pipe? c' = none
  pipe : ∀ {c c' d : Cursor}, R c c' → pipe? c = some d → ∃ d', pipe? c' = some d' ∧ R d d'
  brace : ∀ {c c' : Cursor} {x : Char} {rest : List Char}, x = '{' ∨ x = '}' → R c c' →
    c.rest = x :: rest → ∃ rest', c'.rest = x :: rest' ∧ R (c.seek rest) (c'.seek rest')
  noBrace : ∀ {c c' : Cursor}, R c c' → c.rest.head? ≠ some '{' → c'.rest.head? ≠ some '{'
  atom : ∀ {c c' : Cursor} {read : Consumed Element c}, R c c' → Atom.read c = .ok read →
    fits c (.element read.value) read.next [.element read.value] →
    ∃ read', Atom.read c' = .ok read' ∧ R read.next read'.next ∧ read.value.Like L read'.value

/-- If a reading `fits`, so do the readings that it consists of, and the gaps between statements in
it are `clear`. -/
structure Inherited (fits : Cursor → Piece → Cursor → List Piece → Prop) (clear : Cursor → Prop) :
    Prop where
  statements : ∀ {c d e : Cursor} {statement : Statement} {statements : List Statement}
    {parts parts' : List Piece},
    fits c (.statements (statement :: statements)) e (parts ++ parts') →
    Reading c (.statement statement) d parts →
    Reading d.skipInline.skipSeparators (.statements statements) e parts' →
    fits c (.statement statement) d parts ∧ clear d.skipInline ∧
      fits d.skipInline.skipSeparators (.statements statements) e parts'
  assignment : ∀ {c v d : Cursor} {target : String} {elements : List Element}
    {first : Piece} {parts right : List Piece},
    fits c (.statement (.assignment target (v.textTo d) (c.spanTo d))) d (first :: parts ++ right) →
    assignment? c = some (target, v) → Reading v (.elements elements) d parts →
    fits v (.elements elements) d parts
  pipeline : ∀ {c d e : Cursor} {stage : Stage} {stages : List Stage}
    {parts parts' right : List Piece},
    fits c (.statement (.ofStages (stage :: stages) (c.spanTo e))) e (parts ++ parts' ++ right) →
    Reading c (.stage stage) d parts → Reading d (.stages stages) e parts' →
    fits c (.stage stage) d parts ∧ fits d (.stages stages) e parts'
  stages : ∀ {c d e f : Cursor} {stage : Stage} {stages : List Stage} {parts parts' : List Piece},
    fits c (.stages (stage :: stages)) f (parts ++ parts') → pipe? c = some d →
    Reading d (.stage stage) e parts → Reading e (.stages stages) f parts' →
    fits d (.stage stage) e parts ∧ fits e (.stages stages) f parts'
  command : ∀ {c d e : Cursor} {element : Element} {elements : List Element}
    {parts parts' : List Piece},
    fits c (.stage (.command (element :: elements) (c.spanTo e))) e (parts ++ parts') →
    Reading c (.element element) d parts → Reading d (.elements elements) e parts' →
    fits c (.element element) d parts ∧ fits d (.elements elements) e parts'
  expression : ∀ {c d : Cursor} {element : Element} {parts : List Piece},
    fits c (.stage (.expression element)) d parts → Reading c (.element element) d parts →
    fits c (.element element) d parts
  elements : ∀ {c d e : Cursor} {element : Element} {elements : List Element}
    {parts parts' : List Piece}, fits c (.elements (element :: elements)) e (parts ++ parts') →
    Reading c.skipInline (.element element) d parts → Reading d (.elements elements) e parts' →
    fits c.skipInline (.element element) d parts ∧ fits d (.elements elements) e parts'
  script : ∀ {c d : Cursor} {rest after : List Char} {statements : List Statement} {block : Block}
    {parts right : List Piece}, fits c (.element (.script block)) (d.seek after) (parts ++ right) →
    c.rest = '{' :: rest → Reading (c.seek rest).skipSeparators (.statements statements) d parts →
    d.rest = '}' :: after →
    Block.assemble statements ((c.seek rest).textTo d) (c.spanTo (d.seek after)) = .ok block →
    clear (c.seek rest) ∧ fits (c.seek rest).skipSeparators (.statements statements) d parts

section Follow

variable {L : Likeness} {R : Cursor → Cursor → Prop}
  {fits : Cursor → Piece → Cursor → List Piece → Prop} {clear : Cursor → Prop}

/-- What is read from a place is read from the corresponding one, up to a corresponding place. The
induction is on the reading. -/
theorem Reading.follow_of_fits (hF : Follows L R fits clear) (hI : Inherited fits clear)
    {c d : Cursor} {piece : Piece} {parts : List Piece} (h : Reading c piece d parts) :
    fits c piece d parts → ∀ c', R c c' → ∃ d', R d d' ∧ piece.IsAlike L c' d' := by
  induction h with
  | noStatements stop =>
    intro hfits c' hR
    exact ⟨c', hR, [], _, .noStatements ((hF.stop hR (.inr hfits)).2 stop), .nil⟩
  | @statements c d e statement statements _ _ goOn first isEnd more ihFirst ihMore =>
    intro hfits c' hR
    obtain ⟨hfits, hclear, hfits'⟩ := hI.statements hfits first more
    obtain ⟨d', hRd, _, _, first', hfirst⟩ := ihFirst hfits c' hR
    have hinline := hF.inline hRd
    obtain ⟨e', hRe, _, _, more', hmore⟩ := ihMore hfits' _ (hF.separators hinline hclear)
    have isEnd' := (hF.statementEnd hinline).trans isEnd
    have goOn' := mt (hF.stop hR (.inl fun hc => goOn (.inl hc))).1 goOn
    exact ⟨e', hRe, _, _, .statements goOn' first' isEnd' more', .cons hfirst hmore⟩
  | @assignment c v d target element elements _ begins value ih =>
    intro hfits c' hR
    obtain ⟨target', v', begins', htarget, hRv⟩ := hF.value hR begins
    have hfits' := hI.assignment hfits begins value
    obtain ⟨d', hRd, _, _, value', hvalue⟩ := ih hfits' v' hRv
    obtain ⟨_, hpasses⟩ := value.forward
    obtain ⟨_, hpasses'⟩ := value'.forward
    have hassigned := hF.assigned hRv hRd hpasses hpasses' begins hfits
    cases hvalue
    exact ⟨d', hRd, _, _, .assignment begins' value',
      .assignment htarget hassigned (hF.span hR hRd)⟩
  | @pipeline c d e stage stages _ _ begins first more ihFirst ihMore =>
    intro hfits c' hR
    obtain ⟨hfits, hfits'⟩ := hI.pipeline hfits first more
    obtain ⟨d', hRd, _, _, first', hfirst, hled⟩ := ihFirst hfits c' hR
    obtain ⟨e', hRe, _, _, more', hmore⟩ := ihMore hfits' d' hRd
    exact ⟨e', hRe, _, _, .pipeline (hF.noValue hR begins) first' more',
      Statement.ofStages_like hled hfirst hmore (hF.span hR hRe)⟩
  | noStages stop =>
    intro _ c' hR
    exact ⟨c', hR, [], _, .noStages (hF.noPipe hR stop), .nil⟩
  | @stages c d e f stage stages _ _ goOn first more ihFirst ihMore =>
    intro hfits c' hR
    obtain ⟨hfits, hfits'⟩ := hI.stages hfits goOn first more
    obtain ⟨d', goOn', hRd⟩ := hF.pipe hR goOn
    obtain ⟨e', hRe, _, _, first', hfirst, -⟩ := ihFirst hfits d' hRd
    obtain ⟨f', hRf, _, _, more', hmore⟩ := ihMore hfits' e' hRe
    exact ⟨f', hRf, _, _, .stages goOn' first' more', .cons hfirst hmore⟩
  | @command c d e element elements _ _ first word more ihFirst ihMore =>
    intro hfits c' hR
    obtain ⟨hfits, hfits'⟩ := hI.command hfits first more
    obtain ⟨d', hRd, _, _, first', hfirst⟩ := ihFirst hfits c' hR
    obtain ⟨e', hRe, _, _, more', hmore⟩ := ihMore hfits' d' hRd
    have word' := hfirst.isBareword_eq.trans word
    exact ⟨e', hRe, _, _, .command first' word' more',
      .command (.cons hfirst hmore) (hF.span hR hRe), word⟩
  | expression only noWord ih =>
    intro hfits c' hR
    obtain ⟨d', hRd, _, _, only', honly⟩ := ih (hI.expression hfits only) c' hR
    rw [← honly.isBareword_eq] at noWord
    exact ⟨d', hRd, _, _, .expression only' noWord, .expression honly, rfl⟩
  | noElements stop =>
    intro _ c' hR
    exact ⟨c', hR, [], _, .noElements ((hF.stageEnd (hF.inline hR)).trans stop), .nil⟩
  | @elements c d e element elements _ _ goOn first more ihFirst ihMore =>
    intro hfits c' hR
    obtain ⟨hfits, hfits'⟩ := hI.elements hfits first more
    have hinline := hF.inline hR
    obtain ⟨d', hRd, _, _, first', hfirst⟩ := ihFirst hfits _ hinline
    obtain ⟨e', hRe, _, _, more', hmore⟩ := ihMore hfits' d' hRd
    rw [← hF.stageEnd hinline] at goOn
    exact ⟨e', hRe, _, _, .elements goOn first' more', .cons hfirst hmore⟩
  | @script c d rest after statements block _ opens inner closes assembled ih =>
    intro hfits c' hR
    obtain ⟨hclear, hfits'⟩ := hI.script hfits opens inner closes assembled
    obtain ⟨rest', opens', hRopen⟩ := hF.brace (.inl rfl) hR opens
    obtain ⟨d', hRd, _, _, inner', hinner⟩ := ih hfits' _ (hF.separators hRopen hclear)
    obtain ⟨after', closes', hRclose⟩ := hF.brace (.inr rfl) hRd closes
    obtain ⟨_, hgap⟩ := (c.seek rest).passes_skipSeparators
    obtain ⟨_, hgap'⟩ := (c'.seek rest').passes_skipSeparators
    obtain ⟨_, hpasses⟩ := inner.forward
    obtain ⟨_, hpasses'⟩ := inner'.forward
    have hspan : (c.spanTo (d.seek after)).Encloses ((c.seek rest).spanTo d) :=
      ⟨(Cursor.passes_seek_cons opens).le, (Cursor.passes_seek_cons closes).le⟩
    obtain ⟨block', assembled', hblock⟩ := Block.assemble_like hinner
      (hF.raw hRopen hRd (hgap.trans hpasses) (hgap'.trans hpasses') hspan)
      (hF.span hR hRclose) assembled
    exact ⟨_, hRclose, _, _, .script opens' inner' closes' assembled', .script hblock⟩
  | atom noBlock isRead =>
    intro hfits c' hR
    obtain ⟨read', isRead', hRd, hlike⟩ := hF.atom hR isRead hfits
    exact ⟨_, hRd, _, _, .atom (hF.noBrace hR noBlock) isRead', hlike⟩

end Follow

/-! ## Fine elements -/

/-- Statements are read up to an end that both sources have. -/
def Piece.EndsWithin (ends : Prop) (d : Cursor) : Piece → Prop
  | .statements _ => d.rest ≠ [] ∨ ends
  | _ => True

/-- All elements that are read are `fine`. What is behind the end of the one source counts only if
it `ends` there as the other one does. -/
structure Piece.IsFine (ends : Prop) (fine : Element → Prop) (_ : Cursor) (piece : Piece)
    (d : Cursor) (parts : List Piece) : Prop where
  fine : ∀ e, .element e ∈ parts → fine e
  within : piece.EndsWithin ends d

/-- Behind a gap between statements the source goes on, or `ends`. -/
def Cursor.GoesOn (ends : Prop) (c : Cursor) : Prop :=
  c.skipSeparators.rest ≠ [] ∨ ends

section Fine

variable {L : Likeness} {R : Cursor → Cursor → Prop} {ends : Prop} {fine : Element → Prop}

/-- A gap does not reach further than what is read behind it. -/
theorem Reading.ne_nil {c d : Cursor} {piece : Piece} {parts : List Piece}
    (h : Reading c piece d parts) (hd : d.rest ≠ [] ∨ ends) : c.rest ≠ [] ∨ ends := by
  obtain ⟨_, hpasses⟩ := h.forward
  refine hd.imp_left fun hd hc => hd ?_
  exact hpasses.end_of_end id hc

theorem Piece.IsFine.of_subset {piece all : Piece} {c c' d d' : Cursor} {parts more : List Piece}
    (h : all.IsFine ends fine c d more) (hparts : parts ⊆ more) (hend : piece.EndsWithin ends d') :
    piece.IsFine ends fine c' d' parts :=
  ⟨fun e he => h.fine e (hparts he), hend⟩

theorem inherited_isFine : Inherited (Piece.IsFine ends fine) (Cursor.GoesOn ends) where
  statements h _ more :=
    ⟨h.of_subset (List.subset_append_left _ _) trivial, more.ne_nil h.within,
      h.of_subset (List.subset_append_right _ _) h.within⟩
  assignment h _ _ := by
    refine h.of_subset (fun _ hp => ?_) trivial
    exact List.mem_append_left _ (List.mem_cons_of_mem _ hp)
  pipeline h _ _ := by
    refine ⟨h.of_subset ?_ trivial, h.of_subset ?_ trivial⟩
    · exact List.Subset.trans (List.subset_append_left _ _) (List.subset_append_left _ _)
    · exact List.Subset.trans (List.subset_append_right _ _) (List.subset_append_left _ _)
  stages h _ _ _ :=
    ⟨h.of_subset (List.subset_append_left _ _) trivial,
      h.of_subset (List.subset_append_right _ _) trivial⟩
  command h _ _ :=
    ⟨h.of_subset (List.subset_append_left _ _) trivial,
      h.of_subset (List.subset_append_right _ _) trivial⟩
  expression h _ := h.of_subset (List.Subset.refl _) trivial
  elements h _ _ :=
    ⟨h.of_subset (List.subset_append_left _ _) trivial,
      h.of_subset (List.subset_append_right _ _) trivial⟩
  script h _ inner closes _ :=
    have hend := .inl (closes ▸ List.cons_ne_nil _ _)
    ⟨inner.ne_nil hend, h.of_subset (List.subset_append_left _ _) hend⟩

/-- What is read from a place is read from the corresponding one, if all elements are fine. -/
theorem Reading.follow (hF : Follows L R (Piece.IsFine ends fine) (Cursor.GoesOn ends))
    {c d : Cursor} {piece : Piece} {parts : List Piece} (h : Reading c piece d parts)
    (hfine : ∀ e, .element e ∈ parts → fine e) (hd : piece.EndsWithin ends d) :
    ∀ c', R c c' → ∃ d', R d d' ∧ piece.IsAlike L c' d' :=
  h.follow_of_fits hF inherited_isFine ⟨hfine, hd⟩

end Fine

end Script
end KeywordScope
