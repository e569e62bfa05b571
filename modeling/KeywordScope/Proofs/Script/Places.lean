import KeywordScope.Proofs.Script.Kept

/-!
# Places of failures

Where reading fails is a place of the source, whatever construct fails there.

* `Cursor.Of.passes_…`, `…_place`: the place of a failure, one lemma for each reader.
* `Failure.toError_located`: the error for a place quotes the line that begins there.
* `parse_located`: so does each error of `parse`.
-/

namespace KeywordScope

/-- The error stands in the source, at its location. -/
structure SyntaxError.Located (source : String) (e : SyntaxError) : Prop where
  bounds : e.span.start ≤ e.span.stop ∧ e.span.stop ≤ utf8Length source.toList
  between : ∃ text, e.span.Covers source.toList text
  location : e.location? = some (.ofSpan source e.span)

theorem SyntaxError.Located.of_covers {source : String} {e : SyntaxError} {text : List Char}
    (h : e.span.Covers source.toList text)
    (hlocation : e.location? = some (.ofSpan source e.span)) : e.Located source :=
  ⟨h.bounds, ⟨text, h⟩, hlocation⟩

namespace Script

variable {source : List Char}

theorem Cursor.Of.start (source : String) : (Cursor.start source).Of source.toList :=
  ⟨[], .refl _⟩

theorem Cursor.Of.seek {c : Cursor} {rest : List Char} (h : c.Of source) (hrest : rest <:+ c.rest) :
    (c.seek rest).Of source := by
  obtain ⟨taken, htaken⟩ := hrest
  exact h.passes (passes_seek htaken.symm)

/-! ## Atoms -/

theorem Group.close_place {failure : Failure} {inner : Char} {outer : List Char} {c : Cursor}
    (hc : c.Of source) (h : close inner outer c = .error failure) : failure.place.Of source := by
  fun_induction close inner outer c with
  | case1 => cases h; exact hc
  | case2 => cases h
  | case3 c x rest hrest _ _ _ ih => exact ih (hc.seek (hrest ▸ List.suffix_cons x rest)) h
  | case4 => cases h; exact hc
  | case5 _ _ c x rest hrest _ _ _ ih => exact ih (hc.seek (hrest ▸ List.suffix_cons x rest)) h
  | case6 _ _ c x rest hrest _ _ _ rest' hs _ ih =>
    exact ih (hc.seek (hrest ▸ Quoted.read?_suffix hs)) h
  | case7 _ _ c x rest hrest _ _ _ ih => exact ih (hc.seek (hrest ▸ List.suffix_cons x rest)) h

theorem Group.read?_place {failure : Failure} {c : Cursor} {isTable : Bool} (hc : c.Of source)
    (h : read? c = some (isTable, .error failure)) : failure.place.Of source := by
  have hgroup : ∀ (opening rest : List Char) (inner : Char), c.rest = opening ++ rest →
      close inner [] (c.seek rest) = .error failure → failure.place.Of source :=
    fun opening rest inner hrest hclose =>
      close_place (hc.seek (hrest ▸ List.suffix_append opening rest)) hclose
  unfold read? at h
  split at h
  · exact hgroup ['@', '{'] _ '}' ‹_› (Prod.mk.inj (Option.some.inj h)).2
  · exact hgroup ['@', '('] _ ')' ‹_› (Prod.mk.inj (Option.some.inj h)).2
  · exact hgroup ['$', '('] _ ')' ‹_› (Prod.mk.inj (Option.some.inj h)).2
  · exact hgroup ['('] _ ')' ‹_› (Prod.mk.inj (Option.some.inj h)).2
  · cases h

theorem Atom.read_place {failure : Failure} {c : Cursor} (hc : c.Of source)
    (h : Atom.read c = .error failure) : failure.place.Of source := by
  unfold Atom.read at h
  split at h
  · split at h
    · cases h
    · cases h
      -- A double quote is where its string begins, a single one is missed at the end.
      show (if _ then c else c.seek []).Of source
      split
      · exact hc
      · exact hc.seek (List.nil_suffix)
  split at h
  · next hgroup =>
    cases h
    exact Group.read?_place hc hgroup
  · cases h
  split at h
  · cases h
  split at h
  · cases h
    exact hc
  split at h
  · cases h
  split at h
  · cases h
  · cases h
    exact hc

/-! ## Readers -/

mutual

theorem readStatements_place {failure : Failure} (c : Cursor) (hc : c.Of source)
    (h : readStatements c = .error failure) : failure.place.Of source := by
  rw [readStatements] at h
  split at h
  · cases h
  split at h
  · next hfirst =>
    cases h
    exact readStatement_place c hc hfirst
  next statement d shorter hfirst =>
  obtain ⟨_, first⟩ := reading_readStatement c hfirst
  obtain ⟨_, hpasses⟩ := first.passes hc
  have hd := hc.passes hpasses
  simp only at h
  split at h
  · split at h
    · next hmore =>
      cases h
      have hgap := d.skipInline_le
      have hgap' := d.skipInline.skipSeparators_le
      exact readStatements_place _ hd.skipInline.skipSeparators hmore
    · cases h
  · cases h
    exact hd.skipInline
termination_by 8 * c.rest.length + 5

theorem readStatement_place {failure : Failure} (c : Cursor) (hc : c.Of source)
    (h : readStatement c = .error failure) : failure.place.Of source := by
  rw [readStatement] at h
  split at h
  · next target v begins =>
    have hshorter := assignment?_shorter begins
    obtain ⟨_, hpasses⟩ := passes_assignment? begins
    have hv := hc.passes hpasses
    simp only at h
    split at h
    · next hvalue =>
      cases h
      exact readElements_place v hv hvalue
    · cases h
      exact hv
    · cases h
  · split at h
    · next hfirst =>
      cases h
      exact readStage_place c hc hfirst
    next stage d shorter hfirst =>
    obtain ⟨_, first⟩ := reading_readStage c hfirst
    obtain ⟨_, hpasses⟩ := first.passes hc
    split at h
    · next hmore =>
      cases h
      exact readStages_place d (hc.passes hpasses) hmore
    · cases h
termination_by 8 * c.rest.length + 4

theorem readStages_place {failure : Failure} (c : Cursor) (hc : c.Of source)
    (h : readStages c = .error failure) : failure.place.Of source := by
  rw [readStages] at h
  split at h
  · cases h
  next d goOn =>
  have hshorter := pipe?_shorter goOn
  obtain ⟨_, hpasses⟩ := passes_pipe? goOn
  have hd := hc.passes hpasses
  simp only at h
  split at h
  · next failure' hfirst =>
    cases h
    show failure'.place.Of source
    exact readStage_place d hd hfirst
  next stage e shorter hfirst =>
  obtain ⟨_, first⟩ := reading_readStage d hfirst
  obtain ⟨_, hpasses'⟩ := first.passes hd
  split at h
  · next hmore =>
    cases h
    exact readStages_place e (hd.passes hpasses') hmore
  · cases h
termination_by 8 * c.rest.length + 3

theorem readStage_place {failure : Failure} (c : Cursor) (hc : c.Of source)
    (h : readStage c = .error failure) : failure.place.Of source := by
  rw [readStage] at h
  split at h
  · next hfirst =>
    cases h
    exact readElement_place c hc hfirst
  next element d shorter hfirst =>
  obtain ⟨_, first⟩ := reading_readElement c hfirst
  obtain ⟨_, hpasses⟩ := first.passes hc
  split at h
  · split at h
    · next hmore =>
      cases h
      exact readElements_place d (hc.passes hpasses) hmore
    · cases h
  · cases h
termination_by 8 * c.rest.length + 2

theorem readElements_place {failure : Failure} (c : Cursor) (hc : c.Of source)
    (h : readElements c = .error failure) : failure.place.Of source := by
  rw [readElements] at h
  have hgap := c.skipInline_le
  split at h
  · cases h
  split at h
  · next hfirst =>
    cases h
    exact readElement_place c.skipInline hc.skipInline hfirst
  next element d shorter hfirst =>
  obtain ⟨_, first⟩ := reading_readElement c.skipInline hfirst
  obtain ⟨_, hpasses⟩ := first.passes hc.skipInline
  split at h
  · next hmore =>
    cases h
    exact readElements_place d (hc.skipInline.passes hpasses) hmore
  · cases h
termination_by 8 * c.rest.length + 1

theorem readElement_place {failure : Failure} (c : Cursor) (hc : c.Of source)
    (h : readElement c = .error failure) : failure.place.Of source := by
  rw [readElement] at h
  split at h
  · next rest opens =>
    have hgap := (c.seek rest).skipSeparators_le
    have hlength := congrArg List.length opens
    have hinside := (hc.seek (opens ▸ List.suffix_cons '{' rest)).skipSeparators
    simp only at h
    split at h
    · next hinner =>
      cases h
      exact readStatements_place _ hinside hinner
    next statements d _ hinner =>
    obtain ⟨_, inner⟩ := reading_readStatements _ hinner
    obtain ⟨_, hpasses⟩ := inner.passes hinside
    split at h
    · split at h
      · cases h
        exact hc
      · cases h
    · cases h
      exact hinside.passes hpasses
  · exact Atom.read_place hc h
termination_by 8 * c.rest.length
decreasing_by
  rw [List.length_cons] at hlength
  rw [Cursor.seek_rest] at hgap
  omega

end

/-! ## Errors -/

theorem prefixed_dropBlankEnd (cs : List Char) : dropBlankEnd cs <+: cs := by
  unfold dropBlankEnd
  rw [← List.reverse_suffix, List.reverse_reverse]
  exact List.dropWhile_suffix _

/-- The error for a place of a source quotes what its line has from there on. -/
theorem Failure.toError_located {source : String} {failure : Failure}
    (h : failure.place.Of source.toList) :
    (failure.toError source).Located source ∧
      (failure.toError source).span.Covers source.toList (failure.toError source).node.toList ∧
      '\n' ∉ (failure.toError source).node.toList := by
  obtain ⟨before, hrest, hoffset⟩ := h
  obtain ⟨blank, hblank⟩ := prefixed_dropBlankEnd (failure.place.rest.takeWhile (· ≠ '\n'))
  obtain ⟨tail, htail⟩ := List.takeWhile_prefix (l := failure.place.rest) (· ≠ '\n')
  have hnode : (failure.toError source).node.toList =
      dropBlankEnd (failure.place.rest.takeWhile (· ≠ '\n')) := String.toList_ofList
  have hcovers : (failure.toError source).span.Covers source.toList
      (failure.toError source).node.toList := by
    rw [hnode]
    refine ⟨before, blank ++ tail, ?_, ?_, ?_⟩
    · rw [List.append_assoc, ← List.append_assoc _ blank, hblank, htail]
      exact hrest
    · exact hoffset.trans (Nat.zero_add _)
    · rw [utf8Length_append, ← hoffset.trans (Nat.zero_add _)]
      rfl
  refine ⟨.of_covers hcovers rfl, hcovers, ?_⟩
  rw [hnode]
  intro hmem
  have hline := List.mem_takeWhile_imp ((prefixed_dropBlankEnd _).subset hmem)
  simp at hline

/-- Each error of the parser is located in the source, and quotes it. -/
theorem parse_located {source : String} {e : SyntaxError} (h : parse source = .error e) :
    e.Located source ∧ e.span.Covers source.toList e.node.toList ∧
      '\n' ∉ e.node.toList := by
  have hstart := (Cursor.Of.start source)
  rw [parse] at h
  split at h
  · next failure hread =>
    cases h
    exact Failure.toError_located (readStatements_place _ hstart.skipSeparators hread)
  next statements d _ hread =>
  obtain ⟨_, reading⟩ := reading_readStatements _ hread
  obtain ⟨_, hpasses⟩ := reading.passes hstart.skipSeparators
  split at h
  · cases h
    exact Failure.toError_located hstart
  split at h
  · cases h
  · cases h
    exact Failure.toError_located (hstart.skipSeparators.passes hpasses)

end Script
end KeywordScope
