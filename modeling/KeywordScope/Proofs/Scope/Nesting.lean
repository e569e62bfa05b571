import KeywordScope.Proofs.Registry.Entries

/-!
# Nested scopes

The entered members of all languages stand on one stack, and the scopes of different languages may
interleave. What belongs to one language is nested all the same.

* `Registry.Forested`: each member stands below an earlier one of its language, or is a root.
* `Registry.enteredIn`: the entered members of one language, the innermost one first.
* `Registry.Nested`: the entered members of each language are a path from a root downwards, and
  those right below the last one are visible.
* `Nested.enter`, `Nested.leave`: what entering and leaving a scope do to the entries keeps this.
-/

namespace KeywordScope

/-- The entry once the members of a language right below `parent?` are shown and its other members
are hidden. -/
def Entry.showBelow (dsl : String) (parent? : Option Keyword.Id) (entry : Entry) : Entry :=
  if entry.isIn dsl then entry.withVisible (entry.parent? == parent?) else entry

namespace Entry

variable (dsl : String) (parent? : Option Keyword.Id) (entry : Entry)

@[simp] theorem bare_showBelow : (entry.showBelow dsl parent?).bare = entry.bare := by
  unfold showBelow
  split <;> rfl

@[simp] theorem id_showBelow : (entry.showBelow dsl parent?).id = entry.id :=
  id_congr (bare_showBelow dsl parent? entry)

@[simp] theorem membership?_showBelow :
    (entry.showBelow dsl parent?).membership? = entry.membership? :=
  membership?_congr (bare_showBelow dsl parent? entry)

@[simp] theorem parent?_showBelow : (entry.showBelow dsl parent?).parent? = entry.parent? :=
  parent?_congr (bare_showBelow dsl parent? entry)

@[simp] theorem isMember_showBelow : (entry.showBelow dsl parent?).isMember = entry.isMember :=
  isMember_congr (bare_showBelow dsl parent? entry)

@[simp] theorem isIn_showBelow (dsl' : String) :
    (entry.showBelow dsl parent?).isIn dsl' = entry.isIn dsl' :=
  isIn_congr (bare_showBelow dsl parent? entry) dsl'

/-- Only the last change of what is shown of a language counts. -/
theorem showBelow_showBelow (other? : Option Keyword.Id) :
    (entry.showBelow dsl other?).showBelow dsl parent? = entry.showBelow dsl parent? := by
  unfold showBelow
  by_cases h : entry.isIn dsl = true <;> simp [h]

end Entry

namespace Registry

variable {τ : Type} {r r' : Registry τ}

/-- The registry once the members of a language right below `parent?` are shown and its other
members are hidden. -/
def showBelow (r : Registry τ) (dsl : String) (parent? : Option Keyword.Id) : Registry τ :=
  { r with entries := r.entries.map (Entry.showBelow dsl parent?) }

@[simp] theorem outline_showBelow (dsl : String) (parent? : Option Keyword.Id) :
    (r.showBelow dsl parent?).outline = r.outline := by
  simp [outline, showBelow, Function.comp_def, Entry.bare_showBelow]

/-! ## Forests -/

/-- The entries form forests: a member stands below an earlier member of its language, or is a
root. -/
structure Forested (r : Registry τ) : Prop where
  distinct : r.Distinct
  /-- The keyword above was given its identity earlier. -/
  parent_lt : ∀ entry ∈ r.entries, ∀ parent, entry.parent? = some parent →
    parent.number < entry.id.number
  /-- The keyword above is a member of the same language. -/
  parent_in : ∀ entry ∈ r.entries, ∀ parent, entry.parent? = some parent →
    ∀ dsl, entry.isIn dsl = true → ∃ above ∈ r.entries, above.id = parent ∧ above.isIn dsl = true
  /-- Members have names. -/
  named : ∀ entry ∈ r.entries, entry.isMember = true → entry.keyword.name ≠ ""

theorem Forested.congr (h : r.outline = r'.outline) (hf : r.Forested) : r'.Forested := by
  refine ⟨hf.distinct.congr h, ?_, ?_, ?_⟩
  · intro entry' he' parent hp
    obtain ⟨entry, he, same⟩ := exists_mem_of_outline h.symm he'
    rw [← Entry.id_congr same]
    exact hf.parent_lt entry he parent ((Entry.parent?_congr same).trans hp)
  · intro entry' he' parent hp dsl hin
    obtain ⟨entry, he, same⟩ := exists_mem_of_outline h.symm he'
    obtain ⟨above, ha, hid, hin'⟩ := hf.parent_in entry he parent
      ((Entry.parent?_congr same).trans hp) dsl ((Entry.isIn_congr same dsl).trans hin)
    obtain ⟨above', ha', same'⟩ := exists_mem_of_outline h ha
    exact ⟨above', ha', (Entry.id_congr same').trans hid,
      (Entry.isIn_congr same' dsl).trans hin'⟩
  · intro entry' he' hm
    obtain ⟨entry, he, same⟩ := exists_mem_of_outline h.symm he'
    rw [← Entry.keyword_congr same]
    exact hf.named entry he ((Entry.isMember_congr same).trans hm)

/-- What stands right below a member is of its language. -/
theorem Forested.isIn_of_parent (hf : r.Forested) {entry above : Entry} (he : entry ∈ r.entries)
    (ha : above ∈ r.entries) (hp : entry.parent? = some above.id) {dsl : String}
    (hin : above.isIn dsl = true) : entry.isIn dsl = true := by
  obtain ⟨own, hm, -⟩ := Entry.parent?_eq_some.1 hp
  have hown : entry.isIn own.dsl = true := Entry.isIn_iff.2 ⟨own, hm, sameName_refl _⟩
  obtain ⟨above', ha', hid, hin'⟩ := hf.parent_in entry he above.id hp own.dsl hown
  obtain rfl := hf.distinct.eq_of_id ha' ha hid
  exact (Entry.isIn_iff_sameName hown).2 ((Entry.isIn_iff_sameName hin').1 hin)

/-! ## The entered members of one language -/

/-- The entered members of a language, the innermost one first. -/
def enteredIn (r : Registry τ) (dsl : String) : List Keyword.Id :=
  r.scope.filter fun id => (r.membership? id).any fun own => sameName own.dsl dsl

/-- A path upwards: each member stands right below the next one, and the last one is a root. -/
def IsPath (r : Registry τ) : List Keyword.Id → Prop
  | [] => True
  | id :: outer => r.parent? id = outer.head? ∧ r.IsPath outer

theorem IsPath.congr {ids : List Keyword.Id} (h : ∀ id ∈ ids, r.parent? id = r'.parent? id)
    (hp : r.IsPath ids) : r'.IsPath ids := by
  induction ids with
  | nil => trivial
  | cons id outer ih =>
    refine ⟨?_, ih (fun id' h' => h id' (List.mem_cons_of_mem _ h')) hp.2⟩
    rw [← h id List.mem_cons_self]
    exact hp.1

theorem enteredIn_congr (h : ∀ id ∈ r.scope, r.membership? id = r'.membership? id)
    (hs : r.scope = r'.scope) (dsl : String) : r.enteredIn dsl = r'.enteredIn dsl := by
  rw [enteredIn, enteredIn, ← hs]
  exact List.filter_congr fun id hid => by rw [h id hid]

theorem mem_scope_of_mem_enteredIn {dsl : String} {id : Keyword.Id} (h : id ∈ r.enteredIn dsl) :
    id ∈ r.scope :=
  (List.mem_filter.1 h).1

/-- The entered members of a language, with a member on top of the stack. -/
theorem enteredIn_cons {own : Membership} {id : Keyword.Id} (h : r.membership? id = some own)
    (outer : List Keyword.Id) (dsl : String) :
    enteredIn { r with scope := id :: outer } dsl =
      if sameName own.dsl dsl then id :: enteredIn { r with scope := outer } dsl
      else enteredIn { r with scope := outer } dsl := by
  have e : ∀ scope, (membership? { r with scope } : Keyword.Id → _) = r.membership? :=
    fun _ => rfl
  simp only [enteredIn, List.filter_cons, e, h, Option.any_some]

/-- The entries are nested as the scopes that are entered require. -/
structure Nested (r : Registry τ) : Prop extends r.Forested where
  /-- Only members are entered, and none of them was removed since. -/
  entered_member : ∀ id ∈ r.scope, r.isMember id = true
  standalone_visible : ∀ entry ∈ r.entries, entry.isMember = false → entry.visible = true
  /-- Of a language, what stands right below the innermost entered member is visible. -/
  member_visible : ∀ entry ∈ r.entries, ∀ dsl, entry.isIn dsl = true →
    entry.visible = (entry.parent? == (r.enteredIn dsl).head?)
  /-- The entered members of a language are a path from a root downwards. -/
  path : ∀ dsl, r.IsPath (r.enteredIn dsl)

namespace Nested

/-- What is nested stays so if members neither come nor go, apart from those of which the scopes
know nothing. -/
theorem of_members (hn : r.Nested) (hf : r'.Forested) (hs : r.scope = r'.scope)
    (hm : ∀ id ∈ r.scope, r.membership? id = r'.membership? id)
    (hmembers : ∀ entry' ∈ r'.entries, entry'.isMember = true → ∃ entry ∈ r.entries,
      entry.bare = entry'.bare ∧ entry.visible = entry'.visible)
    (hstand : ∀ entry ∈ r'.entries, entry.isMember = false → entry.visible = true) :
    r'.Nested where
  toForested := hf
  entered_member id hid := by
    rw [isMember_eq, ← hm id (hs ▸ hid), ← isMember_eq]
    exact hn.entered_member id (hs ▸ hid)
  standalone_visible := hstand
  member_visible entry' he' dsl hin := by
    obtain ⟨entry, he, same, hvis⟩ := hmembers entry' he' (Entry.isMember_of_isIn hin)
    rw [← hvis, ← Entry.parent?_congr same, ← enteredIn_congr hm hs]
    exact hn.member_visible entry he dsl ((Entry.isIn_congr same dsl).trans hin)
  path dsl := by
    rw [← enteredIn_congr hm hs]
    refine IsPath.congr (fun id hid => ?_) (hn.path dsl)
    rw [parent?, parent?, hm id (mem_scope_of_mem_enteredIn hid)]

/-- What is nested stays so if only bindings and hooks change. -/
theorem congr (hn : r.Nested) (h : r.outline = r'.outline) (hs : r.scope = r'.scope)
    (hv : ∀ entry' ∈ r'.entries, ∃ entry ∈ r.entries,
      entry.bare = entry'.bare ∧ entry.visible = entry'.visible) : r'.Nested := by
  refine hn.of_members (hn.toForested.congr h) hs (fun id _ => membership?_congr h id)
    (fun entry' he' _ => hv entry' he') ?_
  intro entry' he' hm
  obtain ⟨entry, he, same, hvis⟩ := hv entry' he'
  rw [← hvis]
  exact hn.standalone_visible entry he ((Entry.isMember_congr same).trans hm)

theorem of_entries (hn : r.Nested) (he : r.entries = r'.entries) (hs : r.scope = r'.scope) :
    r'.Nested :=
  hn.congr (congrArg (List.map Entry.bare) he) hs fun entry h => ⟨entry, he ▸ h, rfl, rfl⟩

/-! ## What is entered and what is visible -/

theorem mem_of_isMember {id : Keyword.Id} (h : r.isMember id = true) :
    ∃ entry ∈ r.entries, entry.id = id ∧ ∃ own, entry.membership? = some own := by
  obtain ⟨entry, hf, hm⟩ := isMember_iff.1 h
  obtain ⟨he, hid⟩ := mem_of_find? hf
  exact ⟨entry, he, hid, Option.isSome_iff_exists.1 hm⟩

theorem innermost (hn : r.Nested) {id : Keyword.Id} {outer : List Keyword.Id}
    (hs : r.scope = id :: outer) :
    ∃ entry ∈ r.entries, entry.id = id ∧ ∃ own, entry.membership? = some own :=
  mem_of_isMember (hn.entered_member id (hs ▸ List.mem_cons_self))

/-- A path upwards leads to ever smaller identities. -/
theorem pairwise_of_isPath (hf : r.Forested) {ids : List Keyword.Id}
    (hm : ∀ id ∈ ids, r.isMember id = true) (hp : r.IsPath ids) :
    ids.Pairwise fun id outer => outer.number < id.number := by
  induction ids with
  | nil => exact List.Pairwise.nil
  | cons id ids ih =>
    obtain ⟨hparent, hp⟩ := hp
    have ih := ih (fun other ho => hm other (List.mem_cons_of_mem _ ho)) hp
    refine List.pairwise_cons.2 ⟨?_, ih⟩
    obtain ⟨entry, he, rfl, -⟩ := mem_of_isMember (hm id List.mem_cons_self)
    rw [hf.distinct.parent?_eq he] at hparent
    cases ids with
    | nil => simp
    | cons parent rest =>
      have hlt := hf.parent_lt entry he parent hparent
      intro other ho
      rcases List.mem_cons.1 ho with rfl | ho
      · exact hlt
      · have hother := (List.pairwise_cons.1 ih).1 other ho
        omega

theorem nodup_enteredIn (hn : r.Nested) (dsl : String) : (r.enteredIn dsl).Nodup := by
  refine (pairwise_of_isPath hn.toForested (fun id hid =>
    hn.entered_member id (mem_scope_of_mem_enteredIn hid)) (hn.path dsl)).imp ?_
  rintro id _ hlt rfl
  omega

/-- The visible members of a language are the children of the innermost entered one, or the
roots. -/
theorem visible_eq (hn : r.Nested) (dsl : String) :
    r.idsWhere (fun entry => entry.isIn dsl && entry.visible) =
      match (r.enteredIn dsl).head? with
      | none => (r.roots dsl).map Keyword.id
      | some id => r.children id := by
  have hvis : r.idsWhere (fun entry => entry.isIn dsl && entry.visible) =
      r.idsWhere fun entry => entry.isIn dsl && (entry.parent? == (r.enteredIn dsl).head?) := by
    rw [idsWhere, idsWhere]
    congr 1
    refine List.filter_congr fun entry he => ?_
    cases hin : entry.isIn dsl with
    | false => rfl
    | true => rw [hn.member_visible entry he dsl hin]
  rw [hvis]
  cases hhead : (r.enteredIn dsl).head? with
  | none =>
    simp only [idsWhere, roots, keywordsWhere, List.map_map]
    refine congrArg (List.map _) (List.filter_congr fun entry _ => ?_)
    rw [Bool.eq_iff_iff, Bool.and_eq_true, Bool.and_eq_true, Entry.isRoot_iff]
    constructor
    · rintro ⟨hin, hroot⟩
      exact ⟨⟨Entry.isMember_of_isIn hin, by simpa using hroot⟩, hin⟩
    · rintro ⟨⟨-, hroot⟩, hin⟩
      exact ⟨hin, by simpa using hroot⟩
  | some id =>
    simp only [idsWhere, children]
    refine congrArg (List.map _) (List.filter_congr fun entry he => ?_)
    have hin : id ∈ r.enteredIn dsl := List.mem_of_head? hhead
    obtain ⟨above, ha, rfl, own, hown⟩ :=
      mem_of_isMember (hn.entered_member id (mem_scope_of_mem_enteredIn hin))
    have habove : above.isIn dsl = true := by
      have h := (List.mem_filter.1 hin).2
      rw [hn.distinct.membership?_eq ha, hown] at h
      exact Entry.isIn_iff.2 ⟨own, hown, by simpa using h⟩
    have hchild : (entry.membership?.any fun own => own.parent? == some above.id) =
        (entry.parent? == some above.id) := by
      unfold Entry.parent?
      cases entry.membership? <;> simp
    rw [hchild, Bool.eq_iff_iff, Bool.and_eq_true]
    constructor
    · exact fun h => h.2
    · intro h
      exact ⟨hn.isIn_of_parent he ha (by simpa using h) habove, h⟩

/-- The keyword above a visible member is the innermost entered one of its language. -/
theorem parent?_of_visible (hn : r.Nested) {entry : Entry} (he : entry ∈ r.entries)
    {own : Membership} (hm : entry.membership? = some own) (hv : entry.visible = true) :
    entry.parent? = (r.enteredIn own.dsl).head? := by
  have hin : entry.isIn own.dsl = true := Entry.isIn_iff.2 ⟨own, hm, sameName_refl _⟩
  have h := hn.member_visible entry he own.dsl hin
  simpa [hv] using h

/-! ## Entering and leaving -/

/-- A change of the stack in one language, of which the members below the innermost entered one are
shown. -/
theorem show_below (hn : r.Nested) (dsl : String) (parent? : Option Keyword.Id)
    (scope : List Keyword.Id) (hscope : ∀ id ∈ scope, r.isMember id = true)
    (hsame : ∀ dsl', sameName dsl dsl' = true →
      parent? = (enteredIn { r with scope } dsl').head?)
    (hother : ∀ dsl', ¬ sameName dsl dsl' = true →
      enteredIn { r with scope } dsl' = r.enteredIn dsl')
    (hpath : ∀ dsl', sameName dsl dsl' = true → r.IsPath (enteredIn { r with scope } dsl')) :
    Nested { r.showBelow dsl parent? with scope } := by
  have ho : r.outline = outline { r.showBelow dsl parent? with scope } :=
    (outline_showBelow dsl parent?).symm
  have hentered : ∀ dsl', enteredIn { r.showBelow dsl parent? with scope } dsl' =
      enteredIn { r with scope } dsl' :=
    fun dsl' => (enteredIn_congr (r := { r with scope }) (fun id _ => membership?_congr ho id) rfl
      dsl').symm
  refine ⟨hn.toForested.congr ho, ?_, ?_, ?_, ?_⟩
  · intro id hid
    rw [← isMember_congr ho]
    exact hscope id hid
  · intro other hmem hstand
    obtain ⟨old, hold, rfl⟩ := List.mem_map.1 hmem
    rw [Entry.isMember_showBelow] at hstand
    have hnot : ¬ old.isIn dsl = true := fun h => by
      simp [Entry.isMember_of_isIn h] at hstand
    rw [Entry.showBelow, if_neg hnot]
    exact hn.standalone_visible old hold hstand
  · intro other hmem dsl' hin
    obtain ⟨old, hold, rfl⟩ := List.mem_map.1 hmem
    rw [Entry.isIn_showBelow] at hin
    rw [hentered, Entry.parent?_showBelow, Entry.showBelow]
    -- Of another language nothing changes, not even what is entered of it.
    by_cases same : sameName dsl dsl' = true
    · rw [if_pos ((Entry.isIn_iff_sameName hin).2 (by rwa [sameName_comm])), ← hsame dsl' same]
      rfl
    · rw [if_neg fun h => same ((Entry.isIn_iff_sameName h).1 hin), hother dsl' same]
      exact hn.member_visible old hold dsl' hin
  · intro dsl'
    refine IsPath.congr (fun id _ => parent?_congr ho id) ?_
    rw [hentered]
    by_cases same : sameName dsl dsl' = true
    · exact hpath dsl' same
    · rw [hother dsl' same]
      exact hn.path dsl'

/-- Entering a visible member. -/
theorem enter (hn : r.Nested) {entry : Entry} (he : entry ∈ r.entries) {own : Membership}
    (hm : entry.membership? = some own) (hv : entry.visible = true) :
    Nested { r.showBelow own.dsl (some entry.id) with scope := entry.id :: r.scope } := by
  have hmem : r.membership? entry.id = some own := (hn.distinct.membership?_eq he).trans hm
  refine hn.show_below own.dsl _ _ ?_ ?_ ?_ ?_
  · intro id hid
    rcases List.mem_cons.1 hid with rfl | hid
    · rw [isMember_eq, hmem]
      rfl
    · exact hn.entered_member id hid
  · intro dsl same
    rw [enteredIn_cons hmem, if_pos same]
    rfl
  · intro dsl other
    rw [enteredIn_cons hmem, if_neg other]
  · intro dsl same
    have hin : entry.isIn dsl = true := Entry.isIn_iff.2 ⟨own, hm, same⟩
    have hvis := hn.member_visible entry he dsl hin
    rw [enteredIn_cons hmem, if_pos same]
    refine ⟨?_, hn.path dsl⟩
    rw [hn.distinct.parent?_eq he]
    simpa [hv] using hvis

/-- Leaving the innermost member. -/
theorem leave (hn : r.Nested) {entry : Entry} (he : entry ∈ r.entries) {own : Membership}
    (hm : entry.membership? = some own) {outer : List Keyword.Id}
    (hs : r.scope = entry.id :: outer) :
    Nested { r.showBelow own.dsl entry.parent? with scope := outer } := by
  have hmem : r.membership? entry.id = some own := (hn.distinct.membership?_eq he).trans hm
  have hentered : ∀ dsl, r.enteredIn dsl =
      if sameName own.dsl dsl then entry.id :: enteredIn { r with scope := outer } dsl
      else enteredIn { r with scope := outer } dsl := by
    intro dsl
    rw [← enteredIn_cons hmem, ← hs]
  have hpath : ∀ dsl, sameName own.dsl dsl = true →
      r.IsPath (entry.id :: enteredIn { r with scope := outer } dsl) := by
    intro dsl same
    have h := hn.path dsl
    rwa [hentered, if_pos same] at h
  refine hn.show_below own.dsl _ _ ?_ ?_ ?_ ?_
  · intro id hid
    exact hn.entered_member id (hs ▸ List.mem_cons_of_mem _ hid)
  · intro dsl same
    rw [← (hpath dsl same).1, hn.distinct.parent?_eq he]
  · intro dsl other
    rw [hentered, if_neg other]
  · intro dsl same
    exact (hpath dsl same).2

/-- What leaving shows is what was shown before entering. -/
theorem showBelow_showBelow (hn : r.Nested) {entry : Entry} (he : entry ∈ r.entries)
    {own : Membership} (hm : entry.membership? = some own) (hv : entry.visible = true)
    (id? : Option Keyword.Id) :
    (r.showBelow own.dsl id?).showBelow own.dsl entry.parent? = r := by
  have hshown : ∀ other ∈ r.entries,
      (other.showBelow own.dsl id?).showBelow own.dsl entry.parent? = other := by
    intro other ho
    rw [Entry.showBelow_showBelow, Entry.showBelow]
    by_cases hin : other.isIn own.dsl = true
    · rw [if_pos hin, hn.parent?_of_visible he hm hv, ← hn.member_visible other ho own.dsl hin]
      rfl
    · rw [if_neg hin]
  have hentries : r.entries.map
      (Entry.showBelow own.dsl entry.parent? ∘ Entry.showBelow own.dsl id?) = r.entries :=
    (List.map_congr_left (g := id) hshown).trans (List.map_id _)
  simp only [showBelow, List.map_map, hentries]

end Nested

end Registry

end KeywordScope
