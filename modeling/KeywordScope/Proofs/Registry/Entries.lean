import KeywordScope.Registry.Basic
import Mathlib.Data.List.Nodup

/-!
# Entries and their visibility

Which keywords are registered, and where they stand in their languages, depends neither on which
of them are visible nor on their hooks.

* `Registry.outline`: the entries as if all were hidden and had no hooks. The queries about the
  forest of a language (`membership?`, `children`, `siblings`, …) answer alike for registries of one
  outline.
* `Registry.setVisible`: the registry with some keywords shown or hidden. It keeps the outline.
* `Registry.Distinct`: no two entries have one identity.
-/

namespace KeywordScope

namespace Entry

/-- The entry, shown or hidden. -/
def withVisible (entry : Entry) (visible : Bool) : Entry :=
  { entry with visible }

@[simp] theorem id_withVisible (entry : Entry) (visible : Bool) :
    (entry.withVisible visible).id = entry.id := rfl

@[simp] theorem membership?_withVisible (entry : Entry) (visible : Bool) :
    (entry.withVisible visible).membership? = entry.membership? := rfl

@[simp] theorem isMember_withVisible (entry : Entry) (visible : Bool) :
    (entry.withVisible visible).isMember = entry.isMember := rfl

@[simp] theorem isIn_withVisible (entry : Entry) (visible : Bool) (dsl : String) :
    (entry.withVisible visible).isIn dsl = entry.isIn dsl := rfl

@[simp] theorem withVisible_withVisible (entry : Entry) (visible visible' : Bool) :
    (entry.withVisible visible).withVisible visible' = entry.withVisible visible' := rfl

theorem withVisible_self (entry : Entry) : entry.withVisible entry.visible = entry := rfl

theorem withVisible_eq_iff {entry : Entry} {visible : Bool} :
    entry.withVisible visible = entry ↔ entry.visible = visible := by
  constructor
  · exact fun h => (congrArg Entry.visible h).symm
  · rintro rfl
    exact entry.withVisible_self

/-- What does not change while the entry is registered: it is neither visible nor has it hooks. -/
def bare (entry : Entry) : Entry :=
  { entry with visible := false, onInvoking? := none, onInvoked? := none }

@[simp] theorem id_bare (entry : Entry) : entry.bare.id = entry.id := rfl

@[simp] theorem keyword_bare (entry : Entry) : entry.bare.keyword = entry.keyword := rfl

@[simp] theorem membership?_bare (entry : Entry) :
    entry.bare.membership? = entry.membership? := rfl

/-- The keyword above a member; roots and standalone keywords have none. -/
def parent? (entry : Entry) : Option Keyword.Id :=
  entry.membership?.bind (·.parent?)

theorem parent?_eq_some {entry : Entry} {parent : Keyword.Id} :
    entry.parent? = some parent ↔
      ∃ own, entry.membership? = some own ∧ own.parent? = some parent :=
  Option.bind_eq_some_iff

@[simp] theorem bare_withVisible (entry : Entry) (visible : Bool) :
    (entry.withVisible visible).bare = entry.bare := rfl

@[simp] theorem parent?_withVisible (entry : Entry) (visible : Bool) :
    (entry.withVisible visible).parent? = entry.parent? := rfl

theorem isIn_iff {entry : Entry} {dsl : String} :
    entry.isIn dsl = true ↔
      ∃ membership, entry.membership? = some membership ∧ sameName membership.dsl dsl = true := by
  unfold isIn
  cases entry.membership? <;> simp

theorem isMember_of_isIn {entry : Entry} {dsl : String} (h : entry.isIn dsl = true) :
    entry.isMember = true := by
  obtain ⟨_, hm, -⟩ := isIn_iff.1 h
  simp [isMember, hm]

/-- The languages of which an entry is a member have one name. -/
theorem isIn_iff_sameName {entry : Entry} {dsl dsl' : String} (h : entry.isIn dsl = true) :
    entry.isIn dsl' = true ↔ sameName dsl dsl' = true := by
  obtain ⟨membership, hm, same⟩ := isIn_iff.1 h
  rw [isIn_iff]
  constructor
  · rintro ⟨_, hm', same'⟩
    obtain rfl := Option.some.inj (hm.symm.trans hm')
    exact sameName_trans (by rwa [sameName_comm]) same'
  · intro same'
    exact ⟨membership, hm, sameName_trans same same'⟩

@[simp] theorem parent?_bare (entry : Entry) : entry.bare.parent? = entry.parent? := rfl

@[simp] theorem isMember_bare (entry : Entry) : entry.bare.isMember = entry.isMember := rfl

@[simp] theorem isIn_bare (entry : Entry) (dsl : String) :
    entry.bare.isIn dsl = entry.isIn dsl := rfl

section Bare

variable {entry entry' : Entry}

theorem id_congr (h : entry.bare = entry'.bare) : entry.id = entry'.id := by
  rw [← id_bare, h, id_bare]

theorem keyword_congr (h : entry.bare = entry'.bare) : entry.keyword = entry'.keyword := by
  rw [← keyword_bare, h, keyword_bare]

theorem membership?_congr (h : entry.bare = entry'.bare) :
    entry.membership? = entry'.membership? := by
  rw [← membership?_bare, h, membership?_bare]

theorem path_congr (h : entry.bare = entry'.bare) : entry.path = entry'.path := by
  rw [path, path, membership?_congr h, keyword_congr h]

theorem parent?_congr (h : entry.bare = entry'.bare) : entry.parent? = entry'.parent? := by
  rw [← parent?_bare, h, parent?_bare]

theorem isMember_congr (h : entry.bare = entry'.bare) : entry.isMember = entry'.isMember := by
  rw [← isMember_bare, h, isMember_bare]

theorem isIn_congr (h : entry.bare = entry'.bare) (dsl : String) :
    entry.isIn dsl = entry'.isIn dsl := by
  rw [← isIn_bare, h, isIn_bare]

end Bare

theorem isRoot_iff {entry : Entry} :
    entry.isRoot = true ↔ entry.isMember = true ∧ entry.parent? = none := by
  unfold isRoot isMember parent?
  cases entry.membership? <;> simp

end Entry

namespace Registry

variable {τ : Type}

/-! ## The outline -/

/-- The entries as if all keywords were hidden and had no hooks. -/
def outline (r : Registry τ) : List Entry :=
  r.entries.map Entry.bare

/-- An entry has its like in a registry of the same outline. -/
theorem exists_mem_of_outline {r r' : Registry τ} (h : r.outline = r'.outline) {entry : Entry}
    (he : entry ∈ r.entries) : ∃ entry' ∈ r'.entries, entry'.bare = entry.bare := by
  have : entry.bare ∈ r'.outline := h ▸ List.mem_map_of_mem he
  exact List.mem_map.1 this

theorem find?_eq_outline (r : Registry τ) (id : Keyword.Id) :
    (r.find? id).map Entry.bare = r.outline.find? (·.id == id) := by
  simp [find?, outline, List.find?_map, Function.comp_def]

/-- What is asked of an entry, apart from its visibility and hooks, depends on the outline alone. -/
theorem map_find?_congr {r r' : Registry τ} (h : r.outline = r'.outline) (id : Keyword.Id)
    {β : Type} (f : Entry → β) (hf : ∀ entry, f entry.bare = f entry) :
    (r.find? id).map f = (r'.find? id).map f := by
  have e : ∀ s : Registry τ, (s.find? id).map f = (s.outline.find? (·.id == id)).map f := by
    intro s
    rw [← find?_eq_outline, Option.map_map]
    exact congrArg (Option.map · _) (funext fun entry => (hf entry).symm)
  rw [e r, e r', h]

/-- An entry is found again in a registry of the same outline. -/
theorem find?_of_outline {r r' : Registry τ} (h : r.outline = r'.outline) {id : Keyword.Id}
    {entry : Entry} (hf : r.find? id = some entry) :
    ∃ entry', r'.find? id = some entry' ∧ entry'.keyword = entry.keyword := by
  have := map_find?_congr h id (·.keyword) fun _ => rfl
  rw [hf] at this
  exact Option.map_eq_some_iff.1 this.symm

theorem keyword?_congr {r r' : Registry τ} (h : r.outline = r'.outline) :
    r.keyword? = r'.keyword? :=
  funext fun id => map_find?_congr h id _ fun _ => rfl

theorem membership?_congr {r r' : Registry τ} (h : r.outline = r'.outline) (id : Keyword.Id) :
    r.membership? id = r'.membership? id := by
  have e : ∀ s : Registry τ, s.membership? id = ((s.find? id).map (·.membership?)).join := by
    intro s
    unfold membership?
    cases s.find? id <;> rfl
  rw [e r, e r', map_find?_congr h id _ fun _ => rfl]

theorem parent?_congr {r r' : Registry τ} (h : r.outline = r'.outline) (id : Keyword.Id) :
    r.parent? id = r'.parent? id := by
  rw [parent?, parent?, membership?_congr h]

theorem isMember_eq (r : Registry τ) (id : Keyword.Id) :
    r.isMember id = (r.membership? id).isSome := by
  unfold isMember membership?
  cases r.find? id <;> simp [Entry.isMember]

theorem isMember_iff {r : Registry τ} {id : Keyword.Id} :
    r.isMember id = true ↔ ∃ entry, r.find? id = some entry ∧ entry.isMember = true := by
  rw [isMember, Option.any_eq_true]

theorem isMember_congr {r r' : Registry τ} (h : r.outline = r'.outline) (id : Keyword.Id) :
    r.isMember id = r'.isMember id := by
  rw [isMember_eq, isMember_eq, membership?_congr h]

theorem idsWhere_congr {r r' : Registry τ} (h : r.outline = r'.outline) {p : Entry → Bool}
    (hp : ∀ entry, p entry.bare = p entry) : r.idsWhere p = r'.idsWhere p := by
  have e : ∀ s : Registry τ, s.idsWhere p = (s.outline.filter p).map Entry.id := by
    intro s
    simp [idsWhere, outline, List.filter_map, Function.comp_def, hp]
  rw [e r, e r', h]

theorem keywordsWhere_congr {r r' : Registry τ} (h : r.outline = r'.outline) {p : Entry → Bool}
    (hp : ∀ entry, p entry.bare = p entry) : r.keywordsWhere p = r'.keywordsWhere p := by
  have e : ∀ s : Registry τ, s.keywordsWhere p = (s.outline.filter p).map (·.keyword) := by
    intro s
    simp [keywordsWhere, outline, List.filter_map, Function.comp_def, hp]
  rw [e r, e r', h]

theorem roots_congr {r r' : Registry τ} (h : r.outline = r'.outline) (dsl : String) :
    r.roots dsl = r'.roots dsl :=
  keywordsWhere_congr h fun _ => rfl

theorem standalones_congr {r r' : Registry τ} (h : r.outline = r'.outline) :
    r.standalones = r'.standalones :=
  keywordsWhere_congr h fun _ => rfl

theorem children_congr {r r' : Registry τ} (h : r.outline = r'.outline) (id : Keyword.Id) :
    r.children id = r'.children id :=
  idsWhere_congr h fun _ => rfl

theorem siblings_congr {r r' : Registry τ} (h : r.outline = r'.outline) (id : Keyword.Id) :
    r.siblings id = r'.siblings id := by
  rw [siblings, siblings, membership?_congr h]
  cases r'.membership? id with
  | none => rfl
  | some own => exact idsWhere_congr h fun _ => rfl

/-! ## Showing and hiding -/

/-- The registry with these keywords shown, or hidden. -/
def setVisible (r : Registry τ) (ids : List Keyword.Id) (visible : Bool) : Registry τ :=
  { r with entries := r.entries.map fun entry =>
      if entry.id ∈ ids then entry.withVisible visible else entry }

@[simp] theorem outline_setVisible (r : Registry τ) (ids : List Keyword.Id) (visible : Bool) :
    (r.setVisible ids visible).outline = r.outline := by
  simp only [outline, setVisible, List.map_map]
  refine List.map_congr_left fun entry _ => ?_
  simp only [Function.comp_apply]
  split <;> rfl

theorem setVisible_nil (r : Registry τ) (visible : Bool) : r.setVisible [] visible = r := by
  simp [setVisible]

theorem setVisible_cons (r : Registry τ) (id : Keyword.Id) (ids : List Keyword.Id)
    (visible : Bool) :
    r.setVisible (id :: ids) visible = (r.setVisible [id] visible).setVisible ids visible := by
  simp only [setVisible, List.map_map]
  congr 1
  refine List.map_congr_left fun entry _ => ?_
  simp only [Function.comp_apply, List.mem_cons, List.not_mem_nil, or_false]
  by_cases h : entry.id = id
  · simp [h]
  · simp [h]

/-- Only the last change of what is visible counts. -/
theorem setVisible_setVisible_of_subset (r : Registry τ) {ids ids' : List Keyword.Id}
    (h : ∀ id ∈ ids, id ∈ ids') (visible visible' : Bool) :
    (r.setVisible ids visible).setVisible ids' visible' = r.setVisible ids' visible' := by
  simp only [setVisible, List.map_map]
  congr 1
  refine List.map_congr_left fun entry _ => ?_
  simp only [Function.comp_apply]
  by_cases hid : entry.id ∈ ids
  · simp [hid, h entry.id hid]
  · simp [hid]

/-- Nothing changes if and only if the keywords are shown, or hidden, already. -/
theorem entries_setVisible_iff (r : Registry τ) (ids : List Keyword.Id) (visible : Bool) :
    (r.setVisible ids visible).entries = r.entries ↔
      ∀ entry ∈ r.entries, entry.id ∈ ids → entry.visible = visible := by
  have hid : r.entries = r.entries.map id := (List.map_id _).symm
  rw [setVisible, hid, List.map_map, List.map_inj_left, ← hid]
  refine forall₂_congr fun entry _ => ?_
  by_cases h : entry.id ∈ ids
  · simp [h, Entry.withVisible_eq_iff]
  · simp [h]

theorem setVisible_of_forall {r : Registry τ} {ids : List Keyword.Id} {visible : Bool}
    (h : ∀ entry ∈ r.entries, entry.id ∈ ids → entry.visible = visible) :
    r.setVisible ids visible = r := by
  have hentries := (r.entries_setVisible_iff ids visible).2 h
  rw [setVisible] at hentries ⊢
  rw [show r.entries.map _ = r.entries from hentries]

theorem visibility_setVisible (r : Registry τ) (ids : List Keyword.Id) (visible : Bool) :
    (r.setVisible ids visible).visibility =
      r.entries.map fun entry => (entry.id, if entry.id ∈ ids then visible else entry.visible) := by
  rw [visibility, setVisible, List.map_map]
  refine List.map_congr_left fun entry _ => ?_
  simp only [Function.comp_apply]
  split <;> rfl

/-! ## Other bindings -/

/-- The registry over another table of bindings. -/
def withBindings (r : Registry τ) (bindings : τ) : Registry τ :=
  { r with bindings }

@[simp] theorem entries_withBindings (r : Registry τ) (bindings : τ) :
    (r.withBindings bindings).entries = r.entries := rfl

@[simp] theorem withBindings_withBindings (r : Registry τ) (bindings bindings' : τ) :
    (r.withBindings bindings).withBindings bindings' = r.withBindings bindings' := rfl

@[simp] theorem setVisible_withBindings (r : Registry τ) (bindings : τ) (ids : List Keyword.Id)
    (visible : Bool) :
    (r.withBindings bindings).setVisible ids visible =
      (r.setVisible ids visible).withBindings bindings := rfl

/-! ## Fewer entries -/

/-- The registry without the entries of which a property holds. -/
def without (r : Registry τ) (p : Entry → Bool) : Registry τ :=
  { r with entries := r.entries.filter (!p ·) }

@[simp] theorem without_withBindings (r : Registry τ) (bindings : τ) (p : Entry → Bool) :
    (r.withBindings bindings).without p = (r.without p).withBindings bindings := rfl

theorem without_without (r : Registry τ) (p q : Entry → Bool) :
    (r.without p).without q = r.without fun entry => p entry || q entry := by
  simp only [without, List.filter_filter, Bool.not_or, Bool.and_comm]

theorem mem_without {r : Registry τ} {p : Entry → Bool} {entry : Entry} :
    entry ∈ (r.without p).entries ↔ entry ∈ r.entries ∧ p entry = false := by
  simp [without]

theorem without_congr {r : Registry τ} {p q : Entry → Bool}
    (h : ∀ entry ∈ r.entries, p entry = q entry) : r.without p = r.without q := by
  simp only [without]
  rw [List.filter_congr fun entry he => by rw [h entry he]]

theorem without_of_forall {r : Registry τ} {p : Entry → Bool}
    (h : ∀ entry ∈ r.entries, p entry = false) : r.without p = r := by
  have e : r.entries.filter (!p ·) = r.entries :=
    List.filter_eq_self.2 fun entry he => by rw [h entry he]; rfl
  rw [without, e]

/-- Standalone keywords belong to no language. -/
theorem standalones_without_dsl (r : Registry τ) (dsl : String) :
    (r.without (·.isIn dsl)).standalones = r.standalones := by
  rw [standalones, standalones, keywordsWhere, keywordsWhere, without, List.filter_filter]
  congr 1
  refine List.filter_congr fun entry _ => ?_
  cases hin : entry.isIn dsl with
  | true => rw [Entry.isMember_of_isIn hin]; rfl
  | false => rw [Bool.not_false, Bool.and_true]

/-! ## One entry more -/

/-- The registry with another entry. -/
def concat (r : Registry τ) (entry : Entry) : Registry τ :=
  { r with entries := r.entries ++ [entry] }

theorem mem_concat {r : Registry τ} {entry other : Entry} :
    other ∈ (r.concat entry).entries ↔ other ∈ r.entries ∨ other = entry := by
  simp [concat]

/-- What is found is found among more entries, too. -/
theorem find?_of_append {r r' : Registry τ} {more : List Entry}
    (hr : r'.entries = r.entries ++ more) {id : Keyword.Id} {entry : Entry}
    (h : r.find? id = some entry) : r'.find? id = some entry := by
  rw [find?, hr, List.find?_append, show r.entries.find? _ = some entry from h]
  rfl

theorem membership?_concat {r : Registry τ} {entry : Entry} {id : Keyword.Id}
    (h : r.isMember id = true) : (r.concat entry).membership? id = r.membership? id := by
  obtain ⟨found, hf, -⟩ := isMember_iff.1 h
  have hf' : (r.concat entry).find? id = some found := find?_of_append rfl hf
  rw [membership?, membership?, hf, hf']

/-! ## Distinct identities -/

/-- No two entries have one identity. -/
def Distinct (r : Registry τ) : Prop :=
  (r.entries.map Entry.id).Nodup

theorem Distinct.congr {r r' : Registry τ} (h : r.outline = r'.outline) (hd : r.Distinct) :
    r'.Distinct := by
  have e : ∀ s : Registry τ, s.entries.map Entry.id = s.outline.map Entry.id := by
    intro s
    simp [outline, Function.comp_def]
  rw [Distinct, e, ← h, ← e]
  exact hd

theorem mem_of_find? {r : Registry τ} {id : Keyword.Id} {entry : Entry}
    (h : r.find? id = some entry) : entry ∈ r.entries ∧ entry.id = id :=
  ⟨List.mem_of_find?_eq_some h, by simpa using List.find?_some h⟩

theorem find?_isSome_of_mem {r : Registry τ} {entry : Entry} (h : entry ∈ r.entries) :
    (r.find? entry.id).isSome = true := by
  rw [find?, List.find?_isSome]
  exact ⟨entry, h, by simp⟩

theorem Distinct.eq_of_id {r : Registry τ} (hd : r.Distinct) {a b : Entry} (ha : a ∈ r.entries)
    (hb : b ∈ r.entries) (h : a.id = b.id) : a = b :=
  List.inj_on_of_nodup_map hd ha hb h

theorem Distinct.find?_eq {r : Registry τ} (hd : r.Distinct) {entry : Entry}
    (h : entry ∈ r.entries) : r.find? entry.id = some entry := by
  obtain ⟨found, hf⟩ := Option.isSome_iff_exists.1 (find?_isSome_of_mem h)
  obtain ⟨hm, he⟩ := mem_of_find? hf
  rw [hf, hd.eq_of_id hm h he]

/-- Entries in different places have different identities. -/
theorem Distinct.ne_of_append {r : Registry τ} (hd : r.Distinct)
    {before first second after : List Entry} (hr : r.entries = before ++ (first ++ second) ++ after)
    {a b : Entry} (ha : a ∈ first) (hb : b ∈ second) : a.id ≠ b.id := by
  rw [Distinct, hr, List.map_append, List.map_append, List.map_append] at hd
  have hmiddle := (List.nodup_append.1 (List.nodup_append.1 hd).1).2.1
  exact (List.nodup_append.1 hmiddle).2.2 _ (List.mem_map_of_mem ha) _ (List.mem_map_of_mem hb)

theorem Distinct.membership?_eq {r : Registry τ} (hd : r.Distinct) {entry : Entry}
    (h : entry ∈ r.entries) : r.membership? entry.id = entry.membership? := by
  rw [membership?, hd.find?_eq h]
  rfl

theorem Distinct.isVisible_eq {r : Registry τ} (hd : r.Distinct) {entry : Entry}
    (h : entry ∈ r.entries) : r.isVisible entry.id = entry.visible := by
  rw [isVisible, hd.find?_eq h]
  rfl

theorem Distinct.isMember_eq {r : Registry τ} (hd : r.Distinct) {entry : Entry}
    (h : entry ∈ r.entries) : r.isMember entry.id = entry.isMember := by
  rw [isMember, hd.find?_eq h]
  rfl

theorem Distinct.parent?_eq {r : Registry τ} (hd : r.Distinct) {entry : Entry}
    (h : entry ∈ r.entries) : r.parent? entry.id = entry.parent? := by
  rw [parent?, hd.membership?_eq h]
  rfl

theorem Distinct.without {r : Registry τ} (hd : r.Distinct) (p : Entry → Bool) :
    (r.without p).Distinct :=
  hd.sublist (List.filter_sublist.map Entry.id)

theorem Distinct.contains_members {r : Registry τ} (hd : r.Distinct) (dsl : String) {entry : Entry}
    (he : entry ∈ r.entries) :
    ((r.members dsl).map Keyword.id).contains entry.id = entry.isIn dsl := by
  rw [Bool.eq_iff_iff, List.contains_iff_mem]
  simp only [members, keywordsWhere, List.map_map, List.mem_map, List.mem_filter,
    Function.comp_apply]
  constructor
  · rintro ⟨found, ⟨hf, hin⟩, hid⟩
    rwa [← hd.eq_of_id hf he hid]
  · intro hin
    exact ⟨entry, ⟨he, hin⟩, rfl⟩

theorem Distinct.concat {r : Registry τ} (hd : r.Distinct) {entry : Entry}
    (h : r.find? entry.id = none) : (r.concat entry).Distinct := by
  have hnew : entry.id ∉ r.entries.map Entry.id := by
    intro hmem
    obtain ⟨other, ho, hid⟩ := List.mem_map.1 hmem
    have := find?_isSome_of_mem ho
    rw [hid, h] at this
    cases this
  rw [Distinct, show (r.concat entry).entries.map Entry.id = r.entries.map Entry.id ++ [entry.id] by
    simp [Registry.concat]]
  exact List.nodup_append.2 ⟨hd, List.nodup_singleton _, fun id hid id' hid' same =>
    hnew (List.mem_singleton.1 hid' ▸ same ▸ hid)⟩

theorem membership?_without {r : Registry τ} (hd : r.Distinct) {p : Entry → Bool} {entry : Entry}
    (he : entry ∈ r.entries) (hp : p entry = false) :
    (r.without p).membership? entry.id = r.membership? entry.id := by
  rw [hd.membership?_eq he, (hd.without p).membership?_eq (mem_without.2 ⟨he, hp⟩)]

theorem mem_idsWhere {r : Registry τ} {p : Entry → Bool} {id : Keyword.Id} :
    id ∈ r.idsWhere p ↔ ∃ entry ∈ r.entries, p entry = true ∧ entry.id = id := by
  simp [idsWhere, and_assoc]

theorem mem_children {r : Registry τ} {id child : Keyword.Id} :
    child ∈ r.children id ↔
      ∃ entry ∈ r.entries, entry.parent? = some id ∧ entry.id = child := by
  rw [children, mem_idsWhere]
  refine exists_congr fun entry => and_congr_right fun _ => and_congr_left fun _ => ?_
  unfold Entry.parent?
  cases entry.membership? <;> simp

theorem mem_siblings {r : Registry τ} {id other : Keyword.Id} {own : Membership}
    (h : r.membership? id = some own) :
    other ∈ r.siblings id ↔
      ∃ entry ∈ r.entries, (entry.isIn own.dsl = true ∧ entry.parent? = own.parent?) ∧
        entry.id = other := by
  rw [siblings, h]
  simp only
  rw [mem_idsWhere]
  refine exists_congr fun entry => and_congr_right fun _ => and_congr_left fun _ => ?_
  unfold Entry.isIn Entry.parent?
  cases entry.membership? <;> simp

theorem Distinct.find?_of_mem_children {r : Registry τ} (hd : r.Distinct) {id child : Keyword.Id}
    (hc : child ∈ r.children id) :
    ∃ entry ∈ r.entries, r.find? child = some entry ∧ entry.isMember = true := by
  obtain ⟨entry, he, hp, rfl⟩ := mem_children.1 hc
  refine ⟨entry, he, hd.find?_eq he, ?_⟩
  obtain ⟨own, hm, -⟩ := Entry.parent?_eq_some.1 hp
  simp [Entry.isMember, hm]

theorem Distinct.find?_of_mem_siblings {r : Registry τ} (hd : r.Distinct) {id sibling : Keyword.Id}
    (hc : sibling ∈ r.siblings id) :
    ∃ entry ∈ r.entries, r.find? sibling = some entry ∧ entry.isMember = true := by
  cases hm : r.membership? id with
  | none =>
    rw [siblings, hm] at hc
    cases hc
  | some own =>
    obtain ⟨entry, he, ⟨hin, -⟩, rfl⟩ := (mem_siblings hm).1 hc
    exact ⟨entry, he, hd.find?_eq he, Entry.isMember_of_isIn hin⟩

end Registry

end KeywordScope
