import KeywordScope.Proofs.Registry.Catalog
import KeywordScope.Proofs.Registry.Sound

/-!
# What the two maps stand for

* `Catalog.Represents`: the catalog stores what is registered.
* `Represents.place?`, `Represents.children`, `Represents.standalones`, …: queries are answered
  alike.
* `Represents.concat`, `Represents.remove`, `Represents.adjust`: what becomes of both if a keyword
  is registered, removed or changed.
* `Catalog.Sound`: the two maps fit together; `Represents.sound`: they do if the registry is sound.
-/

namespace KeywordScope

/-- What a keyword is stored as. -/
def Entry.item (entry : Entry) : Item where
  keyword := entry.keyword
  visible := entry.visible
  onInvoking? := entry.onInvoking?
  onInvoked? := entry.onInvoked?

namespace OrderedMap

variable {κ β : Type} [DecidableEq κ] {map : OrderedMap κ β}

theorem get?_eq_some {key : κ} {value : β} : map.get? key = some value ↔ (key, value) ∈ map.items := by
  rw [get?, Option.map_eq_some_iff]
  constructor
  · rintro ⟨item, hfind, rfl⟩
    have hkey : item.1 = key := by simpa using List.find?_some hfind
    exact hkey ▸ List.mem_of_find?_eq_some hfind
  · intro hmem
    obtain ⟨item, hfind⟩ : ∃ item, map.items.find? (·.1 == key) = some item :=
      Option.isSome_iff_exists.1 (List.find?_isSome.2 ⟨_, hmem, beq_self_eq_true key⟩)
    have hkey : item.1 = key := by simpa using List.find?_some hfind
    have same := List.inj_on_of_nodup_map map.nodup (List.mem_of_find?_eq_some hfind) hmem hkey
    exact ⟨item, hfind, by rw [same]⟩

theorem items_adjust (map : OrderedMap κ β) (key : κ) (change : β → β) :
    (map.adjust key change).items =
      map.items.map fun item => if item.1 == key then (item.1, change item.2) else item := rfl

theorem items_remove (map : OrderedMap κ β) (key : κ) :
    (map.remove key).items = map.items.filter (·.1 != key) := rfl

theorem items_insert {key : κ} (h : map.contains key = false) {value : β} :
    (map.insert key value).items = map.items ++ [(key, value)] := by
  rw [insert, dif_neg (by rw [h]; exact Bool.false_ne_true)]

end OrderedMap

namespace Catalog

variable {τ : Type}

/-- The catalog stores what is registered, in the same order. -/
structure Represents (c : Catalog τ) (r : Registry τ) : Prop where
  entries : c.entries.items = r.entries.map fun entry => (entry.id, entry.item)
  places : c.places.items = r.entries.filterMap fun entry => entry.membership?.map (entry.id, ·)
  scope : c.scope = r.scope
  nextId : c.nextId = r.nextId
  bindings : c.bindings = r.bindings
  target : c.target = r.target
  description : c.description = r.description
  separator : c.separator = r.separator

/-! ## Queries -/

namespace Represents

variable {c : Catalog τ} {r : Registry τ} (h : c.Represents r)

include h

theorem distinct : r.Distinct := by
  have hnodup := c.entries.nodup
  rw [h.entries, List.map_map] at hnodup
  exact hnodup

theorem item? (id : Keyword.Id) : c.entries.get? id = (r.find? id).map Entry.item := by
  rw [OrderedMap.get?, h.entries, List.find?_map, Option.map_map]
  rfl

theorem contains_entry (id : Keyword.Id) : c.entries.contains id = (r.find? id).isSome := by
  rw [OrderedMap.contains, h.item?, Option.isSome_map]

theorem mem_places {id : Keyword.Id} {own : Membership} :
    (id, own) ∈ c.places.items ↔
      ∃ entry ∈ r.entries, entry.membership? = some own ∧ entry.id = id := by
  rw [h.places, List.mem_filterMap]
  refine exists_congr fun entry => and_congr_right fun _ => ?_
  rw [Option.map_eq_some_iff]
  constructor
  · rintro ⟨own', hown, hpair⟩
    cases hpair
    exact ⟨hown, rfl⟩
  · rintro ⟨hown, rfl⟩
    exact ⟨own, hown, rfl⟩

theorem place? (id : Keyword.Id) : c.places.get? id = r.membership? id := by
  refine Option.ext fun own => ?_
  rw [OrderedMap.get?_eq_some, h.mem_places]
  constructor
  · rintro ⟨entry, he, hown, rfl⟩
    rw [h.distinct.membership?_eq he, hown]
  · intro hown
    obtain ⟨entry, hfind, hown⟩ := Option.bind_eq_some_iff.1 hown
    obtain ⟨he, hid⟩ := Registry.mem_of_find? hfind
    exact ⟨entry, he, hown, hid⟩

theorem contains_place (id : Keyword.Id) : c.places.contains id = r.isMember id := by
  rw [OrderedMap.contains, h.place?, Registry.isMember_eq]

theorem idsWhere {p : Membership → Bool} {q : Entry → Bool}
    (hq : ∀ entry : Entry, q entry = entry.membership?.any p) : c.idsWhere p = r.idsWhere q := by
  rw [Catalog.idsWhere, Registry.idsWhere, h.places]
  clear h
  induction r.entries with
  | nil => rfl
  | cons entry entries ih =>
    rw [List.filterMap_cons, List.filter_cons, hq entry]
    cases entry.membership? with
    | none => simpa using ih
    | some own => cases hp : p own <;> simp [hp, ih]

theorem members (dsl : String) : c.members dsl = (r.members dsl).map Keyword.id := by
  rw [Registry.members, Registry.keywordsWhere, List.map_map]
  exact h.idsWhere fun _ => rfl

theorem children (id : Keyword.Id) : c.children id = r.children id :=
  h.idsWhere fun _ => rfl

theorem siblings (id : Keyword.Id) : c.siblings id = r.siblings id := by
  rw [Catalog.siblings, Registry.siblings, h.place?]
  cases r.membership? id with
  | none => rfl
  | some own =>
    refine h.idsWhere fun entry => ?_
    unfold Entry.isIn
    cases entry.membership? with
    | none => rfl
    | some place => exact Bool.and_comm _ _

theorem idAt? (dsl path : String) : c.idAt? dsl path = (r.entryAt? dsl path).map Entry.id := by
  rw [Catalog.idAt?, Registry.entryAt?, h.places]
  clear h
  induction r.entries with
  | nil => rfl
  | cons entry entries ih =>
    rw [List.filterMap_cons, List.find?_cons]
    cases hm : entry.membership? with
    | none => simpa [Entry.isIn, hm] using ih
    | some own =>
      have hpath : entry.path = own.path := by rw [Entry.path, hm]; rfl
      have hin : entry.isIn dsl = sameName own.dsl dsl := by rw [Entry.isIn, hm]; rfl
      rw [hpath, hin, Option.map_some, List.find?_cons]
      cases sameName own.dsl dsl && sameName own.path path with
      | true => rfl
      | false => exact ih

theorem contains_place_of_mem {entry : Entry} (he : entry ∈ r.entries) :
    c.places.contains entry.id = entry.isMember := by
  rw [h.contains_place, h.distinct.isMember_eq he]

theorem standalones : c.standalones = r.standalones := by
  rw [Catalog.standalones, Registry.standalones, Registry.keywordsWhere, h.entries,
    List.filter_map, List.map_map]
  refine congrArg (List.map _) (List.filter_congr fun entry he => ?_)
  rw [Function.comp_apply, h.contains_place_of_mem he]

theorem standalone? (name : String) : c.standalone? name = r.standalone? name := by
  rw [Catalog.standalone?, Registry.standalone?, h.standalones]

theorem visibleNamed (name : String) :
    c.visibleNamed name = (r.visibleNamed name).map (·.keyword) := by
  rw [Catalog.visibleNamed, Registry.visibleNamed, h.entries, List.filter_map, List.map_map]
  rfl

theorem choose (name : String) :
    c.choose name = (Registry.choose name (r.visibleNamed name)).map (·.keyword) := by
  have hmembers : (c.visibleNamed name).filter (fun keyword => c.places.contains keyword.id) =
      ((r.visibleNamed name).filter Entry.isMember).map (·.keyword) := by
    rw [h.visibleNamed, List.filter_map]
    refine congrArg (List.map _) (List.filter_congr fun entry he => ?_)
    exact h.contains_place_of_mem (List.mem_filter.1 he).1
  unfold Catalog.choose Registry.choose
  rw [h.visibleNamed] at hmembers ⊢
  generalize r.visibleNamed name = visible at hmembers ⊢
  rcases visible with _ | ⟨first, _ | ⟨second, rest⟩⟩
  · rfl
  · rfl
  · rw [List.map_cons, List.map_cons] at hmembers ⊢
    simp only [hmembers]
    rcases (first :: second :: rest).filter Entry.isMember with _ | ⟨one, _ | ⟨two, more⟩⟩ <;> rfl

/-! ## Changes -/

theorem withBindings (bindings : τ) :
    Represents { c with bindings } (r.withBindings bindings) :=
  ⟨h.entries, h.places, h.scope, h.nextId, rfl, h.target, h.description, h.separator⟩

theorem withScope (scope : List Keyword.Id) :
    Represents { c with scope } { r with scope } :=
  ⟨h.entries, h.places, rfl, h.nextId, h.bindings, h.target, h.description, h.separator⟩

/-- A keyword is changed where it stands. -/
theorem adjust (id : Keyword.Id) {change : Item → Item} {change' : Entry → Entry}
    (hitem : ∀ entry, (change' entry).item = change entry.item)
    (hid : ∀ entry, (change' entry).id = entry.id)
    (hplace : ∀ entry, (change' entry).membership? = entry.membership?) :
    Represents { c with entries := c.entries.adjust id change }
      { r with entries := r.entries.map fun entry =>
          if entry.id == id then change' entry else entry } where
  entries := by
    show (c.entries.adjust id change).items = _
    rw [OrderedMap.items_adjust, h.entries, List.map_map, List.map_map]
    refine List.map_congr_left fun entry _ => ?_
    simp only [Function.comp_apply]
    split
    · rw [hid, hitem]
    · rfl
  places := by
    rw [h.places, List.filterMap_map]
    refine List.filterMap_congr fun entry _ => ?_
    simp only [Function.comp_apply]
    split
    · rw [hid, hplace]
    · rfl
  scope := h.scope
  nextId := h.nextId
  bindings := h.bindings
  target := h.target
  description := h.description
  separator := h.separator

/-- A keyword is removed from both maps. -/
theorem remove (id : Keyword.Id) :
    Represents { c with entries := c.entries.remove id, places := c.places.remove id }
      { r with entries := r.entries.filter (·.id != id) } where
  entries := by
    show (c.entries.remove id).items = _
    rw [OrderedMap.items_remove, h.entries, List.filter_map]
    rfl
  places := by
    show (c.places.remove id).items = _
    rw [OrderedMap.items_remove, h.places, List.filter_filterMap, List.filterMap_filter]
    refine List.filterMap_congr fun entry _ => ?_
    cases entry.membership? with
    | none => simp
    | some own => by_cases hid : entry.id = id <;> simp [hid]
  scope := h.scope
  nextId := h.nextId
  bindings := h.bindings
  target := h.target
  description := h.description
  separator := h.separator

/-- A keyword that is new comes last, also among the places if it has one. -/
theorem concat {keyword : Keyword} (hfresh : r.find? keyword.id = none) (visible : Bool)
    (own? : Option Membership) :
    Represents
      { c with
        entries := c.entries.insert keyword.id { keyword, visible }
        places := own?.elim c.places fun own => c.places.insert keyword.id own }
      (r.concat { keyword, visible, membership? := own? }) where
  entries := by
    have hnew : c.entries.contains keyword.id = false := by rw [h.contains_entry, hfresh]; rfl
    rw [OrderedMap.items_insert hnew, h.entries, Registry.concat, List.map_append]
    rfl
  places := by
    rw [Registry.concat, List.filterMap_append, ← h.places]
    cases own? with
    | none => exact (List.append_nil _).symm
    | some own =>
      have hnew : c.places.contains keyword.id = false := by
        rw [h.contains_place, Registry.isMember, hfresh]
        rfl
      exact OrderedMap.items_insert hnew
  scope := h.scope
  nextId := h.nextId
  bindings := h.bindings
  target := h.target
  description := h.description
  separator := h.separator

end Represents

/-! ## Maps that fit together -/

/-- The two maps fit together. -/
structure Sound (c : Catalog τ) : Prop where
  /-- Every place belongs to a keyword that is stored. -/
  placed : ∀ place ∈ c.places.items, c.entries.contains place.1 = true
  /-- Every keyword is stored under its own identity. -/
  keyed : ∀ item ∈ c.entries.items, item.2.keyword.id = item.1
  /-- No two places have one language and one path, up to case. -/
  paths : ∀ a ∈ c.places.items, ∀ b ∈ c.places.items, sameName a.2.dsl b.2.dsl = true →
    sameName a.2.path b.2.path = true → a = b
  /-- Every keyword without a place is visible. -/
  visible : ∀ item ∈ c.entries.items, c.places.contains item.1 = false → item.2.visible = true

theorem Represents.sound {c : Catalog τ} {r : Registry τ} (h : c.Represents r) (hr : r.Sound) :
    c.Sound where
  placed := by
    rintro ⟨id, own⟩ hplace
    obtain ⟨entry, he, -, rfl⟩ := h.mem_places.1 hplace
    rw [h.contains_entry]
    exact Registry.find?_isSome_of_mem he
  keyed item hitem := by
    rw [h.entries] at hitem
    obtain ⟨entry, -, rfl⟩ := List.mem_map.1 hitem
    rfl
  paths := by
    rintro ⟨id, own⟩ ha ⟨id', own'⟩ hb hdsl hpath
    obtain ⟨entry, he, hown, rfl⟩ := h.mem_places.1 ha
    obtain ⟨entry', he', hown', rfl⟩ := h.mem_places.1 hb
    have hin : entry.isIn own'.dsl = true := Entry.isIn_iff.2 ⟨own, hown, hdsl⟩
    have hin' : entry'.isIn own'.dsl = true := Entry.isIn_iff.2 ⟨own', hown', sameName_refl _⟩
    obtain rfl := (hr.paths own'.dsl).eq_of_path he he' hin hin' (by
      rw [Entry.path, Entry.path, hown, hown']
      exact hpath)
    rw [Option.some.inj (hown.symm.trans hown')]
  visible item hitem hnone := by
    rw [h.entries] at hitem
    obtain ⟨entry, he, rfl⟩ := List.mem_map.1 hitem
    rw [h.contains_place_of_mem he] at hnone
    exact hr.standalone_visible entry he hnone

end Catalog
end KeywordScope
