import KeywordScope.Proofs.Binding.Granted
import KeywordScope.Proofs.Registry.Entries
import KeywordScope.Proofs.Step
import KeywordScope.Registry.Change

/-!
# Runs of steps on the registry

What the steps do that show, hide and bind keywords.

* `BindingTable.Lenient`: a table that refuses no name but the empty one, like `LayeredTable`.
* `bindName`, `bindNames`, `purgeNames`: the table once the names of keywords are bound, or purged.
* `run_hide`, `run_forM_hide`: hiding members never fails.
* `run_reveal`, `run_forM_reveal_granted`: showing keywords does not fail either if the table grants
  their names. A lenient table grants all names (`run_forM_reveal`).
* `hide_cases`, `reveal_cases`, `unregister_cases`: all that these steps can do.
* `run_unregister`, `run_removeDsl`, `run_removeStandalone`: removals.
-/

namespace KeywordScope

/-- No table refuses to bind the name. -/
def BindingTable.Accepts (τ : Type) [BindingTable τ] (name : String) : Prop :=
  ∀ (table : τ) (binding : Binding), (BindingTable.bind table name binding).1 = .ok ()

/-- The table refuses no name but the empty one. -/
class BindingTable.Lenient (τ : Type) [BindingTable τ] : Prop where
  accepts : ∀ name : String, name ≠ "" → BindingTable.Accepts τ name
  publish_ok : ∀ (table : τ) (module name : String),
    (BindingTable.publish table module name).1 = .ok ()

/-- Layers of bindings refuse the empty name, and no other. -/
theorem LayeredTable.accepts_iff {name : String} :
    BindingTable.Accepts LayeredTable name ↔ name ≠ "" := by
  constructor
  · rintro h rfl
    cases h {} { target := "" }
  · intro h table binding
    show (LayeredTable.bind table name binding).1 = .ok ()
    simp [LayeredTable.bind, h]

instance : BindingTable.Lenient LayeredTable where
  accepts _ := LayeredTable.accepts_iff.2
  publish_ok _ _ _ := rfl

theorem BindingTable.Accepts.grants {τ : Type} [BindingTable τ] {name : String}
    (h : Accepts τ name) (table : τ) : Grants table name :=
  fun table' _ binding => h table' binding

/-- The outcome of a step is looked at instead. -/
theorem Step.Meets.attempt {τ α : Type} {P : Registry τ → Prop} {action : Registry.Action τ α}
    {Q : α → Registry τ → Prop} {E E' : KeywordError → Registry τ → Prop} (h : Meets P action Q E)
    {R : Except KeywordError α → Registry τ → Prop} (hok : ∀ a r, Q a r → R (.ok a) r)
    (herror : ∀ e r, E e r → R (.error e) r) : Meets P (Registry.attempt action) R E' := by
  intro r hr
  have h := h r hr
  show R (action.run r).1 (action.run r).2
  rcases hrun : action.run r with ⟨_ | _, _⟩ <;> rw [hrun] at h
  · exact herror _ _ h
  · exact hok _ _ h

namespace Registry

open Step

variable {τ : Type} {r : Registry τ} {id : Keyword.Id} {entry : Entry}

theorem run_changeBindings (change : τ → Except HostError Unit × τ) (r : Registry τ) :
    (changeBindings change).run r =
      (match (change r.bindings).1 with
        | .ok () => .ok ()
        | .error e => .error (.host e),
       r.withBindings (change r.bindings).2) := by
  rw [changeBindings, run_bind, run_get]
  rcases h : change r.bindings with ⟨_ | _, t⟩ <;> simp only [h] <;> rfl

/-- The condition does not depend on the bindings. -/
def BindingFree (I : Registry τ → Prop) : Prop :=
  ∀ r bindings, I r → I (r.withBindings bindings)

theorem bindingFree_withBindings (r : Registry τ) :
    BindingFree fun s => ∃ bindings, s = r.withBindings bindings := by
  rintro _ bindings ⟨_, rfl⟩
  exact ⟨bindings, rfl⟩

section Keeps

variable {I : Registry τ → Prop} (hI : BindingFree I)

include hI

theorem keeps_changeBindings (change : τ → Except HostError Unit × τ) :
    Keeps I (changeBindings change) :=
  Keeps.of_run fun r hr => by
    rw [run_changeBindings]
    exact hI r _ hr

variable [BindingTable τ]

theorem keeps_bindKeyword (keyword : Keyword) : Keeps I (bindKeyword keyword) :=
  Keeps.get.bind fun _ => Keeps.ite (Keeps.pure _) (keeps_changeBindings hI _)

theorem keeps_purgeName (name : String) : Keeps I (purgeName (τ := τ) name) :=
  Keeps.modify fun r hr => hI r _ hr

theorem keeps_rebindStandalones : Keeps I (rebindStandalones (τ := τ)) :=
  Keeps.get.bind fun _ => Keeps.forM (keeps_bindKeyword hI)

theorem keeps_publish (module name : String) : Keeps I (publish (τ := τ) module name) :=
  keeps_changeBindings hI _

theorem keeps_loadVisible (name : String) : Keeps I (loadVisible (τ := τ) name) := by
  refine Keeps.get.bind fun r => ?_
  cases choose name (r.visibleNamed name) with
  | error e => exact Keeps.throw e
  | ok entry => exact (keeps_bindKeyword hI _).bind fun _ => Keeps.pure _

end Keeps

theorem run_attempt {α : Type} (action : Action τ α) (r : Registry τ) :
    (attempt action).run r = (.ok (action.run r).1, (action.run r).2) := rfl

theorem run_getEntry (h : r.find? id = some entry) : (getEntry id).run r = (.ok entry, r) := by
  rw [getEntry, run_bind, run_get]
  simp only [h]
  rfl

theorem run_getEntry_none (h : r.find? id = none) :
    (getEntry id).run r = (.error (.invalidState (.unknownId id)), r) := by
  rw [getEntry, run_bind, run_get]
  simp only [h]
  rfl

theorem run_modifyVisible (id : Keyword.Id) (visible : Bool) (r : Registry τ) :
    (modifyEntry id ({ · with visible })).run r = (.ok (), r.setVisible [id] visible) := by
  rw [modifyEntry, run_modify]
  simp only [setVisible, List.mem_singleton, beq_iff_eq]
  rfl

variable [BindingTable τ]

/-- The table once the name of a keyword is bound to the command, and whether that was refused. -/
def bindName (r : Registry τ) (keyword : Keyword) : Except HostError Unit × τ :=
  if BindingTable.isBoundTo r.bindings keyword.name r.target then (.ok (), r.bindings)
  else BindingTable.bind r.bindings keyword.name
    { target := r.target
      description := r.description
      module? := keyword.module? }

theorem run_bindKeyword (keyword : Keyword) (r : Registry τ) :
    (bindKeyword keyword).run r =
      ((r.bindName keyword).1.mapError .host, r.withBindings (r.bindName keyword).2) := by
  rw [bindKeyword, run_bind, run_get]
  simp only [bindName]
  split
  · rfl
  · rw [run_changeBindings]
    generalize BindingTable.bind r.bindings keyword.name _ = answer
    rcases answer with ⟨_ | _, _⟩ <;> rfl

theorem run_purgeName (name : String) (r : Registry τ) :
    (purgeName name).run r =
      (.ok (), r.withBindings (BindingTable.purge r.bindings name r.target)) := rfl

/-- A keyword whose name is granted can be bound. -/
theorem bindName_granted {keyword : Keyword} (h : BindingTable.Grants r.bindings keyword.name) :
    (r.bindName keyword).1 = .ok () := by
  unfold bindName
  split
  · rfl
  · exact h r.bindings .refl _

theorem later_bindName (r : Registry τ) (keyword : Keyword) :
    BindingTable.Later r.bindings (r.bindName keyword).2 := by
  unfold bindName
  split
  · exact .refl
  · exact BindingTable.Later.refl.bind keyword.name _

/-- A keyword whose name is accepted can be bound. -/
theorem bindName_ok {keyword : Keyword} (h : BindingTable.Accepts τ keyword.name) :
    (r.bindName keyword).1 = .ok () :=
  bindName_granted (h.grants r.bindings)

theorem run_bindKeyword_ok {keyword : Keyword} (h : BindingTable.Accepts τ keyword.name)
    (r : Registry τ) :
    (bindKeyword keyword).run r = (.ok (), r.withBindings (r.bindName keyword).2) := by
  rw [run_bindKeyword, bindName_ok h]
  rfl

theorem run_hide (h : r.find? id = some entry) (hm : entry.isMember = true) :
    (hide id).run r = (.ok (), (r.setVisible [id] false).withBindings
      (BindingTable.purge r.bindings entry.keyword.name r.target)) := by
  rw [hide, run_bind_ok (run_getEntry h)]
  simp only [hm, ↓reduceIte]
  rw [run_bind_ok (run_modifyVisible id false r), run_purgeName]
  rfl

theorem run_reveal (h : r.find? id = some entry) :
    (reveal id).run r = (bindKeyword entry.keyword).run (r.setVisible [id] true) := by
  rw [reveal, run_bind_ok (run_getEntry h), run_bind_ok (run_modifyVisible id true r)]

/-- A keyword is hidden, or nothing changes. -/
theorem hide_cases (r : Registry τ) (id : Keyword.Id) :
    ((hide id).run r).2 = r ∨ ∃ entry ∈ r.entries, entry.id = id ∧ entry.isMember = true ∧
      ((hide id).run r).2 = (r.setVisible [id] false).withBindings
        (BindingTable.purge r.bindings entry.keyword.name r.target) := by
  rcases hf : r.find? id with _ | entry
  · left
    rw [hide, run_bind, run_getEntry_none hf]
  by_cases hm : entry.isMember = true
  · right
    obtain ⟨he, hid⟩ := mem_of_find? hf
    exact ⟨entry, he, hid, hm, by rw [run_hide hf hm]⟩
  · left
    rw [hide, run_bind_ok (run_getEntry hf), if_neg hm]
    rfl

/-- A keyword is shown and bound, or nothing changes. -/
theorem reveal_cases (r : Registry τ) (id : Keyword.Id) :
    ((reveal id).run r).2 = r ∨ ∃ entry ∈ r.entries, entry.id = id ∧
      ((reveal id).run r).2 = ((bindKeyword entry.keyword).run (r.setVisible [id] true)).2 := by
  rcases hf : r.find? id with _ | entry
  · left
    rw [reveal, run_bind, run_getEntry_none hf]
  · right
    obtain ⟨he, hid⟩ := mem_of_find? hf
    exact ⟨entry, he, hid, by rw [run_reveal hf]⟩

/-! ## Several keywords -/

/-- The table once the names of keywords are purged, one after the other. -/
def purgeNames (r : Registry τ) (keywords : List Keyword) : τ :=
  keywords.foldl (fun table keyword => BindingTable.purge table keyword.name r.target) r.bindings

/-- The table once the names of keywords are bound, one after the other. -/
def bindNames (r : Registry τ) (keywords : List Keyword) : τ :=
  keywords.foldl (fun table keyword => ((r.withBindings table).bindName keyword).2) r.bindings

theorem later_purgeNames (r : Registry τ) (keywords : List Keyword) :
    BindingTable.Later r.bindings (r.purgeNames keywords) := by
  induction keywords generalizing r with
  | nil => exact .refl
  | cons keyword keywords ih =>
    have hfirst := BindingTable.Later.purge r.bindings keyword.name r.target
    exact hfirst.trans (ih (r.withBindings (BindingTable.purge r.bindings keyword.name r.target)))

theorem run_forM_hide (ids : List Keyword.Id) (h : ∀ id ∈ ids, r.isMember id = true) :
    (ids.forM hide).run r = (.ok (), (r.setVisible ids false).withBindings
      (r.purgeNames (ids.filterMap r.keyword?))) := by
  induction ids generalizing r with
  | nil => rw [setVisible_nil]; rfl
  | cons id ids ih =>
    obtain ⟨entry, hf, hm⟩ := isMember_iff.1 (h id List.mem_cons_self)
    have hr := run_hide hf hm
    generalize hpurged : (r.setVisible [id] false).withBindings
      (BindingTable.purge r.bindings entry.keyword.name r.target) = purged at hr
    have ho : purged.outline = r.outline := hpurged ▸ outline_setVisible r [id] false
    have hr' := ih (r := purged) fun id' h' => by
      rw [isMember_congr ho]
      exact h id' (List.mem_cons_of_mem _ h')
    show (hide id >>= fun _ => ids.forM hide).run r = _
    rw [run_bind_ok hr, hr', keyword?_congr ho, List.filterMap_cons, keyword?, hf, ← hpurged,
      setVisible_withBindings, ← setVisible_cons, withBindings_withBindings]
    rfl

/-- Keywords whose names are granted can be shown one after the other. -/
theorem run_forM_reveal_granted (ids : List Keyword.Id)
    (h : ∀ id ∈ ids, ∃ entry, r.find? id = some entry ∧
      BindingTable.Grants r.bindings entry.keyword.name) :
    (ids.forM reveal).run r = (.ok (), (r.setVisible ids true).withBindings
      (r.bindNames (ids.filterMap r.keyword?))) := by
  induction ids generalizing r with
  | nil => rw [setVisible_nil]; rfl
  | cons id ids ih =>
    obtain ⟨entry, hf, hgrants⟩ := h id List.mem_cons_self
    have hr : (reveal id).run r = (.ok (), (r.setVisible [id] true).withBindings
        (r.bindName entry.keyword).2) := by
      rw [run_reveal hf, run_bindKeyword]
      have hok : ((r.setVisible [id] true).bindName entry.keyword).1 = .ok () :=
        bindName_granted hgrants
      rw [hok]
      rfl
    have hlater := r.later_bindName entry.keyword
    generalize hbound : (r.setVisible [id] true).withBindings
      (r.bindName entry.keyword).2 = bound at hr
    have ho : bound.outline = r.outline := hbound ▸ outline_setVisible r [id] true
    have hr' := ih (r := bound) fun id' h' => by
      obtain ⟨entry', hf', hgrants'⟩ := h id' (List.mem_cons_of_mem _ h')
      obtain ⟨found, hf'', he⟩ := find?_of_outline ho.symm hf'
      refine ⟨found, hf'', ?_⟩
      rw [he, ← hbound]
      exact hgrants'.later hlater
    show (reveal id >>= fun _ => ids.forM reveal).run r = _
    rw [run_bind_ok hr, hr', keyword?_congr ho, List.filterMap_cons, keyword?, hf, ← hbound,
      setVisible_withBindings, ← setVisible_cons, withBindings_withBindings]
    rfl

theorem run_forM_reveal [BindingTable.Lenient τ] (ids : List Keyword.Id)
    (h : ∀ id ∈ ids, ∃ entry, r.find? id = some entry ∧ entry.keyword.name ≠ "") :
    (ids.forM reveal).run r = (.ok (), (r.setVisible ids true).withBindings
      (r.bindNames (ids.filterMap r.keyword?))) :=
  run_forM_reveal_granted ids fun id hid => by
    obtain ⟨entry, hf, hn⟩ := h id hid
    exact ⟨entry, hf, (BindingTable.Lenient.accepts _ hn).grants r.bindings⟩

/-- Keywords whose names are accepted can be bound one after the other. -/
theorem run_forM_bindKeyword (keywords : List Keyword)
    (h : ∀ keyword ∈ keywords, BindingTable.Accepts τ keyword.name) (r : Registry τ) :
    (keywords.forM bindKeyword).run r = (.ok (), r.withBindings (r.bindNames keywords)) := by
  induction keywords generalizing r with
  | nil => rfl
  | cons keyword keywords ih =>
    have hr := run_bindKeyword_ok (h keyword List.mem_cons_self) r
    have hr' := ih (fun other ho => h other (List.mem_cons_of_mem _ ho))
      (r.withBindings (r.bindName keyword).2)
    show (bindKeyword keyword >>= fun _ => keywords.forM bindKeyword).run r = _
    rw [run_bind_ok hr, hr', withBindings_withBindings]
    rfl

/-- The standalone keywords whose names are not bound at all. -/
def unbound (r : Registry τ) : List Keyword :=
  r.standalones.filter fun keyword => (BindingTable.lookup r.bindings keyword.name).isNone

theorem run_rebindStandalones
    (h : ∀ keyword ∈ r.standalones, BindingTable.Accepts τ keyword.name) :
    rebindStandalones.run r = (.ok (), r.withBindings (r.bindNames r.unbound)) := by
  rw [rebindStandalones, run_bind_ok (run_get r)]
  exact run_forM_bindKeyword _ (fun keyword hk => h keyword (List.mem_filter.1 hk).1) r

/-! ## Finding and removing keywords -/

theorem mem_of_choose {name : String} {visible : List Entry} {entry : Entry}
    (h : choose name visible = .ok entry) : entry ∈ visible := by
  unfold choose at h
  split at h
  · cases h
  · cases h
    exact List.mem_singleton_self _
  · split at h
    · next hmembers =>
      cases h
      exact (List.mem_filter.1 (hmembers ▸ List.mem_singleton_self _)).1
    · cases h
    · cases h

theorem run_unregister (h : r.find? id = some entry) :
    (unregister id).run r = (.ok entry.keyword, (r.without (·.id == id)).withBindings
      (BindingTable.purge r.bindings entry.keyword.name r.target)) := by
  rw [unregister, run_bind_ok (run_getEntry h), run_bind_ok (run_modify _ r)]
  rfl

/-- A keyword is removed, or there is none of the identity and nothing changes. -/
theorem unregister_cases (r : Registry τ) (id : Keyword.Id) :
    ((∀ entry ∈ r.entries, (entry.id == id) = false) ∧ ((unregister id).run r).2 = r) ∨
      ∃ entry ∈ r.entries, entry.id = id ∧
        ((unregister id).run r).2 = (r.without (·.id == id)).withBindings
          (BindingTable.purge r.bindings entry.keyword.name r.target) := by
  rcases hf : r.find? id with _ | entry
  · left
    refine ⟨fun entry he => by simpa using List.find?_eq_none.1 hf entry he, ?_⟩
    rw [unregister, run_bind, run_getEntry_none hf]
  · right
    obtain ⟨he, hid⟩ := mem_of_find? hf
    exact ⟨entry, he, hid, by rw [run_unregister hf]⟩

theorem entries_unregister (r : Registry τ) (id : Keyword.Id) :
    ((unregister id).run r).2.entries = (r.without (·.id == id)).entries := by
  rcases r.unregister_cases id with ⟨hnone, hrun⟩ | ⟨entry, -, -, hrun⟩
  · rw [hrun, without_of_forall hnone]
  · rw [hrun]
    rfl

theorem run_forM_unregister (keywords : List Keyword) (hd : r.Distinct)
    (hm : ∀ keyword ∈ keywords, ∃ entry ∈ r.entries, entry.keyword = keyword)
    (hn : (keywords.map Keyword.id).Nodup) :
    (keywords.forM fun keyword => discard (unregister keyword.id)).run r =
      (.ok (), (r.without fun entry => (keywords.map Keyword.id).contains entry.id).withBindings
        (r.purgeNames keywords)) := by
  induction keywords generalizing r with
  | nil =>
    have e : (r.without fun entry => (List.map Keyword.id []).contains entry.id) = r :=
      without_of_forall fun _ _ => rfl
    rw [e]
    rfl
  | cons keyword keywords ih =>
    obtain ⟨hfirst, hn'⟩ := List.nodup_cons.1 hn
    obtain ⟨entry, he, rfl⟩ := hm keyword List.mem_cons_self
    have hr := run_unregister (hd.find?_eq he)
    have hr' := ih (r := (r.without (·.id == entry.id)).withBindings
      (BindingTable.purge r.bindings entry.keyword.name r.target)) (hd.without _)
      (fun other ho => by
        obtain ⟨found, hf, rfl⟩ := hm other (List.mem_cons_of_mem _ ho)
        refine ⟨found, mem_without.2 ⟨hf, beq_false_of_ne fun same => hfirst ?_⟩, rfl⟩
        exact List.mem_map.2 ⟨found.keyword, ho, same⟩) hn'
    show (discard (unregister entry.id) >>= fun _ => keywords.forM _).run r = _
    rw [run_bind_ok (run_discard_ok hr), hr', without_withBindings, without_without,
      withBindings_withBindings]
    rfl

theorem run_removeDsl_members (hd : r.Distinct) (dsl : String) :
    ((r.members dsl).forM fun keyword => discard (unregister keyword.id)).run r =
      (.ok (), (r.without (·.isIn dsl)).withBindings (r.purgeNames (r.members dsl))) := by
  have hsub : ((r.members dsl).map Keyword.id).Sublist (r.entries.map Entry.id) := by
    rw [members, keywordsWhere, List.map_map]
    exact List.filter_sublist.map _
  have hr := run_forM_unregister (r.members dsl) hd
    (fun keyword hk => by
      obtain ⟨entry, he, rfl⟩ := List.mem_map.1 hk
      exact ⟨entry, (List.mem_filter.1 he).1, rfl⟩) (hd.sublist hsub)
  rw [hr, without_congr fun entry he => hd.contains_members dsl he]

/-- What holds once the names of a language are purged holds after its removal, whether that
succeeds or not, if standalone keywords may be bound again. -/
theorem run_removeDsl_of_purged {I : Registry τ → Prop} (hd : r.Distinct) (dsl : String)
    (hpurged : I ((r.without (·.isIn dsl)).withBindings (r.purgeNames (r.members dsl))))
    (hrebind : Keeps I rebindStandalones) : I ((removeDsl dsl).run r).2 := by
  have hrest : Keeps I (do
      unless (r.members dsl).isEmpty do rebindStandalones
      return (r.members dsl).length : Action τ Nat) :=
    Keeps.ite (Keeps.pure _) (hrebind.bind fun _ => Keeps.pure _)
  rw [removeDsl, run_bind_ok (run_get r), run_bind_ok (run_removeDsl_members hd dsl)]
  exact hrest.run hpurged

/-- Whether the removal of a language succeeds depends on the bindings of standalone keywords, but
not what it removes. -/
theorem run_removeDsl (hd : r.Distinct) (dsl : String) :
    ∃ t, ((removeDsl dsl).run r).2 = (r.without (·.isIn dsl)).withBindings t :=
  run_removeDsl_of_purged hd dsl ⟨_, rfl⟩ (keeps_rebindStandalones (bindingFree_withBindings _))

/-- The first standalone keyword of a name is removed, if there is one. -/
theorem run_removeStandalone (hd : r.Distinct) (name : String) :
    (r.standalone? name = none ∧ (removeStandalone name).run r = (.ok false, r)) ∨
      ∃ entry ∈ r.entries, r.standalone? name = some entry.keyword ∧
        (removeStandalone name).run r = (.ok true, ((unregister entry.id).run r).2) := by
  rw [removeStandalone, run_bind_ok (run_get r)]
  cases hfound : r.standalone? name with
  | none => exact .inl ⟨rfl, rfl⟩
  | some keyword =>
    obtain ⟨entry, he, rfl⟩ := List.mem_map.1 (List.mem_of_find?_eq_some hfound)
    have he := (List.mem_filter.1 he).1
    refine .inr ⟨entry, he, rfl, ?_⟩
    have hrun := run_unregister (hd.find?_eq he)
    simp only
    rw [show entry.keyword.id = entry.id from rfl, run_bind_ok (run_discard_ok hrun), run_pure,
      hrun]

/-- The table once a language is removed. -/
def removedTable (r : Registry τ) (dsl : String) : τ :=
  let purged := (r.without (·.isIn dsl)).withBindings (r.purgeNames (r.members dsl))
  if (r.members dsl).isEmpty then purged.bindings else purged.bindNames purged.unbound

/-- The removal succeeds if the names of standalone keywords are accepted. -/
theorem run_removeDsl_ok (hd : r.Distinct) (dsl : String)
    (h : ∀ keyword ∈ r.standalones, BindingTable.Accepts τ keyword.name) :
    (removeDsl dsl).run r = (.ok (r.members dsl).length,
      (r.without (·.isIn dsl)).withBindings (r.removedTable dsl)) := by
  rw [removeDsl, run_bind_ok (run_get r), run_bind_ok (run_removeDsl_members hd dsl), removedTable]
  generalize r.purgeNames (r.members dsl) = t
  split
  · rfl
  · have hstandalones : ∀ keyword ∈ ((r.without (·.isIn dsl)).withBindings t).standalones,
        BindingTable.Accepts τ keyword.name :=
      fun keyword hk => h keyword (r.standalones_without_dsl dsl ▸ hk)
    rw [run_bind_ok (run_rebindStandalones hstandalones)]
    rfl

end Registry

end KeywordScope
