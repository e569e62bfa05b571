import KeywordScope.Proofs.Registry.Durable

/-!
# Sound registries

Whatever is done with a registry, over any table, and however it ends: identities and paths stay
distinct, and standalone keywords stay visible.

* `PathsDistinct`: no two members of a language have one path.
* `Sound`: what holds of every registry.
* `EditStep.sound`: every operation keeps it, also if it fails on the way.
* `Edited`: the registries that come about by operations. What is durable holds of them
  (`Edited.keeps`), so they are all sound (`Edited.sound`).
-/

namespace KeywordScope
namespace Registry

open Step

variable {τ : Type} {r : Registry τ}

/-! ## Distinct paths -/

/-- No two members of the language have one path, up to case. -/
def PathsDistinct (dsl : String) (entries : List Entry) : Prop :=
  ((entries.filter (·.isIn dsl)).map (foldCase ·.path)).Nodup

theorem PathsDistinct.sublist {dsl : String} {entries entries' : List Entry}
    (h : PathsDistinct dsl entries) (hs : entries'.Sublist entries) : PathsDistinct dsl entries' :=
  List.Nodup.sublist ((hs.filter _).map _) h

/-- The path of a new member is free. -/
theorem PathsDistinct.entryAt?_eq_none {dsl : String} {entry : Entry}
    (h : PathsDistinct dsl (r.entries ++ [entry])) (hin : entry.isIn dsl = true) :
    r.entryAt? dsl entry.path = none := by
  rw [entryAt?, List.find?_eq_none]
  intro other ho same
  obtain ⟨hin', same⟩ := Bool.and_eq_true_iff.1 same
  rw [PathsDistinct, List.filter_append, List.map_append, List.nodup_append] at h
  refine h.2.2 _ (List.mem_map_of_mem (List.mem_filter.2 ⟨ho, hin'⟩)) _
    (List.mem_map_of_mem (List.mem_filter.2 ⟨List.mem_cons_self, hin⟩)) ?_
  exact sameName_iff.1 same

/-- Two members of a language with one path are the same. -/
theorem PathsDistinct.eq_of_path {dsl : String} {entries : List Entry}
    (h : PathsDistinct dsl entries) {a b : Entry} (ha : a ∈ entries) (hb : b ∈ entries)
    (hina : a.isIn dsl = true) (hinb : b.isIn dsl = true)
    (same : sameName a.path b.path = true) : a = b :=
  List.inj_on_of_nodup_map h (List.mem_filter.2 ⟨ha, hina⟩) (List.mem_filter.2 ⟨hb, hinb⟩)
    (sameName_iff.1 same)

/-- A member may be added at a free path. -/
theorem PathsDistinct.concat {dsl : String} {entry : Entry} (h : PathsDistinct dsl r.entries)
    (hfree : entry.isIn dsl = true → r.entryAt? dsl entry.path = none) :
    PathsDistinct dsl (r.entries ++ [entry]) := by
  rw [PathsDistinct, List.filter_append, List.map_append]
  refine List.nodup_append.2 ⟨h, ?_, ?_⟩
  · exact (List.nodup_singleton (foldCase entry.path)).sublist (List.filter_sublist.map _)
  · intro path hpath path' hpath' same
    obtain ⟨other, ho, rfl⟩ := List.mem_map.1 hpath
    obtain ⟨added, hadded, rfl⟩ := List.mem_map.1 hpath'
    obtain ⟨ho, hin'⟩ := List.mem_filter.1 ho
    obtain ⟨hadded, hin⟩ := List.mem_filter.1 hadded
    obtain rfl := List.mem_singleton.1 hadded
    have hnone := List.find?_eq_none.1 (hfree hin) other ho
    exact hnone (Bool.and_eq_true_iff.2 ⟨hin', sameName_iff.2 same⟩)

/-- Paths do not depend on which keywords are visible and on hooks. -/
theorem PathsDistinct.congr {dsl : String} {entries entries' : List Entry}
    (hb : entries.map Entry.bare = entries'.map Entry.bare) (h : PathsDistinct dsl entries) :
    PathsDistinct dsl entries' := by
  have e : ∀ es : List Entry, (es.filter (·.isIn dsl)).map (foldCase ·.path) =
      ((es.map Entry.bare).filter (·.isIn dsl)).map (foldCase ·.path) := by
    intro es
    rw [List.filter_map, List.map_map]
    rfl
  rw [PathsDistinct, e, ← hb, ← e]
  exact h

/-! ## Sound registries -/

/-- Identities are distinct, and so are the paths of each language; standalone keywords are
visible. -/
structure Sound (r : Registry τ) : Prop where
  distinct : r.Distinct
  standalone_visible : ∀ entry ∈ r.entries, entry.isMember = false → entry.visible = true
  paths : ∀ dsl, PathsDistinct dsl r.entries

namespace Sound

theorem ofConfig (config : Config) (bindings : τ) : Sound (.ofConfig config bindings) where
  distinct := List.nodup_nil
  standalone_visible _ he := absurd he List.not_mem_nil
  paths _ := List.nodup_nil

/-- Nothing but the entries counts. -/
theorem of_entries {r' : Registry τ} (hr : r.Sound) (h : r.entries = r'.entries) : r'.Sound where
  distinct := by
    rw [Distinct, ← h]
    exact hr.distinct
  standalone_visible entry he := hr.standalone_visible entry (h ▸ he)
  paths dsl := h ▸ hr.paths dsl

theorem bindingFree : BindingFree (τ := τ) Sound :=
  fun _ _ hr => hr.of_entries rfl

theorem without (hr : r.Sound) (p : Entry → Bool) : (r.without p).Sound where
  distinct := hr.distinct.without p
  standalone_visible entry he := hr.standalone_visible entry (mem_without.1 he).1
  paths dsl := (hr.paths dsl).sublist List.filter_sublist

theorem concat (hr : r.Sound) {entry : Entry} (hfresh : r.find? entry.id = none)
    (hv : entry.isMember = false → entry.visible = true)
    (hfree : ∀ dsl, entry.isIn dsl = true → r.entryAt? dsl entry.path = none) :
    (r.concat entry).Sound where
  distinct := hr.distinct.concat hfresh
  standalone_visible other ho hm := by
    rcases mem_concat.1 ho with ho | rfl
    · exact hr.standalone_visible other ho hm
    · exact hv hm
  paths dsl := (hr.paths dsl).concat (hfree dsl)

/-- Entries may change their visibility and their hooks if standalone keywords stay visible. -/
theorem map (hr : r.Sound) {change : Entry → Entry}
    (hb : ∀ entry ∈ r.entries, (change entry).bare = entry.bare)
    (hv : ∀ entry ∈ r.entries, entry.isMember = false → entry.visible = true →
      (change entry).visible = true) :
    Sound { r with entries := r.entries.map change } := by
  have ho : r.outline = outline { r with entries := r.entries.map change } := by
    rw [outline, outline, List.map_map]
    exact List.map_congr_left fun entry he => (hb entry he).symm
  refine ⟨hr.distinct.congr ho, ?_, fun dsl => (hr.paths dsl).congr ho⟩
  intro other hmem hm
  obtain ⟨entry, he, rfl⟩ := List.mem_map.1 hmem
  have hm' : entry.isMember = false := (Entry.isMember_congr (hb entry he)) ▸ hm
  exact hv entry he hm' (hr.standalone_visible entry he hm')

/-! ### Steps on one keyword -/

theorem keeps_modifyEntry (id : Keyword.Id) {change : Entry → Entry}
    (hb : ∀ entry, (change entry).bare = entry.bare)
    (hv : ∀ entry, entry.visible = true → (change entry).visible = true) :
    Keeps (Sound (τ := τ)) (modifyEntry id change) := by
  refine Keeps.modify fun r hr => hr.map (fun entry _ => ?_) fun entry _ _ h => ?_
  · split
    · exact hb entry
    · rfl
  · split
    · exact hv entry h
    · exact h

theorem keeps_setHook (dsl path : String) {change : Entry → Entry}
    (hb : ∀ entry, (change entry).bare = entry.bare)
    (hv : ∀ entry, entry.visible = true → (change entry).visible = true) :
    Keeps (Sound (τ := τ)) (setHook dsl path change) := by
  refine Keeps.get.bind fun r => ?_
  cases r.entryAt? dsl path with
  | none => exact Keeps.pure _
  | some entry => exact (keeps_modifyEntry entry.id hb hv).bind fun _ => Keeps.pure _

theorem keeps_subscribe (dsl path : String) (event : Event) (handler : ScriptBlock) :
    Keeps (Sound (τ := τ)) (Session.subscribe dsl path event handler) := by
  cases event
  · exact keeps_setHook dsl path (fun _ => rfl) fun _ h => h
  · exact keeps_setHook dsl path (fun _ => rfl) fun _ h => h

variable [BindingTable τ]

theorem keeps_registerStandalone (keyword : Keyword) :
    Keeps (Sound (τ := τ)) (registerStandalone keyword) :=
  keeps_registerStandalone_of bindingFree keyword fun _ hr hfresh =>
    hr.concat hfresh (fun _ => rfl) fun _ hin => by cases hin

theorem keeps_registerMember (dsl : String) (keyword : Keyword) (parent? : Option Keyword.Id)
    (path : String) : Keeps (Sound (τ := τ)) (registerMember dsl keyword parent? path) := by
  refine Meets.conseq (meets_registerMember bindingFree dsl keyword parent? path) (fun _ h => h) ?_
    fun _ _ h => h
  rintro _ _ ⟨r, hr, hfresh, -, hfree, rfl⟩
  refine hr.concat hfresh (fun hm => by cases hm) fun dsl' hin => ?_
  have same : sameName dsl dsl' = true := hin
  rw [← hfree]
  -- A path is taken in a language if it is taken in the same one by another spelling.
  refine congrArg (r.entries.find? ·) (funext fun other => ?_)
  have hsame : other.isIn dsl' = other.isIn dsl := by
    rw [Bool.eq_iff_iff]
    exact ⟨fun h => (Entry.isIn_iff_sameName h).2 (by rwa [sameName_comm]),
      fun h => (Entry.isIn_iff_sameName h).2 same⟩
  rw [hsame]
  rfl

theorem keeps_unregister (id : Keyword.Id) : Keeps (Sound (τ := τ)) (unregister id) :=
  Keeps.of_run fun r hr => by
    rcases r.unregister_cases id with ⟨-, hrun⟩ | ⟨entry, -, -, hrun⟩
    · rwa [hrun]
    · rw [hrun]
      exact bindingFree _ _ (hr.without _)

theorem keeps_reveal (id : Keyword.Id) : Keeps (Sound (τ := τ)) (reveal id) := by
  have hshow : Keeps (Sound (τ := τ)) (modifyEntry id ({ · with visible := true })) :=
    keeps_modifyEntry id (fun _ => rfl) fun _ _ => rfl
  exact (keeps_getEntry id).bind fun _ => hshow.bind fun _ => keeps_bindKeyword bindingFree _

/-- Standalone keywords cannot be hidden. -/
theorem keeps_hide (id : Keyword.Id) : Keeps (Sound (τ := τ)) (hide id) :=
  Keeps.of_run fun r hr => by
    rcases r.hide_cases id with hrun | ⟨entry, he, rfl, hm, hrun⟩
    · rwa [hrun]
    rw [hrun]
    refine bindingFree _ _ (hr.map (fun other _ => ?_) fun other ho hstand hv => ?_)
    · split <;> rfl
    · split
      · next hid =>
        rw [hr.distinct.eq_of_id ho he (List.mem_singleton.1 hid), hm] at hstand
        cases hstand
      · exact hv

theorem steady : Steady (τ := τ) Sound where
  nextId _ hr := hr.of_entries rfl
  register dsl keyword parent? path :=
    Meets.conseq (keeps_registerMember dsl keyword parent? path) (fun _ h => h.1) (fun _ _ h => h)
      fun _ _ h => h
  publish := keeps_publish bindingFree
  unregister := keeps_unregister
  rebind := keeps_rebindStandalones bindingFree
  reveal := keeps_reveal
  hide := keeps_hide

end Sound

/-! ## All operations -/

variable [BindingTable τ]

theorem Sound.durable : Durable (τ := τ) Sound where
  toSteady := Sound.steady
  scope _ _ hr := hr.of_entries rfl
  registerStandalone := Sound.keeps_registerStandalone
  registerMember := Sound.keeps_registerMember
  loadVisible := keeps_loadVisible Sound.bindingFree
  subscribe := Sound.keeps_subscribe

theorem EditStep.sound {r' : Registry τ} (h : EditStep r r') (hr : r.Sound) : r'.Sound :=
  h.keeps Sound.durable hr

/-- The registry came about by operations over any table, which the host may change at any
time. -/
inductive Edited : Registry τ → Prop where
  | empty (config : Config) (bindings : τ) : Edited (.ofConfig config bindings)
  | edit {r r' : Registry τ} (h : Edited r) (hstep : EditStep r r') : Edited r'
  | rebind {r : Registry τ} (h : Edited r) (bindings : τ) : Edited (r.withBindings bindings)

/-- What is durable, and does not depend on the bindings, holds of every registry. -/
theorem Edited.keeps {I : Registry τ → Prop} (hI : Durable I) (hfree : BindingFree I)
    (hempty : ∀ config bindings, I (.ofConfig config bindings)) (h : r.Edited) : I r := by
  induction h with
  | empty config bindings => exact hempty config bindings
  | edit _ hstep ih => exact hstep.keeps hI ih
  | rebind _ bindings ih => exact hfree _ bindings ih

theorem Edited.sound (h : r.Edited) : r.Sound :=
  h.keeps Sound.durable Sound.bindingFree Sound.ofConfig

theorem Edited.loopless (h : r.Edited) : r.Loopless :=
  h.keeps durable_loopless (fun _ _ hr => hr) fun _ _ _ he => absurd he List.not_mem_nil

end Registry

namespace Edit

variable {τ : Type}

/-- Of several operations, the last one goes on from where the others end. -/
theorem runAll_concat {σ : Type} (perform : Edit τ → ExceptT KeywordError (StateM σ) Answer)
    (edits : List (Edit τ)) (edit : Edit τ) (s : σ) :
    (runAll perform (edits ++ [edit]) s).2 =
      ((perform edit).run (runAll perform edits s).2).2 := by
  induction edits generalizing s with
  | nil => rfl
  | cons first rest ih => exact ih _

variable [BindingTable τ]

theorem edited_map {α β : Type} {r : Registry τ} {action : Registry.Action τ α} {f : α → β}
    (h : r.Edited) (hstep : Registry.EditStep r (action.run r).2) :
    ((f <$> action).run r).2.Edited := by
  rw [Step.run_map]
  exact h.edit hstep

theorem edited {r : Registry τ} (h : r.Edited) (edit : Edit τ) :
    ((edit.perform.run r).2).Edited := by
  cases edit with
  | allocate => exact h.edit (.allocate r)
  | registerStandalone keyword => exact edited_map h (.registerStandalone r keyword)
  | registerMember dsl keyword parent? path =>
    exact edited_map h (.registerMember r dsl keyword parent? path)
  | unregister id => exact edited_map h (.unregister r id)
  | removeDsl dsl => exact edited_map h (.removeDsl r dsl)
  | removeStandalone name => exact edited_map h (.removeStandalone r name)
  | reveal id => exact edited_map h (.reveal r id)
  | hide id => exact edited_map h (.hide r id)
  | enterScope id => exact edited_map h (.enterScope r id)
  | leaveScope => exact edited_map h (.leaveScope r)
  | loadVisible name => exact edited_map h (.loadVisible r name)
  | subscribe dsl path event handler =>
    exact edited_map h (.subscribe r dsl path event handler)
  | publish module name => exact edited_map h (.publish r module name)
  | rebind bindings => exact h.rebind bindings

/-- Several operations keep what each of them keeps. -/
theorem runAll_edited (edits : List (Edit τ)) {r : Registry τ} (h : r.Edited) :
    (runAll perform edits r).2.Edited := by
  induction edits generalizing r with
  | nil => exact h
  | cons edit edits ih => exact ih (edited h edit)

end Edit
end KeywordScope
