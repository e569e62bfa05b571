import KeywordScope.Proofs.Binding.Unsteady
import KeywordScope.Proofs.Registry.Durable
import Mathlib.Data.List.TakeWhile

/-!
# Tidy tables

A registry over a table of its own binds the names of visible keywords only, whatever is done with
it, and whatever the table refuses on the way.

* `Tidy`: all bindings lead to the command, and each is for the name of a visible keyword.
* `Tidy.purge`, `Tidy.bind`: what a purge of a name and a new binding leave tidy.
* `EditStep.tidy`: every operation leaves the table tidy, also if it fails on the way.
* `visible_of_bound`: what is bound is visible.
-/

namespace KeywordScope
namespace Registry

open BindingTable (Stacked)
open BindingTable.Stacked (held)
open Step

variable {τ : Type} {r : Registry τ}

/-- A visible keyword has the name. -/
def Shows (r : Registry τ) (name : String) : Prop :=
  ∃ entry ∈ r.entries, entry.visible = true ∧ entry.keyword.isNamed name = true

theorem Shows.congr {name other : String} (h : r.Shows name) (same : sameName name other = true) :
    r.Shows other := by
  obtain ⟨entry, he, hv, hn⟩ := h
  exact ⟨entry, he, hv, sameName_trans hn same⟩

variable [BindingTable τ]

/-- The name is bound to the command. -/
def Binds (r : Registry τ) (name : String) : Prop :=
  BindingTable.isBoundTo r.bindings name r.target = true

instance (r : Registry τ) (name : String) : Decidable (r.Binds name) :=
  inferInstanceAs (Decidable (_ = true))

variable [Stacked τ]

/-! ## Binding a name -/

/-- A name is bound in place of what is on top of its stack, or nothing changes. -/
theorem held_bindName (r : Registry τ) (keyword : Keyword) (other : String) :
    held (r.bindName keyword).2 other = held r.bindings other ∨
      ((r.bindName keyword).1 = .ok () ∧ sameName keyword.name other = true ∧
        keyword.name ≠ "" ∧ ∃ binding, binding.pointsTo r.target = true ∧
          held (r.bindName keyword).2 other = binding :: (held r.bindings other).tail) := by
  unfold bindName
  split
  · exact .inl rfl
  let binding : Binding :=
    { target := r.target, description := r.description, module? := keyword.module? }
  by_cases hok : (BindingTable.bind r.bindings keyword.name binding).1 = .ok ()
  · have hheld := Stacked.held_bind r.bindings keyword.name binding hok other
    by_cases same : sameName keyword.name other = true
    · rw [if_pos same, Stacked.held_congr _ same] at hheld
      refine .inr ⟨hok, same, ?_, binding, sameName_refl r.target, hheld⟩
      intro hempty
      rw [hempty] at hok
      exact Stacked.bind_empty r.bindings binding hok
    · rw [if_neg same] at hheld
      exact .inl hheld
  · exact .inl (Stacked.held_bind_refused r.bindings keyword.name binding hok other)

/-- A name that is bound without a failure leads to the command. -/
theorem isBoundTo_bindName {keyword : Keyword} (h : (r.bindName keyword).1 = .ok ()) :
    BindingTable.isBoundTo (r.bindName keyword).2 keyword.name r.target = true := by
  unfold bindName at *
  split
  · assumption
  · next hunbound =>
    rw [if_neg hunbound] at h
    rw [Stacked.isBoundTo_eq, Stacked.held_bind _ _ _ h, if_pos (sameName_refl keyword.name)]
    exact sameName_refl r.target

/-! ## Tidy registries -/

/-- The names of visible keywords alone are bound, and only to the command. Standalone keywords
are visible, and have names. -/
structure Tidy (r : Registry τ) : Prop where
  distinct : r.Distinct
  standalone_visible : ∀ entry ∈ r.entries, entry.isMember = false → entry.visible = true
  standalone_named : ∀ entry ∈ r.entries, entry.isMember = false → entry.keyword.name ≠ ""
  held_target : ∀ name, ∀ binding ∈ held r.bindings name, binding.pointsTo r.target = true
  held_shown : ∀ name, held r.bindings name ≠ [] → name ≠ "" ∧ r.Shows name

namespace Tidy

theorem binds_iff (hr : r.Tidy) (name : String) : r.Binds name ↔ held r.bindings name ≠ [] := by
  rw [Binds, Stacked.isBoundTo_eq]
  cases hheld : held r.bindings name with
  | nil => simp
  | cons binding rest =>
    have htarget := hr.held_target name binding (hheld ▸ List.mem_cons_self)
    simp [htarget]

/-- The registry over another table, in which nothing but names of visible keywords is new. -/
theorem withBindings (hr : r.Tidy) {bindings : τ}
    (htarget : ∀ name, ∀ binding ∈ held bindings name, binding.pointsTo r.target = true)
    (hshown : ∀ name, held bindings name ≠ [] →
      held r.bindings name ≠ [] ∨ name ≠ "" ∧ r.Shows name) : (r.withBindings bindings).Tidy where
  distinct := hr.distinct
  standalone_visible := hr.standalone_visible
  standalone_named := hr.standalone_named
  held_target := htarget
  held_shown name h := (hshown name h).elim (hr.held_shown name) id

/-- Scopes have nothing to do with the table. -/
theorem withScope (hr : r.Tidy) {scope : List Keyword.Id} : Tidy { r with scope } :=
  ⟨hr.distinct, hr.standalone_visible, hr.standalone_named, hr.held_target, hr.held_shown⟩

/-- The name of a visible keyword may be bound. -/
theorem bind (hr : r.Tidy) {keyword : Keyword} (h : r.Shows keyword.name) :
    (r.withBindings (r.bindName keyword).2).Tidy := by
  refine hr.withBindings ?_ ?_
  · intro name binding hb
    rcases r.held_bindName keyword name with heq | ⟨-, -, -, top, htop, heq⟩
    · exact hr.held_target name binding (heq ▸ hb)
    · rw [heq] at hb
      rcases List.mem_cons.1 hb with rfl | hb
      · exact htop
      · exact hr.held_target name binding (List.mem_of_mem_tail hb)
  · intro name hne
    rcases r.held_bindName keyword name with heq | ⟨-, same, hname, -⟩
    · exact .inl (heq ▸ hne)
    · refine .inr ⟨?_, h.congr same⟩
      rintro rfl
      exact hname (sameName_empty same)

/-- A name may be purged if the visible keywords of other names stay. -/
theorem purge (hr : r.Tidy) (name : String) {entries : List Entry}
    (hdistinct : (entries.map Entry.id).Nodup)
    (hstand : ∀ entry ∈ entries, entry.isMember = false → entry ∈ r.entries)
    (hstay : ∀ entry ∈ r.entries, entry.visible = true → entry.keyword.isNamed name = false →
      entry ∈ entries) :
    Tidy { r with entries, bindings := BindingTable.purge r.bindings name r.target } := by
  have hheld : ∀ other, held (BindingTable.purge r.bindings name r.target) other =
      if sameName name other then [] else held r.bindings other := by
    intro other
    rw [Stacked.held_purge]
    split
    · exact List.dropWhile_eq_nil_iff.2 (hr.held_target name)
    · rfl
  refine ⟨hdistinct, fun entry he hm => hr.standalone_visible entry (hstand entry he hm) hm,
    fun entry he hm => hr.standalone_named entry (hstand entry he hm) hm, ?_, ?_⟩
  · intro other binding hb
    rw [hheld] at hb
    split at hb
    · cases hb
    · exact hr.held_target other binding hb
  · intro other hne
    rw [hheld] at hne
    split at hne
    · exact absurd rfl hne
    · next hother =>
      obtain ⟨hname, entry, he, hv, hn⟩ := hr.held_shown other hne
      refine ⟨hname, entry, hstay entry he hv (Bool.eq_false_iff.2 fun hsame => hother ?_), hv, hn⟩
      exact sameName_trans (by rwa [sameName_comm]) hn

theorem not_held_empty (hr : r.Tidy) : held r.bindings "" = [] := by
  by_contra hne
  exact (hr.held_shown "" hne).1 rfl

/-- What is bound has a name. -/
theorem ne_empty_of_bindName (hr : r.Tidy) {keyword : Keyword}
    (h : (r.bindName keyword).1 = .ok ()) : keyword.name ≠ "" := by
  intro hempty
  have hbound := isBoundTo_bindName h
  rcases r.held_bindName keyword keyword.name with heq | ⟨-, -, hname, -⟩
  · rw [Stacked.isBoundTo_eq, heq, hempty, hr.not_held_empty] at hbound
    cases hbound
  · exact hname hempty

theorem concat (hr : r.Tidy) {entry : Entry} (hfresh : r.find? entry.id = none)
    (hv : entry.isMember = false → entry.visible = true)
    (hn : entry.isMember = false → entry.keyword.name ≠ "") : (r.concat entry).Tidy where
  distinct := hr.distinct.concat hfresh
  standalone_visible other ho hm := by
    rcases mem_concat.1 ho with ho | rfl
    · exact hr.standalone_visible other ho hm
    · exact hv hm
  standalone_named other ho hm := by
    rcases mem_concat.1 ho with ho | rfl
    · exact hr.standalone_named other ho hm
    · exact hn hm
  held_target := hr.held_target
  held_shown name hne := by
    obtain ⟨hname, other, ho, hlike⟩ := hr.held_shown name hne
    exact ⟨hname, other, mem_concat.2 (.inl ho), hlike⟩

/-- Entries may change, but not what they are, and no visible one may be hidden. -/
theorem map (hr : r.Tidy) {f : Entry → Entry} (hb : ∀ entry, (f entry).bare = entry.bare)
    (hv : ∀ entry, entry.visible = true → (f entry).visible = true) :
    Tidy { r with entries := r.entries.map f } where
  distinct := hr.distinct.congr <| (List.map_congr_left fun entry _ => (hb entry).symm).trans
    (List.map_map (g := Entry.bare)).symm
  standalone_visible entry' he' hm := by
    obtain ⟨entry, he, rfl⟩ := List.mem_map.1 he'
    rw [Entry.isMember_congr (hb entry)] at hm
    exact hv entry (hr.standalone_visible entry he hm)
  standalone_named entry' he' hm := by
    obtain ⟨entry, he, rfl⟩ := List.mem_map.1 he'
    rw [Entry.isMember_congr (hb entry)] at hm
    rw [Entry.keyword_congr (hb entry)]
    exact hr.standalone_named entry he hm
  held_target := hr.held_target
  held_shown name hne := by
    obtain ⟨hname, entry, he, hvis, hnamed⟩ := hr.held_shown name hne
    refine ⟨hname, f entry, List.mem_map_of_mem he, hv entry hvis, ?_⟩
    rwa [Entry.keyword_congr (hb entry)]

/-! ## The steps on one keyword -/

theorem keeps_hide (id : Keyword.Id) : Keeps (Tidy (τ := τ)) (hide id) :=
  Keeps.of_run fun r hr => by
    rcases r.hide_cases id with hrun | ⟨entry, he, rfl, hm, hrun⟩
    · rwa [hrun]
    rw [hrun]
    refine hr.purge entry.keyword.name (hr.distinct.congr (outline_setVisible r _ false).symm) ?_ ?_
    · intro other' ho' hstand
      obtain ⟨other, ho, rfl⟩ := List.mem_map.1 ho'
      by_cases hid : other.id ∈ [entry.id]
      · rw [if_pos hid, Entry.isMember_withVisible,
          hr.distinct.eq_of_id ho he (List.mem_singleton.1 hid), hm] at hstand
        cases hstand
      · rw [if_neg hid]
        exact ho
    · intro other ho _ hother
      refine List.mem_map.2 ⟨other, ho, if_neg fun hid => ?_⟩
      rw [hr.distinct.eq_of_id ho he (List.mem_singleton.1 hid), Keyword.isNamed,
        sameName_refl] at hother
      cases hother

theorem keeps_unregister (id : Keyword.Id) : Keeps (Tidy (τ := τ)) (unregister id) :=
  Keeps.of_run fun r hr => by
    rcases r.unregister_cases id with ⟨-, hrun⟩ | ⟨entry, he, rfl, hrun⟩
    · rwa [hrun]
    rw [hrun]
    refine hr.purge entry.keyword.name (hr.distinct.without _)
      (fun other ho _ => (mem_without.1 ho).1) fun other ho _ hother => ?_
    refine mem_without.2 ⟨ho, beq_false_of_ne fun hid => ?_⟩
    rw [hr.distinct.eq_of_id ho he hid, Keyword.isNamed, sameName_refl] at hother
    cases hother

theorem keeps_reveal (id : Keyword.Id) : Keeps (Tidy (τ := τ)) (reveal id) :=
  Keeps.of_run fun r hr => by
    rcases r.reveal_cases id with hrun | ⟨entry, he, rfl, hrun⟩
    · rwa [hrun]
    have hshown : (r.setVisible [entry.id] true).Tidy := by
      refine hr.map (fun other => ?_) fun other hv => ?_
      · split <;> rfl
      · split
        · rfl
        · exact hv
    rw [hrun, run_bindKeyword]
    refine hshown.bind ⟨entry.withVisible true, ?_, rfl, sameName_refl _⟩
    exact List.mem_map.2 ⟨entry, he, if_pos (List.mem_singleton_self _)⟩

/-- While the entries stay, the names of visible keywords may be bound. -/
theorem keeps_bindKeyword {keyword : Keyword} (h : r.Shows keyword.name) :
    Keeps (fun s : Registry τ => s.Tidy ∧ s.entries = r.entries) (bindKeyword keyword) :=
  Keeps.of_run fun s hs => by
    have hshows : s.Shows keyword.name := by
      rw [Shows, hs.2]
      exact h
    rw [run_bindKeyword]
    exact ⟨hs.1.bind hshows, hs.2⟩

theorem keeps_rebindStandalones : Keeps (Tidy (τ := τ)) rebindStandalones := by
  refine Meets.get_bind fun r hr => ?_
  have hbind : Keeps (fun s : Registry τ => s.Tidy ∧ s.entries = r.entries)
      ((r.standalones.filter fun keyword =>
        (BindingTable.lookup r.bindings keyword.name).isNone).forM bindKeyword) := by
    refine Keeps.forM_of_mem fun keyword hk => keeps_bindKeyword ?_
    obtain ⟨entry, he, rfl⟩ := List.mem_map.1 (List.mem_filter.1 hk).1
    obtain ⟨he, hstand⟩ := List.mem_filter.1 he
    exact ⟨entry, he, hr.standalone_visible entry he (by simpa using hstand), sameName_refl _⟩
  exact (hbind.startingAt ⟨hr, rfl⟩).conseq (fun _ hs => hs) (fun _ _ hs => hs.1)
    fun _ _ hs => hs.1

theorem keeps_loadVisible (name : String) : Keeps (Tidy (τ := τ)) (loadVisible name) := by
  refine Meets.get_bind fun r hr => ?_
  rcases hchosen : choose name (r.visibleNamed name) with e | entry
  · exact Meets.throw fun _ hs => hs ▸ hr
  · obtain ⟨he, hlike⟩ := List.mem_filter.1 (mem_of_choose hchosen)
    have hshows : r.Shows entry.keyword.name :=
      ⟨entry, he, (Bool.and_eq_true_iff.1 hlike).1, sameName_refl _⟩
    have hbind : Keeps (fun s : Registry τ => s.Tidy ∧ s.entries = r.entries)
        (do bindKeyword entry.keyword; return entry) :=
      (keeps_bindKeyword hshows).bind fun _ => Keeps.pure _
    exact (hbind.startingAt ⟨hr, rfl⟩).conseq (fun _ hs => hs) (fun _ _ hs => hs.1)
      fun _ _ hs => hs.1

/-! ## Registering keywords -/

theorem keeps_insert {entry : Entry} (hv : entry.isMember = false → entry.visible = true) :
    Keeps (Tidy (τ := τ)) (insert entry) :=
  Keeps.of_run fun r hr => by
    rw [insert, run_bind_ok (run_get r)]
    rcases hfresh : r.find? entry.id with _ | taken
    · simp only [Option.isSome_none, Bool.false_eq_true, ↓reduceIte]
      split
      · next hvisible =>
        rw [run_bind, run_bindKeyword]
        rcases hok : (r.bindName entry.keyword).1 with e | ⟨⟩
        · -- A refusal leaves the table as it was.
          have hheld : ∀ name, held (r.bindName entry.keyword).2 name = held r.bindings name := by
            intro name
            rcases r.held_bindName entry.keyword name with heq | ⟨hok', -⟩
            · exact heq
            · rw [hok] at hok'
              cases hok'
          refine hr.withBindings (fun name binding hb => ?_) fun name hne => .inl ?_
          · exact hr.held_target name binding (hheld name ▸ hb)
          · exact hheld name ▸ hne
        · have hadded : (r.concat entry).Tidy :=
            hr.concat hfresh hv fun _ => hr.ne_empty_of_bindName hok
          exact hadded.bind ⟨entry, mem_concat.2 (.inr rfl), hvisible, sameName_refl _⟩
      · next hhidden =>
        have hmember : ¬ entry.isMember = false := fun hm => hhidden (hv hm)
        exact hr.concat hfresh hv fun hm => absurd hm hmember
    · simp only [Option.isSome_some, ↓reduceIte]
      exact hr

theorem keeps_registerStandalone (keyword : Keyword) :
    Keeps (Tidy (τ := τ)) (registerStandalone keyword) :=
  (keeps_insert fun _ => rfl).bind fun _ => Keeps.pure _

theorem keeps_registerMember (dsl : String) (keyword : Keyword) (parent? : Option Keyword.Id)
    (path : String) : Keeps (Tidy (τ := τ)) (registerMember dsl keyword parent? path) :=
  keeps_registerMember_of dsl keyword parent? path fun _ hm =>
    keeps_insert fun hstand => by rw [hm] at hstand; cases hstand

theorem keeps_publish (module name : String) : Keeps (Tidy (τ := τ)) (publish module name) :=
  Keeps.of_run fun r hr => by
    have hheld := Stacked.held_publish r.bindings module name
    rw [publish, run_changeBindings]
    refine hr.withBindings (fun other binding hb => ?_) fun other hne => .inl ?_
    · exact hr.held_target other binding (hheld other ▸ hb)
    · exact hheld other ▸ hne

theorem keeps_subscribe (dsl path : String) (event : Event) (handler : ScriptBlock) :
    Keeps (Tidy (τ := τ)) (Session.subscribe dsl path event handler) := by
  have hhook : ∀ change : Entry → Entry, (∀ entry, (change entry).bare = entry.bare) →
      (∀ entry, (change entry).visible = entry.visible) →
      Keeps (Tidy (τ := τ)) (setHook dsl path change) := by
    intro change hb hv
    refine Keeps.get.bind fun r => ?_
    cases r.entryAt? dsl path with
    | none => exact Keeps.pure _
    | some found =>
      refine Keeps.bind (Keeps.modify fun s hs => hs.map (fun entry => ?_) fun entry hvis => ?_)
        fun _ => Keeps.pure _
      · split
        · exact hb entry
        · rfl
      · split
        · exact (hv entry).trans hvis
        · exact hvis
  cases event
  · exact hhook _ (fun _ => rfl) fun _ => rfl
  · exact hhook _ (fun _ => rfl) fun _ => rfl

theorem steady : Steady (Tidy (τ := τ)) where
  nextId _ hr := ⟨hr.distinct, hr.standalone_visible, hr.standalone_named, hr.held_target,
    hr.held_shown⟩
  register dsl keyword parent? path :=
    (keeps_registerMember dsl keyword parent? path).conseq (fun _ hr => hr.1) (fun _ _ hr => hr)
      fun _ _ hr => hr
  publish := keeps_publish
  unregister := keeps_unregister
  rebind := keeps_rebindStandalones
  reveal := keeps_reveal
  hide := keeps_hide

end Tidy

/-! ## Whole runs -/

theorem Tidy.durable : Durable (τ := τ) Tidy where
  toSteady := Tidy.steady
  scope _ _ hr := hr.withScope
  registerStandalone := Tidy.keeps_registerStandalone
  registerMember := Tidy.keeps_registerMember
  loadVisible := Tidy.keeps_loadVisible
  subscribe := Tidy.keeps_subscribe

/-- An operation leaves the table tidy, also if it fails on the way. -/
theorem EditStep.tidy {r' : Registry τ} (h : EditStep r r') (hr : r.Tidy) : r'.Tidy :=
  h.keeps Tidy.durable hr

theorem OwnsTable.tidy (hr : r.OwnsTable) : r.Tidy := by
  obtain ⟨config, bindings, hempty, run⟩ := hr
  have hheld : ∀ name, held bindings name = [] := by
    intro name
    have hnone := hempty name
    rwa [Stacked.lookup_eq, List.head?_eq_none_iff] at hnone
  induction run with
  | refl =>
    exact ⟨List.nodup_nil, fun _ he => absurd he List.not_mem_nil,
      fun _ he => absurd he List.not_mem_nil,
      fun name _ hb => absurd (hheld name ▸ hb) List.not_mem_nil,
      fun name hne => absurd (hheld name) hne⟩
  | tail _ hstep ih => exact hstep.tidy ih

/-- Whatever is done with a registry, and whatever its table refuses, a name that is bound to the
command is that of a visible keyword. -/
theorem visible_of_bound (hr : r.OwnsTable) {name : String}
    (h : BindingTable.isBoundTo r.bindings name r.target = true) :
    ∃ entry ∈ r.entries, entry.visible = true ∧ entry.keyword.isNamed name = true :=
  (hr.tidy.held_shown name ((hr.tidy.binds_iff name).1 h)).2

/-- The keywords `Site` and, below it, `Page`, over a table that refuses the second attempt to bind
a name. -/
def sampleUnsteady : Registry (UnsteadyTable LayeredTable) :=
  let start : Registry (UnsteadyTable LayeredTable) :=
    .ofConfig {} { table := {}, refusals := [false, true] }
  let site := ((registerMember "web" { id := ⟨1⟩, name := "Site" } none "Site").run start).2
  ((registerMember "web" { id := ⟨2⟩, name := "Page" } (some ⟨1⟩) "Site.Page").run site).2

theorem visible_of_bound_sample :
    let r := ((enterScope ⟨1⟩).run sampleUnsteady).2
    ((enterScope ⟨1⟩).run sampleUnsteady).1.isOk = false ∧ r.OwnsTable ∧
      BindingTable.isBoundTo r.bindings "SITE" r.target = true ∧
      ∃ entry ∈ r.entries, entry.visible = true ∧ entry.keyword.isNamed "SITE" = true := by
  intro r
  have hstart : OwnsTable (.ofConfig {} { table := {}, refusals := [false, true] } :
      Registry (UnsteadyTable LayeredTable)) := .empty {} fun _ => rfl
  have hr : r.OwnsTable :=
    ((hstart.edit (.registerMember ..)).edit (.registerMember ..)).edit (.enterScope ..)
  have hbound : BindingTable.isBoundTo r.bindings "SITE" r.target = true := by decide +kernel
  exact ⟨by decide +kernel, hr, hbound, visible_of_bound hr hbound⟩

end Registry
end KeywordScope
