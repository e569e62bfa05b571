import KeywordScope.Proofs.Registry.Binds
import KeywordScope.Proofs.Scope.Lifo

/-!
# What scopes bind

Scopes show and hide keywords, but bindings go by names: to hide a keyword takes the binding away
from all keywords of its name. When a scope is left, only its siblings and the standalone keywords
are bound again.

* `Nested.binds_enterScope`, `Nested.binds_leaveScope`: the names that are bound after a step.
* `ScopeRun`: a run of steps, with the members that it enters, and `Course`, what it keeps.
* `Restores`: a language, or the standalone keywords, see to it that a name is bound at the end.
* `Due.enter`, `Due.leave`: what is bound, or will be at the end, is still so after a step.
* `bound_after_run`: the names that stay bound over a run that leaves all that it enters.
* `run_unbinds`: a root of another language that does not.
-/

namespace KeywordScope
namespace Registry

open BindingTable (Stacked)
open Step

variable {τ : Type} {r r' : Registry τ}

/-- One of these keywords has the name. -/
def Calls (r : Registry τ) (ids : List Keyword.Id) (name : String) : Prop :=
  ∃ entry ∈ r.entries, entry.id ∈ ids ∧ entry.keyword.isNamed name = true

instance (r : Registry τ) (ids : List Keyword.Id) (name : String) : Decidable (r.Calls ids name) :=
  inferInstanceAs (Decidable (∃ entry ∈ r.entries, _))

theorem Distinct.any_keyword? (hd : r.Distinct) (ids : List Keyword.Id) (name : String) :
    (ids.filterMap r.keyword?).any (·.isNamed name) = true ↔ r.Calls ids name := by
  rw [List.any_eq_true]
  constructor
  · rintro ⟨keyword, hk, hnamed⟩
    obtain ⟨id, hid, hfound⟩ := List.mem_filterMap.1 hk
    obtain ⟨entry, hf, rfl⟩ := Option.map_eq_some_iff.1 hfound
    obtain ⟨he, rfl⟩ := mem_of_find? hf
    exact ⟨entry, he, hid, hnamed⟩
  · rintro ⟨entry, he, hid, hnamed⟩
    refine ⟨entry.keyword, List.mem_filterMap.2 ⟨entry.id, hid, ?_⟩, hnamed⟩
    rw [keyword?, hd.find?_eq he]
    rfl

theorem Calls.congr {r' : Registry τ} (ho : r.outline = r'.outline) {ids : List Keyword.Id}
    (h : r.Calls ids name) : r'.Calls ids name := by
  obtain ⟨entry, he, hid, hnamed⟩ := h
  obtain ⟨entry', he', same⟩ := exists_mem_of_outline ho he
  exact ⟨entry', he', by rwa [Entry.id_congr same], by rwa [Entry.keyword_congr same]⟩

/-! ## Steps -/

section Steps

variable [BindingTable τ] [BindingTable.Lenient τ] [Stacked τ]

theorem binds_switchNames (hd : r.Distinct) (hidden : List Keyword.Id) {shown : List Keyword.Id}
    (hs : ∀ id ∈ shown, ∃ entry, r.find? id = some entry ∧ entry.keyword.name ≠ "")
    (name : String) :
    (r.withBindings (r.switchNames hidden shown)).Binds name ↔
      r.Calls shown name ∨ (r.Binds name ∧ ¬ r.Calls hidden name) := by
  have hnamed : ∀ keyword ∈ shown.filterMap r.keyword?, keyword.name ≠ "" := by
    intro keyword hk
    obtain ⟨id, hid, hfound⟩ := List.mem_filterMap.1 hk
    obtain ⟨entry, hf, hname⟩ := hs id hid
    rw [keyword?, hf] at hfound
    cases hfound
    exact hname
  have hpurged := binds_purgeNames r (hidden.filterMap r.keyword?) name
  rw [← Bool.not_eq_true, hd.any_keyword?] at hpurged
  rw [← hd.any_keyword? shown, ← hpurged]
  exact binds_bindNames (r.withBindings _) _ hnamed name

namespace Nested

variable {entry : Entry} {own : Membership}

/-- Entering a member binds the names right below it and unbinds its own name and those of its
siblings. -/
theorem binds_enterScope (hn : r.Nested) (he : entry ∈ r.entries)
    (hm : entry.membership? = some own) (hv : entry.visible = true) (name : String) :
    ((enterScope entry.id).run r).2.Binds name ↔
      r.Calls (r.children entry.id) name ∨
        (r.Binds name ∧ ¬ r.Calls (r.siblings entry.id) name) := by
  rw [hn.run_enterScope he hm hv]
  exact binds_switchNames hn.distinct _ (fun _ hid => by
    obtain ⟨found, hf, -, hname⟩ := hn.find?_of_mem_children hid
    exact ⟨found, hf, hname⟩) name

/-- Leaving a member unbinds the names right below it and binds its own name, those of its siblings
and those of standalone keywords. -/
theorem binds_leaveScope (hn : r.Nested) (hr : r.Tidy) (he : entry ∈ r.entries)
    (hm : entry.membership? = some own) {outer : List Keyword.Id}
    (hs : r.scope = entry.id :: outer) (name : String) :
    (leaveScope.run r).2.Binds name ↔
      (r.standalone? name).isSome = true ∨ r.Calls (r.siblings entry.id) name ∨
        (r.Binds name ∧ ¬ r.Calls (r.children entry.id) name) := by
  have hmem : r.membership? entry.id = some own := (hn.distinct.membership?_eq he).trans hm
  let back : Registry τ := withBindings { r.showBelow own.dsl entry.parent? with scope := outer }
    (r.switchNames (r.children entry.id) (r.siblings entry.id))
  have hback : back.Tidy := by
    have hkeeps : Keeps (Tidy (τ := τ)) (do
        (r.children entry.id).forM hide
        ((← get).siblings entry.id).forM reveal
        return PUnit.unit : Action τ PUnit) :=
      (Keeps.forM Tidy.keeps_hide).bind fun _ => Keeps.get.bind fun _ =>
        (Keeps.forM Tidy.keeps_reveal).bind fun _ => Keeps.pure _
    have h := hkeeps.run (s := { r with scope := outer }) hr.withScope
    rwa [hn.run_switch_back he hm hs] at h
  have hbinds : back.Binds name ↔ r.Calls (r.siblings entry.id) name ∨
      (r.Binds name ∧ ¬ r.Calls (r.children entry.id) name) :=
    binds_switchNames hn.distinct _ (fun _ hid => by
      obtain ⟨found, hf, -, hname⟩ := hn.find?_of_mem_siblings hid
      exact ⟨found, hf, hname⟩) name
  have hstand : back.standalones = r.standalones :=
    standalones_congr (outline_showBelow own.dsl entry.parent?)
  rw [hn.run_leaveScope_eq he hm hs, run_bind_ok hback.run_rebindStandalones]
  show (back.withBindings (back.bindNames back.unbound)).Binds name ↔ _
  rw [hback.binds_rebound, hbinds, hstand, standalone?, List.isSome_find?]

end Nested

end Steps

/-! ## Runs -/

section Runs

variable [BindingTable τ] {ids : List Keyword.Id}

/-- A run of steps from a registry, with the members that it enters. -/
inductive ScopeRun (r : Registry τ) : List Keyword.Id → Registry τ → Prop where
  | start : ScopeRun r [] r
  | enter {ids : List Keyword.Id} {s : Registry τ} (run : ScopeRun r ids s) (id : Keyword.Id)
      (hm : s.isMember id = true) (hv : s.isVisible id = true) :
      ScopeRun r (id :: ids) ((enterScope id).run s).2
  | leave {ids : List Keyword.Id} {s : Registry τ} (run : ScopeRun r ids s) (hs : s.scope ≠ []) :
      ScopeRun r ids (leaveScope.run s).2

/-- What holds at every point of a run that starts at rest: the entries have stayed as they are,
apart from their visibility, and only members are entered that the run has entered. -/
structure Course (r : Registry τ) (ids : List Keyword.Id) (s : Registry τ) : Prop where
  nested : s.Nested
  owns : s.OwnsTable
  outline : r.outline = s.outline
  entered : ∀ id ∈ s.scope, id ∈ ids

namespace Course

theorem start (hn : r.Nested) (hr : r.OwnsTable) (hs : r.scope = []) : Course r [] r where
  nested := hn
  owns := hr
  outline := rfl
  entered _ hid := absurd (hs ▸ hid) List.not_mem_nil

variable [BindingTable.Lenient τ] {s : Registry τ} {entry : Entry} {own : Membership}

theorem enter (h : Course r ids s) (he : entry ∈ s.entries) (hm : entry.membership? = some own)
    (hv : entry.visible = true) :
    Course r (entry.id :: ids) ((enterScope entry.id).run s).2 where
  nested := (h.nested.scopeStep (.enter s entry.id
    (by rw [h.nested.distinct.isMember_eq he, Entry.isMember, hm]; rfl)
    ((h.nested.distinct.isVisible_eq he).trans hv))).1
  owns := h.owns.edit (.enterScope s entry.id)
  outline := h.outline.trans (h.nested.outline_enterScope he hm hv).symm
  entered id hid := by
    rw [h.nested.scope_enterScope he hm hv] at hid
    exact (List.mem_cons.1 hid).elim (fun heq => heq ▸ List.mem_cons_self) fun hid =>
      List.mem_cons_of_mem _ (h.entered id hid)

theorem leave (h : Course r ids s) (he : entry ∈ s.entries) (hm : entry.membership? = some own)
    {outer : List Keyword.Id} (hs : s.scope = entry.id :: outer) :
    Course r ids (leaveScope.run s).2 where
  nested := (h.nested.scopeStep (.leave s (hs ▸ List.cons_ne_nil _ _))).1
  owns := h.owns.edit (.leaveScope s)
  outline := h.outline.trans (h.nested.outline_leaveScope he hm hs).symm
  entered id hid := by
    rw [h.nested.scope_leaveScope he hm hs] at hid
    exact h.entered id (hs ▸ List.mem_cons_of_mem _ hid)

end Course

theorem ScopeRun.course [BindingTable.Lenient τ] (hn : r.Nested) (hr : r.OwnsTable)
    (hs : r.scope = []) (run : ScopeRun r ids r') : Course r ids r' := by
  induction run with
  | start => exact .start hn hr hs
  | @enter ids s _ id hm hv ih =>
    obtain ⟨entry, he, rfl, own, hown⟩ := Nested.mem_of_isMember hm
    exact ih.enter he hown ((ih.nested.distinct.isVisible_eq he).symm.trans hv)
  | @leave ids s _ hs ih =>
    obtain ⟨id, outer, hscope⟩ := List.exists_cons_of_ne_nil hs
    obtain ⟨entry, he, rfl, own, hown⟩ := ih.nested.innermost hscope
    exact ih.leave he hown hscope

end Runs

/-! ## Names that are restored -/

/-- The name is that of a root of the language, or of a standalone keyword. -/
def Restores (r : Registry τ) (dsl name : String) : Prop :=
  (r.roots dsl).any (·.isNamed name) = true ∨ (r.standalone? name).isSome = true

/-- Of what stands right below some keywords, the name is restored if it is the name of any. -/
def RestoredBelow (r : Registry τ) (ids : List Keyword.Id) (name : String) : Prop :=
  ∀ id ∈ ids, ∀ child ∈ r.entries, child.parent? = some id → child.keyword.isNamed name = true →
    ∀ dsl, child.isIn dsl = true → r.Restores dsl name

theorem standalone?_congr (h : r.outline = r'.outline) (name : String) :
    r.standalone? name = r'.standalone? name := by
  rw [standalone?, standalone?, standalones_congr h]

theorem Restores.congr (ho : r.outline = r'.outline) {dsl name : String}
    (h : r.Restores dsl name) : r'.Restores dsl name := by
  rwa [Restores, ← roots_congr ho, ← standalone?_congr ho]

theorem RestoredBelow.congr (ho : r.outline = r'.outline) {ids : List Keyword.Id} {name : String}
    (h : r.RestoredBelow ids name) : r'.RestoredBelow ids name := by
  intro id hid child' hc hp hnamed dsl hin
  obtain ⟨child, hc, same⟩ := exists_mem_of_outline ho.symm hc
  rw [← Entry.parent?_congr same] at hp
  rw [← Entry.keyword_congr same] at hnamed
  rw [← Entry.isIn_congr same] at hin
  exact (h id hid child hc hp hnamed dsl hin).congr ho

theorem RestoredBelow.mono {ids ids' : List Keyword.Id} {name : String}
    (h : r.RestoredBelow ids name) (hsub : ∀ id ∈ ids', id ∈ ids) : r.RestoredBelow ids' name :=
  fun id hid => h id (hsub id hid)

/-- The siblings of a root are the roots of its language. -/
theorem Nested.calls_siblings_root {entry : Entry} {own : Membership} (hn : r.Nested)
    (he : entry ∈ r.entries) (hm : entry.membership? = some own) (hroot : entry.parent? = none)
    {dsl : String} (same : sameName own.dsl dsl = true) (name : String) :
    r.Calls (r.siblings entry.id) name ↔ (r.roots dsl).any (·.isNamed name) = true := by
  rw [roots, any_keywordsWhere, List.any_eq_true]
  refine exists_congr fun other => and_congr_right fun ho => ?_
  have hin : other.isIn own.dsl = other.isIn dsl := by
    simp only [Entry.isIn, sameName_congr same]
  rw [hn.mem_siblings_iff he hm ho, hroot, Bool.and_eq_true, Bool.and_eq_true, Entry.isRoot_iff, hin]
  refine and_congr_left fun _ => ?_
  constructor
  · rintro ⟨hin, hp⟩
    exact ⟨⟨Entry.isMember_of_isIn hin, hp⟩, hin⟩
  · rintro ⟨⟨-, hp⟩, hin⟩
    exact ⟨hin, hp⟩

/-- What stands beside a visible member is a root, or it is right below an entered keyword. -/
theorem RestoredBelow.siblings {entry : Entry} {own : Membership} {name : String}
    (hbelow : r.RestoredBelow r.scope name) (hn : r.Nested) (he : entry ∈ r.entries)
    (hm : entry.membership? = some own) (hv : entry.visible = true)
    (hsib : r.Calls (r.siblings entry.id) name) : r.Restores own.dsl name := by
  cases hparent : entry.parent? with
  | none => exact .inl ((hn.calls_siblings_root he hm hparent (sameName_refl own.dsl) name).1 hsib)
  | some parent =>
    obtain ⟨sibling, hs, hid, hnamed⟩ := hsib
    obtain ⟨hin, hp⟩ := (hn.mem_siblings_iff he hm hs).1 hid
    have htop : parent ∈ r.enteredIn own.dsl :=
      List.mem_of_head? ((hn.parent?_of_visible he hm hv).symm.trans hparent)
    exact hbelow parent (mem_scope_of_mem_enteredIn htop) sibling hs (hp.trans hparent) hnamed
      own.dsl hin

/-! ## Names that will be bound -/

variable [BindingTable τ]

/-- The name is bound, or it will be once all scopes are left. -/
def Due (r : Registry τ) (name : String) : Prop :=
  r.Binds name ∨ (∃ dsl, r.enteredIn dsl ≠ [] ∧ (r.roots dsl).any (·.isNamed name) = true) ∨
    (r.scope ≠ [] ∧ (r.standalone? name).isSome = true)

theorem Restores.due {dsl name : String} (h : r.Restores dsl name) (hd : r.enteredIn dsl ≠ []) :
    r.Due name := by
  rcases h with hroot | hstand
  · exact .inr (.inl ⟨dsl, hd, hroot⟩)
  · refine .inr (.inr ⟨fun hs => hd ?_, hstand⟩)
    rw [enteredIn, hs, List.filter_nil]

variable [BindingTable.Lenient τ] [Stacked τ] {entry : Entry} {own : Membership} {name : String}
  {ids : List Keyword.Id}

/-- What will be bound is still so when a member is entered, as long as no language has the name
below a keyword that is entered and does not restore it. -/
theorem Due.enter (h : r.Due name) (hn : r.Nested) (he : entry ∈ r.entries)
    (hm : entry.membership? = some own) (hv : entry.visible = true)
    (hbelow : r.RestoredBelow r.scope name) : ((enterScope entry.id).run r).2.Due name := by
  have hbinds := hn.binds_enterScope he hm hv name
  have ho := (hn.outline_enterScope he hm hv).symm
  have hscope := hn.scope_enterScope he hm hv
  have hentered := hn.enteredIn_enterScope he hm hv
  generalize ((enterScope entry.id).run r).2 = r' at hbinds ho hscope hentered ⊢
  by_cases hsib : r.Calls (r.siblings entry.id) name
  · refine ((hbelow.siblings hn he hm hv hsib).congr ho).due ?_
    rw [hentered, if_pos (sameName_refl own.dsl)]
    exact List.cons_ne_nil _ _
  · rcases h with hbound | ⟨dsl, hd, hroot⟩ | ⟨-, hstand⟩
    · exact .inl (hbinds.2 (.inr ⟨hbound, hsib⟩))
    · refine .inr (.inl ⟨dsl, ?_, roots_congr ho dsl ▸ hroot⟩)
      rw [hentered]
      split
      · exact List.cons_ne_nil _ _
      · exact hd
    · exact .inr (.inr ⟨hscope ▸ List.cons_ne_nil _ _, standalone?_congr ho name ▸ hstand⟩)

/-- What will be bound is still so when the innermost member is left. -/
theorem Due.leave (h : r.Due name) (hn : r.Nested) (hr : r.Tidy) (he : entry ∈ r.entries)
    (hm : entry.membership? = some own) {outer : List Keyword.Id} (hs : r.scope = entry.id :: outer)
    (hbelow : r.RestoredBelow r.scope name) : (leaveScope.run r).2.Due name := by
  have hbinds := hn.binds_leaveScope hr he hm hs name
  have ho := (hn.outline_leaveScope he hm hs).symm
  have hlast := hn.root_of_last he hm hs
  generalize (leaveScope.run r).2 = r' at hbinds ho hlast ⊢
  have hroot : ∀ dsl, r.enteredIn dsl ≠ [] → (r.roots dsl).any (·.isNamed name) = true →
      r'.Due name := by
    intro dsl hd hroot
    by_cases hrest : r'.enteredIn dsl = []
    · -- The siblings of the last member are shown, and they are the roots.
      obtain ⟨same, hparent⟩ := hlast dsl hd hrest
      exact .inl (hbinds.2 (.inr (.inl ((hn.calls_siblings_root he hm hparent same name).2 hroot))))
    · exact .inr (.inl ⟨dsl, hrest, roots_congr ho dsl ▸ hroot⟩)
  have hstand : (r.standalone? name).isSome = true → r'.Due name :=
    fun hstand => .inl (hbinds.2 (.inl hstand))
  rcases h with hbound | ⟨dsl, hd, hnamed⟩ | ⟨-, hnamed⟩
  · by_cases hchild : r.Calls (r.children entry.id) name
    · obtain ⟨child, hc, hid, hnamed⟩ := hchild
      obtain ⟨hin, hp⟩ := (hn.mem_children_iff he hm hc).1 hid
      have htop : entry.id ∈ r.scope := hs ▸ List.mem_cons_self
      rcases hbelow entry.id htop child hc hp hnamed own.dsl hin with hnamed | hnamed
      · exact hroot own.dsl (List.ne_nil_of_mem
          (List.mem_of_head? (hn.head?_enteredIn he hm hs))) hnamed
      · exact hstand hnamed
    · exact .inl (hbinds.2 (.inr (.inr ⟨hbound, hchild⟩)))
  · exact hroot dsl hd hnamed
  · exact hstand hnamed

/-- What was bound at first will be bound again. -/
theorem ScopeRun.due (hn : r.Nested) (hr : r.OwnsTable) (hs : r.scope = []) (hbound : r.Binds name)
    (run : ScopeRun r ids r') (hbelow : r.RestoredBelow ids name) : r'.Due name := by
  induction run with
  | start => exact .inl hbound
  | @enter ids s run id hm hv ih =>
    have hc := run.course hn hr hs
    obtain ⟨entry, he, rfl, own, hown⟩ := Nested.mem_of_isMember hm
    have hdue := ih (hbelow.mono fun _ => List.mem_cons_of_mem _)
    exact hdue.enter hc.nested he hown ((hc.nested.distinct.isVisible_eq he).symm.trans hv)
      ((hbelow.congr hc.outline).mono fun id hid => List.mem_cons_of_mem _ (hc.entered id hid))
  | @leave ids s run hs' ih =>
    have hc := run.course hn hr hs
    obtain ⟨id, outer, hscope⟩ := List.exists_cons_of_ne_nil hs'
    obtain ⟨entry, he, rfl, own, hown⟩ := hc.nested.innermost hscope
    exact (ih hbelow).leave hc.nested hc.owns.tidy he hown hscope
      ((hbelow.congr hc.outline).mono hc.entered)

theorem ScopeRun.binds (hn : r.Nested) (hr : r.OwnsTable) (hs : r.scope = [])
    (hs' : r'.scope = []) (hbound : r.Binds name) (run : ScopeRun r ids r')
    (hbelow : r.RestoredBelow ids name) : r'.Binds name := by
  rcases run.due hn hr hs hbound hbelow with hbound | ⟨dsl, hd, -⟩ | ⟨hno, -⟩
  · exact hbound
  · exact absurd (by rw [enteredIn, hs', List.filter_nil]) hd
  · exact absurd hs' hno

/-- A name that is bound before a run is bound after it, once all scopes are left, unless a keyword
right below one that the run enters has the name, but no root of its language and no standalone
keyword. -/
theorem bound_after_run (h : r.Reached) (hr : r.OwnsTable) (hs : r.scope = [])
    (run : ScopeRun r ids r') (hs' : r'.scope = [])
    (hbound : r.Binds name)
    (hbelow : ∀ id ∈ ids, ∀ child ∈ r.entries, child.parent? = some id →
      child.keyword.isNamed name = true → ∀ dsl, child.isIn dsl = true →
        (r.roots dsl).any (·.isNamed name) = true ∨ (r.standalone? name).isSome = true) :
    r'.Binds name :=
  run.binds h.nested hr hs hs' hbound hbelow

/-- The script `Page \x7b string Title }`. -/
def samplePage : Script.Block :=
  let word (text : String) : Script.Element := .bareword text ⟨0, 0⟩
  let block (elements : List Script.Element) : Script.Block :=
    .mk none none (.mk .finish true [.pipeline [.command elements ⟨0, 0⟩] ⟨0, 0⟩] ⟨0, 0⟩) "" ⟨0, 0⟩
  block [word "Page", .script (block [word "string", word "Title"])]

/-- The language `web`, in which `Page` stands below `Site`, and another one with the root `Page`. -/
def sampleTwo : Registry LayeredTable :=
  ((declare {} (fun token => some ⟨token⟩) "print" samplePage none).run sample).2

theorem sampleTwo_reached : sampleTwo.Reached :=
  sample_reached.declare (by decide +kernel) {} (fun token => some ⟨token⟩) "print" samplePage none

theorem sampleTwo_ownsTable : sampleTwo.OwnsTable :=
  ((OwnsTable.layered {}).edit (.declare ..)).edit (.declare ..)

/-- The registry once `Site` is entered and left. -/
def sampleLeft : Registry LayeredTable :=
  (leaveScope.run ((enterScope ⟨1⟩).run sampleTwo).2).2

theorem sampleLeft_run : ScopeRun sampleTwo [⟨1⟩] sampleLeft :=
  (ScopeRun.start.enter ⟨1⟩ (by decide +kernel) (by decide +kernel)).leave (by decide +kernel)

theorem bound_after_run_sample :
    sampleTwo.Reached ∧ sampleTwo.OwnsTable ∧ sampleTwo.scope = [] ∧
      ScopeRun sampleTwo [⟨1⟩] sampleLeft ∧ sampleLeft.scope = [] ∧ sampleTwo.Binds "Site" ∧
      (∀ id ∈ [(⟨1⟩ : Keyword.Id)], ∀ child ∈ sampleTwo.entries, child.parent? = some id →
        child.keyword.isNamed "Site" = false) ∧ sampleLeft.Binds "Site" := by
  have hs : sampleTwo.scope = [] := by decide +kernel
  have hs' : sampleLeft.scope = [] := by decide +kernel
  have hbound : sampleTwo.Binds "Site" := by decide +kernel
  have hnone : ∀ id ∈ [(⟨1⟩ : Keyword.Id)], ∀ child ∈ sampleTwo.entries,
      child.parent? = some id → child.keyword.isNamed "Site" = false := by decide +kernel
  refine ⟨sampleTwo_reached, sampleTwo_ownsTable, hs, sampleLeft_run, hs', hbound, hnone,
    bound_after_run sampleTwo_reached sampleTwo_ownsTable hs sampleLeft_run hs' hbound ?_⟩
  intro id hid child hc hp hnamed
  rw [hnone id hid child hc hp] at hnamed
  cases hnamed

/-- The root of the second language is visible before and after, but it is not bound any more. -/
theorem run_unbinds :
    sampleTwo.Reached ∧ sampleTwo.OwnsTable ∧ sampleTwo.scope = [] ∧
      ScopeRun sampleTwo [⟨1⟩] sampleLeft ∧ sampleLeft.scope = [] ∧
      ∃ entry ∈ sampleTwo.entries, entry ∈ sampleLeft.entries ∧ entry.isMember = true ∧
        entry.visible = true ∧ sampleTwo.Binds entry.keyword.name ∧
        ¬ sampleLeft.Binds entry.keyword.name :=
  ⟨sampleTwo_reached, sampleTwo_ownsTable, by decide +kernel, sampleLeft_run, by decide +kernel,
    by decide +kernel⟩

end Registry
end KeywordScope
