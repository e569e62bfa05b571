import KeywordScope.Proofs.Registry.Sound
import KeywordScope.Proofs.Scope.Runs

/-!
# What leaving a scope shows

The registry does not remember what was visible before a scope was entered. When the scope is left,
what is right below the member is hidden and the siblings of the member are shown, whatever was the
case before. This is the same for a scope that was entered only in part, so a scope that cannot be
entered is undone in the same way.

* `Registry.reset`: what is right below a member is hidden, and its siblings are shown.
* `Toggled`: on the way, only keywords of a list are shown and hidden, and names bound for that.
* `Toggled.run_leaveScope`: whatever happened on the way, the registry is reset in the end.
* `enterScope_cases`: over any table that grants the names of the siblings, a scope is entered, or
  the registry is reset.
* `visibility_round`: what is visible once a scope is entered and left again. This is what was
  visible before if and only if all siblings were visible, and nothing below the member was.
-/

namespace KeywordScope
namespace Registry

open Step
open BindingTable (Later Grants)

variable {τ : Type} {r s : Registry τ} {id : Keyword.Id} {ids outer : List Keyword.Id}

/-! ## The reset -/

/-- What is right below the member is hidden, and then its siblings are shown. -/
def reset (r : Registry τ) (id : Keyword.Id) : Registry τ :=
  (r.setVisible (r.children id) false).setVisible (r.siblings id) true

/-- What was visible below the member, or next to it, does not matter. -/
theorem reset_eq (r : Registry τ) (id : Keyword.Id) : r.reset id =
    (r.setVisible (r.siblings id ++ r.children id) false).setVisible (r.siblings id) true := by
  simp only [reset, setVisible, List.map_map]
  congr 1
  refine List.map_congr_left fun entry _ => ?_
  by_cases hsibling : entry.id ∈ r.siblings id <;> by_cases hchild : entry.id ∈ r.children id <;>
    simp [hsibling, hchild]

theorem visibility_reset (r : Registry τ) (id : Keyword.Id) :
    (r.reset id).visibility = r.entries.map fun entry =>
      (entry.id, if entry.id ∈ r.siblings id then true
        else if entry.id ∈ r.children id then false else entry.visible) := by
  rw [reset, visibility_setVisible, setVisible, List.map_map]
  refine List.map_congr_left fun entry _ => ?_
  simp only [Function.comp_apply]
  split <;> rfl

/-- No member that stands right below another one is a sibling of it. -/
theorem Loopless.not_mem_siblings (hr : r.Loopless) (hd : r.Distinct) {child : Keyword.Id}
    (h : child ∈ r.children id) (hm : r.isMember id = true) : child ∉ r.siblings id := by
  obtain ⟨above, hf, hmember⟩ := isMember_iff.1 hm
  obtain ⟨ha, rfl⟩ := mem_of_find? hf
  obtain ⟨own, hown⟩ := Option.isSome_iff_exists.1 hmember
  intro hsibling
  obtain ⟨entry, he, ⟨-, hp⟩, rfl⟩ := (mem_siblings ((hd.membership?_eq ha).trans hown)).1 hsibling
  obtain ⟨other, ho, hbelow, hid⟩ := mem_children.1 h
  obtain rfl := hd.eq_of_id ho he hid
  refine hr above ha ?_
  rw [← hbelow, hp, Entry.parent?, hown]
  rfl

/-- The reset changes nothing if all siblings are visible, and nothing below the member is. -/
theorem visibility_reset_iff (hr : r.Loopless) (hd : r.Distinct) (hm : r.isMember id = true) :
    (r.reset id).visibility = r.visibility ↔ ∀ entry ∈ r.entries,
      (entry.id ∈ r.siblings id → entry.visible = true) ∧
        (entry.id ∈ r.children id → entry.visible = false) := by
  rw [visibility_reset, visibility, List.map_inj_left]
  refine forall₂_congr fun entry _ => ?_
  rw [Prod.mk.injEq, and_iff_right rfl, eq_comm]
  by_cases hchild : entry.id ∈ r.children id
  · simp [hchild, hr.not_mem_siblings hd hchild hm]
  · by_cases hsibling : entry.id ∈ r.siblings id <;> simp [hchild, hsibling]

/-! ## On the way -/

section Table

variable [BindingTable τ]

/-- Keywords of the list are shown and hidden, and names bound and purged. -/
structure Toggled (ids : List Keyword.Id) (r s : Registry τ) : Prop where
  hidden_eq : s.setVisible ids false = (r.setVisible ids false).withBindings s.bindings
  later : Later r.bindings s.bindings

namespace Toggled

theorem refl (ids : List Keyword.Id) (r : Registry τ) : Toggled ids r r :=
  ⟨rfl, .refl⟩

theorem outline_eq (h : Toggled ids r s) : s.outline = r.outline := by
  have := congrArg outline h.hidden_eq
  rw [outline_setVisible] at this
  exact this.trans (outline_setVisible r ids false)

theorem scope_eq (h : Toggled ids r s) : s.scope = r.scope := by
  show (s.setVisible ids false).scope = r.scope
  rw [h.hidden_eq]
  rfl

/-- One keyword of the list changes. -/
theorem change (h : Toggled ids r s) (hid : id ∈ ids) (visible : Bool) {t : τ}
    (hlater : Later s.bindings t) : Toggled ids r ((s.setVisible [id] visible).withBindings t) where
  hidden_eq := by
    have hsubset : ∀ other ∈ [id], other ∈ ids := by simpa using hid
    rw [setVisible_withBindings, setVisible_setVisible_of_subset s hsubset, h.hidden_eq]
    rfl
  later := h.later.trans hlater

theorem keeps_hide (hid : id ∈ ids) : Keeps (Toggled ids r) (hide id) :=
  Keeps.of_run fun s h => by
    rcases s.hide_cases id with hrun | ⟨entry, -, -, -, hrun⟩
    · rwa [hrun]
    · rw [hrun]
      exact h.change hid false (.purge s.bindings entry.keyword.name s.target)

theorem keeps_reveal (hid : id ∈ ids) : Keeps (Toggled ids r) (reveal id) :=
  Keeps.of_run fun s h => by
    rcases s.reveal_cases id with hrun | ⟨entry, -, -, hrun⟩
    · rwa [hrun]
    · rw [hrun, run_bindKeyword]
      exact h.change hid true (later_bindName (s.setVisible [id] true) entry.keyword)

/-- However far a scope is entered, only the siblings and what is right below the member change. -/
theorem keeps_openScope (r : Registry τ) (id : Keyword.Id) :
    Keeps (Toggled (r.siblings id ++ r.children id) r) (openScope id) := by
  refine Meets.get_bind fun s hs => ?_
  have hhide : Keeps (Toggled (r.siblings id ++ r.children id) r) ((s.siblings id).forM hide) :=
    Keeps.forM_of_mem fun other ho =>
      keeps_hide (List.mem_append_left _ (siblings_congr hs.outline_eq id ▸ ho))
  refine Meets.bind (hhide.startingAt hs) fun _ => Meets.get_bind fun s' hs' => ?_
  refine (Keeps.forM_of_mem fun other ho => ?_).startingAt hs'
  exact keeps_reveal (List.mem_append_right _ (children_congr hs'.outline_eq id ▸ ho))

/-- The reset undoes what happened on the way. -/
theorem reset_eq (h : Toggled (r.siblings id ++ r.children id) r s) :
    s.reset id = (r.reset id).withBindings s.bindings := by
  rw [Registry.reset_eq, Registry.reset_eq, siblings_congr h.outline_eq,
    children_congr h.outline_eq, h.hidden_eq]
  rfl

theorem grantsSiblings (h : Toggled ids r s) (hgrants : r.GrantsSiblings id) :
    s.GrantsSiblings id := by
  intro entry he hsibling
  obtain ⟨other, ho, same⟩ := exists_mem_of_outline h.outline_eq he
  rw [siblings_congr h.outline_eq, ← Entry.id_congr same] at hsibling
  rw [← Entry.keyword_congr same]
  exact (hgrants other ho hsibling).later h.later

end Toggled

/-! ## Entering and leaving -/

/-- Leaving a scope resets the registry if the names of the siblings can be bound. Whether
standalone keywords can be bound again makes no difference. -/
theorem run_leaveScope_reset (hd : r.Distinct) (hm : r.isMember id = true)
    (hs : r.scope = id :: outer) (hgrants : r.GrantsSiblings id) :
    ∃ t, (leaveScope.run r).2 = withBindings { r.reset id with scope := outer } t := by
  let r₁ : Registry τ := { r with scope := outer }
  have hmember : r₁.isMember id = true := hm
  have hswitch := run_switch_siblings (r := r₁) hd hgrants
    (do rebindStandalones; return id : Action τ Keyword.Id)
  have hend : Keeps (fun s => ∃ t, s = withBindings { r.reset id with scope := outer } t)
      (do rebindStandalones; return id : Action τ Keyword.Id) :=
    (keeps_rebindStandalones (bindingFree_withBindings _)).bind fun _ => Keeps.pure _
  rw [leaveScope, run_bind_ok (run_get r)]
  simp only [hs]
  rw [run_bind_ok (run_modify _ r), run_bind_ok (run_get r₁)]
  simp only [hmember, ↓reduceIte]
  rw [run_bind_ok (run_get r₁)]
  exact hswitch ▸ hend.run ⟨_, rfl⟩

theorem Toggled.run_leaveScope (h : Toggled (r.siblings id ++ r.children id) r s)
    (hd : r.Distinct) (hm : r.isMember id = true) (hs : r.scope = id :: outer)
    (hgrants : r.GrantsSiblings id) :
    ∃ t, (leaveScope.run s).2 = withBindings { r.reset id with scope := outer } t := by
  obtain ⟨t, hrun⟩ := run_leaveScope_reset (hd.congr h.outline_eq.symm)
    ((isMember_congr h.outline_eq id).trans hm) (h.scope_eq.trans hs) (h.grantsSiblings hgrants)
  exact ⟨t, by rw [hrun, h.reset_eq]; rfl⟩

/-- A scope is entered, or the registry is reset. -/
theorem enterScope_cases (hd : r.Distinct) (hm : r.isMember id = true)
    (hgrants : r.GrantsSiblings id) :
    (((enterScope id).run r).1 = .ok () ∧ Toggled (r.siblings id ++ r.children id)
        { r with scope := id :: r.scope } ((enterScope id).run r).2) ∨
      ∃ e t, (enterScope id).run r = (.error e, (r.reset id).withBindings t) := by
  obtain ⟨entry, hf, hmember⟩ := isMember_iff.1 hm
  let r₁ : Registry τ := { r with scope := id :: r.scope }
  have hopen : Toggled (r.siblings id ++ r.children id) r₁ ((openScope id).run r₁).2 :=
    (Toggled.keeps_openScope r₁ id).run (.refl _ r₁)
  rw [enterScope, run_bind_ok (run_getEntry hf)]
  simp only [hmember, ↓reduceIte]
  rw [run_bind_ok (run_modify _ r), run_bind_ok (run_attempt _ r₁)]
  rcases hrun : (openScope id).run r₁ with ⟨e | _, s⟩
  · right
    rw [hrun] at hopen
    obtain ⟨t, hleave⟩ := Toggled.run_leaveScope (r := r₁) hopen hd hm rfl hgrants
    refine ⟨e, t, ?_⟩
    rw [run_bind_ok (run_discard_ok (run_attempt leaveScope s)), hleave]
    rfl
  · left
    rw [hrun] at hopen
    exact ⟨rfl, hopen⟩

/-- A member is entered while no scope is, and left again. If it cannot be entered, there is nothing
to be left. -/
theorem run_round (hd : r.Distinct) (hs : r.scope = []) (hm : r.isMember id = true)
    (hgrants : r.GrantsSiblings id) :
    ∃ t, (leaveScope.run ((enterScope id).run r).2).2 = (r.reset id).withBindings t := by
  rcases enterScope_cases hd hm hgrants with ⟨-, hentered⟩ | ⟨e, t, hrun⟩
  · let r₁ : Registry τ := { r with scope := id :: r.scope }
    obtain ⟨t, hleave⟩ := Toggled.run_leaveScope (r := r₁) hentered hd hm rfl hgrants
    exact ⟨t, hleave⟩
  · have hempty : ((r.reset id).withBindings t).scope = [] := hs
    refine ⟨t, ?_⟩
    rw [hrun, leaveScope, run_bind_ok (run_get _)]
    simp only [hempty]
    rfl

/-- Whatever was done before, and whatever was visible: once a member is entered and left again, its
siblings are visible, what is right below it is hidden, and nothing else has changed. So all is as
before if and only if it was so from the start. -/
theorem visibility_round (h : r.Edited) (hs : r.scope = []) {entry : Entry}
    (he : entry ∈ r.entries) (hm : entry.isMember = true)
    (hgrants : r.GrantsSiblings entry.id) :
    let after := (leaveScope.run ((enterScope entry.id).run r).2).2
    after.scope = [] ∧
      after.visibility = (r.entries.map fun other =>
        (other.id, if other.id ∈ r.siblings entry.id then true
          else if other.id ∈ r.children entry.id then false else other.visible)) ∧
      (after.visibility = r.visibility ↔ ∀ other ∈ r.entries,
        (other.id ∈ r.siblings entry.id → other.visible = true) ∧
          (other.id ∈ r.children entry.id → other.visible = false)) := by
  intro after
  have hd := h.sound.distinct
  have hmember : r.isMember entry.id = true := (hd.isMember_eq he).trans hm
  obtain ⟨t, hafter⟩ : ∃ t, after = (r.reset entry.id).withBindings t :=
    run_round hd hs hmember hgrants
  have hvisible : after.visibility = (r.reset entry.id).visibility := by rw [hafter]; rfl
  refine ⟨by rw [hafter]; exact hs, hvisible.trans (visibility_reset r entry.id), ?_⟩
  rw [hvisible]
  exact visibility_reset_iff h.loopless hd hmember

end Table

/-- Over layers: the roots `Site` and `Page` of one language, of which `Page` has been hidden. -/
def sampleHidden : Registry LayeredTable :=
  let site := ((registerMember "web" { id := ⟨1⟩, name := "Site" } none "Site").run
    (.ofConfig {} {})).2
  let page := ((registerMember "web" { id := ⟨2⟩, name := "Page" } none "Page").run site).2
  ((hide ⟨2⟩).run page).2

theorem sampleHidden_edited : sampleHidden.Edited :=
  (((Edited.empty {} ({} : LayeredTable)).edit (.registerMember ..)).edit
    (.registerMember ..)).edit (.hide _ ⟨2⟩)

theorem visibility_round_sample :
    let after := (leaveScope.run ((enterScope ⟨1⟩).run sampleHidden).2).2
    sampleHidden.Edited ∧ sampleHidden.scope = [] ∧ sampleHidden.GrantsSiblings ⟨1⟩ ∧
      after.scope = [] ∧
      after.visibility = (sampleHidden.entries.map fun other =>
        (other.id, if other.id ∈ sampleHidden.siblings ⟨1⟩ then true
          else if other.id ∈ sampleHidden.children ⟨1⟩ then false else other.visible)) := by
  intro after
  have hs : sampleHidden.scope = [] := by decide +kernel
  obtain ⟨entry, he, hm, hid⟩ : ∃ entry ∈ sampleHidden.entries, entry.isMember = true ∧
      entry.id = ⟨1⟩ := by decide +kernel
  have hnamed : ∀ other ∈ sampleHidden.entries, other.keyword.name ≠ "" := by decide +kernel
  have hgrants : sampleHidden.GrantsSiblings ⟨1⟩ :=
    fun other ho _ => LayeredTable.grants_iff.2 (hnamed other ho)
  have hround := visibility_round sampleHidden_edited hs he hm (hid ▸ hgrants)
  rw [hid] at hround
  exact ⟨sampleHidden_edited, hs, hgrants, hround.1, hround.2.1⟩

/-- A root that has been hidden is visible again once another root is entered and left. -/
theorem round_shows_hidden :
    let after := (leaveScope.run ((enterScope ⟨1⟩).run sampleHidden).2).2
    sampleHidden.Edited ∧ sampleHidden.scope = [] ∧ sampleHidden.isMember ⟨1⟩ = true ∧
      sampleHidden.isVisible ⟨1⟩ = true ∧ after.scope = [] ∧
      sampleHidden.visibility = [(⟨1⟩, true), (⟨2⟩, false)] ∧
      after.visibility = [(⟨1⟩, true), (⟨2⟩, true)] :=
  ⟨sampleHidden_edited, by decide +kernel⟩

end Registry
end KeywordScope
