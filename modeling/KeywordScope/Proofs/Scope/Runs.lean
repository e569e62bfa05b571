import KeywordScope.Proofs.Registry.Runs
import KeywordScope.Proofs.Scope.Nesting
import KeywordScope.Registry.Scope

/-!
# Runs of entering and leaving

Over a lenient table, while the entries are nested, entering a visible member and leaving the
innermost one do exactly what they should.

* `switchNames`: the table once some keywords are hidden and then others shown.
* `GrantsSiblings`: the names of a member's siblings can be bound. Then what is right below the
  member can be hidden and its siblings shown (`run_switch_siblings`).
* `Nested.run_enterScope`: entering shows what is right below the member.
* `Nested.run_leaveScope`: leaving shows what is right below the keyword above the member. It comes
  down to binding standalone keywords again (`Nested.run_leaveScope_eq`).
-/

namespace KeywordScope
namespace Registry

open Step

variable {τ : Type} {r : Registry τ}

/-- The table once some keywords are hidden and then others shown. -/
def switchNames [BindingTable τ] (r : Registry τ) (hidden shown : List Keyword.Id) : τ :=
  (r.withBindings (r.purgeNames (hidden.filterMap r.keyword?))).bindNames
    (shown.filterMap r.keyword?)

/-- Keywords are hidden, and then those shown that are found once these are hidden. -/
theorem run_switch [BindingTable τ] (hidden : List Keyword.Id)
    (shown : Registry τ → List Keyword.Id) (hc : ∀ s, s.outline = r.outline → shown s = shown r)
    (hh : ∀ id ∈ hidden, r.isMember id = true)
    (hs : ∀ id ∈ shown r, ∃ entry, r.find? id = some entry ∧
      BindingTable.Grants r.bindings entry.keyword.name)
    {α : Type} (next : Action τ α) :
    (do hidden.forM hide; (shown (← get)).forM reveal; next : Action τ α).run r =
      next.run (((r.setVisible hidden false).setVisible (shown r) true).withBindings
        (r.switchNames hidden (shown r))) := by
  let r₁ : Registry τ :=
    (r.setVisible hidden false).withBindings (r.purgeNames (hidden.filterMap r.keyword?))
  have ho : r₁.outline = r.outline := outline_setVisible r hidden false
  have hreveal := run_forM_reveal_granted (r := r₁) (shown r) fun id hid => by
    obtain ⟨found, hfound, hgrants⟩ := hs id hid
    obtain ⟨found', hfound', hk⟩ := find?_of_outline ho.symm hfound
    exact ⟨found', hfound', hk ▸ hgrants.later (r.later_purgeNames _)⟩
  rw [run_bind_ok (run_forM_hide hidden hh), run_bind_ok (run_get r₁), hc r₁ ho,
    run_bind_ok hreveal, keyword?_congr ho]
  rfl

/-- The table binds the names of the member's siblings, the member itself included, whenever it is
asked to. -/
def GrantsSiblings [BindingTable τ] (r : Registry τ) (id : Keyword.Id) : Prop :=
  ∀ entry ∈ r.entries, entry.id ∈ r.siblings id →
    BindingTable.Grants r.bindings entry.keyword.name

theorem grantsSiblings_of_named [BindingTable τ] [BindingTable.Lenient τ] (hd : r.Distinct)
    (hn : ∀ entry ∈ r.entries, entry.isMember = true → entry.keyword.name ≠ "")
    (id : Keyword.Id) : r.GrantsSiblings id := by
  intro entry he hsibling
  obtain ⟨found, hf, hfound, hm⟩ := hd.find?_of_mem_siblings hsibling
  obtain rfl := Option.some.inj ((hd.find?_eq he).symm.trans hfound)
  exact (BindingTable.Lenient.accepts _ (hn entry he hm)).grants r.bindings

/-- What is right below a keyword is hidden, and its siblings are shown. -/
theorem run_switch_siblings [BindingTable τ] (hd : r.Distinct) {id : Keyword.Id}
    (hgrants : r.GrantsSiblings id) {α : Type} (next : Action τ α) :
    (do
      (r.children id).forM hide
      ((← get).siblings id).forM reveal
      next : Action τ α).run r =
      next.run (((r.setVisible (r.children id) false).setVisible (r.siblings id) true).withBindings
        (r.switchNames (r.children id) (r.siblings id))) :=
  run_switch (r.children id) (·.siblings id) (fun _ ho => siblings_congr ho id)
    (fun _ hid => by
      obtain ⟨entry, -, hf, hm⟩ := hd.find?_of_mem_children hid
      exact isMember_iff.2 ⟨entry, hf, hm⟩)
    (fun _ hid => by
      obtain ⟨entry, he, hf, -⟩ := hd.find?_of_mem_siblings hid
      obtain ⟨-, rfl⟩ := mem_of_find? hf
      exact ⟨entry, hf, hgrants entry he hid⟩) next

/-- A member is entered by hiding its siblings and showing what is right below it. -/
theorem run_enterScope_switch [BindingTable τ] [BindingTable.Lenient τ] (hd : r.Distinct)
    (hn : ∀ entry ∈ r.entries, entry.isMember = true → entry.keyword.name ≠ "") {id : Keyword.Id}
    (hm : r.isMember id = true) :
    (enterScope id).run r = (.ok (), withBindings
      { (r.setVisible (r.siblings id) false).setVisible (r.children id) true
        with scope := id :: r.scope }
      (r.switchNames (r.siblings id) (r.children id))) := by
  obtain ⟨entry, hf, hmember⟩ := isMember_iff.1 hm
  let r₁ : Registry τ := { r with scope := id :: r.scope }
  have hswitch := run_switch (r := r₁) (r.siblings id) (·.children id)
    (fun s ho => children_congr ho id)
    (fun other ho => by
      obtain ⟨found, -, hfound, hmember⟩ := hd.find?_of_mem_siblings ho
      exact isMember_iff.2 ⟨found, hfound, hmember⟩)
    (fun other ho => by
      obtain ⟨found, hmem, hfound, hmember⟩ := hd.find?_of_mem_children ho
      exact ⟨found, hfound, (BindingTable.Lenient.accepts _ (hn found hmem hmember)).grants
        r.bindings⟩)
    (pure PUnit.unit)
  simp only [bind_pure_unit] at hswitch
  have hopen : (openScope id).run r₁ = (.ok (), withBindings
      { (r.setVisible (r.siblings id) false).setVisible (r.children id) true
        with scope := id :: r.scope }
      (r.switchNames (r.siblings id) (r.children id))) := by
    rw [openScope, run_bind_ok (run_get r₁)]
    exact hswitch
  rw [enterScope, run_bind_ok (run_getEntry hf)]
  simp only [hmember, ↓reduceIte]
  rw [run_bind_ok (run_modify _ r), run_bind_ok (run_attempt _ r₁), hopen]
  rfl

namespace Nested

variable {entry : Entry} {own : Membership}

theorem mem_children_iff (hn : r.Nested) (he : entry ∈ r.entries)
    (hm : entry.membership? = some own) {other : Entry} (ho : other ∈ r.entries) :
    other.id ∈ r.children entry.id ↔
      other.isIn own.dsl = true ∧ other.parent? = some entry.id := by
  have hin : entry.isIn own.dsl = true := Entry.isIn_iff.2 ⟨own, hm, sameName_refl _⟩
  rw [mem_children]
  constructor
  · rintro ⟨found, hf, hp, hid⟩
    obtain rfl := hn.distinct.eq_of_id hf ho hid
    exact ⟨hn.isIn_of_parent ho he hp hin, hp⟩
  · rintro ⟨-, hp⟩
    exact ⟨other, ho, hp, rfl⟩

theorem mem_siblings_iff (hn : r.Nested) (he : entry ∈ r.entries)
    (hm : entry.membership? = some own) {other : Entry} (ho : other ∈ r.entries) :
    other.id ∈ r.siblings entry.id ↔
      other.isIn own.dsl = true ∧ other.parent? = entry.parent? := by
  rw [mem_siblings ((hn.distinct.membership?_eq he).trans hm)]
  have hp : own.parent? = entry.parent? := by rw [Entry.parent?, hm]; rfl
  rw [hp]
  constructor
  · rintro ⟨found, hf, hlike, hid⟩
    obtain rfl := hn.distinct.eq_of_id hf ho hid
    exact hlike
  · intro hlike
    exact ⟨other, ho, hlike, rfl⟩

/-- Hiding what a language shows and then showing what is below another of its keywords. -/
theorem setVisible_setVisible (hn : r.Nested) (dsl : String) (to? : Option Keyword.Id)
    (hidden shown : List Keyword.Id)
    (hh : ∀ other ∈ r.entries, other.id ∈ hidden ↔
      other.isIn dsl = true ∧ other.parent? = (r.enteredIn dsl).head?)
    (hs : ∀ other ∈ r.entries, other.id ∈ shown ↔
      other.isIn dsl = true ∧ other.parent? = to?) :
    (r.setVisible hidden false).setVisible shown true = r.showBelow dsl to? := by
  simp only [setVisible, showBelow, List.map_map]
  congr 1
  refine List.map_congr_left fun other ho => ?_
  simp only [Function.comp_apply, Entry.showBelow]
  have hid : (if other.id ∈ hidden then other.withVisible false else other).id = other.id := by
    split <;> rfl
  rw [hid]
  by_cases hin : other.isIn dsl = true
  · rw [if_pos hin]
    by_cases hto : other.parent? = to?
    · rw [if_pos ((hs other ho).2 ⟨hin, hto⟩), hto, beq_self_eq_true]
      split <;> rfl
    · have hne : (other.parent? == to?) = false := by simpa using hto
      rw [if_neg fun h => hto ((hs other ho).1 h).2, hne]
      by_cases hfrom : other.parent? = (r.enteredIn dsl).head?
      · rw [if_pos ((hh other ho).2 ⟨hin, hfrom⟩)]
      · -- It was hidden before.
        have hvis : other.visible = false := by
          rw [hn.member_visible other ho dsl hin]
          simpa using hfrom
        rw [if_neg fun h => hfrom ((hh other ho).1 h).2, ← hvis, Entry.withVisible_self]
  · rw [if_neg hin, if_neg fun h => hin ((hs other ho).1 h).1,
      if_neg fun h => hin ((hh other ho).1 h).1]

/-- The innermost entered keyword is the innermost one of its language. -/
theorem head?_enteredIn (hn : r.Nested) (he : entry ∈ r.entries)
    (hm : entry.membership? = some own) {outer : List Keyword.Id}
    (hs : r.scope = entry.id :: outer) : (r.enteredIn own.dsl).head? = some entry.id := by
  have hmem : r.membership? entry.id = some own := (hn.distinct.membership?_eq he).trans hm
  rw [show r = { r with scope := entry.id :: outer } by rw [← hs], enteredIn_cons hmem,
    if_pos (sameName_refl _)]
  rfl

theorem find?_of_mem_children (hn : r.Nested) {id child : Keyword.Id}
    (hc : child ∈ r.children id) :
    ∃ found, r.find? child = some found ∧ found.isMember = true ∧ found.keyword.name ≠ "" := by
  obtain ⟨found, hf, hfound, hmember⟩ := hn.distinct.find?_of_mem_children hc
  exact ⟨found, hfound, hmember, hn.named found hf hmember⟩

theorem find?_of_mem_siblings (hn : r.Nested) {id sibling : Keyword.Id}
    (hc : sibling ∈ r.siblings id) :
    ∃ found, r.find? sibling = some found ∧ found.isMember = true ∧ found.keyword.name ≠ "" := by
  obtain ⟨found, hf, hfound, hmember⟩ := hn.distinct.find?_of_mem_siblings hc
  exact ⟨found, hfound, hmember, hn.named found hf hmember⟩

variable [BindingTable τ] [BindingTable.Lenient τ]

/-- Entering a visible member succeeds, and shows what is right below it. -/
theorem run_enterScope (hn : r.Nested) (he : entry ∈ r.entries)
    (hm : entry.membership? = some own) (hv : entry.visible = true) :
    (enterScope entry.id).run r = (.ok (), withBindings { r.showBelow own.dsl (some entry.id)
      with scope := entry.id :: r.scope }
      (r.switchNames (r.siblings entry.id) (r.children entry.id))) := by
  have hmember : r.isMember entry.id = true :=
    isMember_iff.2 ⟨entry, hn.distinct.find?_eq he, by rw [Entry.isMember, hm]; rfl⟩
  have hshow := hn.setVisible_setVisible own.dsl (some entry.id) (r.siblings entry.id)
    (r.children entry.id)
    (fun other ho => by
      rw [← hn.parent?_of_visible he hm hv]
      exact hn.mem_siblings_iff he hm ho)
    (fun other ho => hn.mem_children_iff he hm ho)
  rw [run_enterScope_switch hn.distinct hn.named hmember, hshow]

theorem outline_enterScope (hn : r.Nested) (he : entry ∈ r.entries)
    (hm : entry.membership? = some own) (hv : entry.visible = true) :
    ((enterScope entry.id).run r).2.outline = r.outline := by
  rw [hn.run_enterScope he hm hv]
  exact outline_showBelow own.dsl (some entry.id)

theorem scope_enterScope (hn : r.Nested) (he : entry ∈ r.entries)
    (hm : entry.membership? = some own) (hv : entry.visible = true) :
    ((enterScope entry.id).run r).2.scope = entry.id :: r.scope := by
  rw [hn.run_enterScope he hm hv]
  rfl

theorem enteredIn_enterScope (hn : r.Nested) (he : entry ∈ r.entries)
    (hm : entry.membership? = some own) (hv : entry.visible = true) (dsl : String) :
    ((enterScope entry.id).run r).2.enteredIn dsl =
      if sameName own.dsl dsl then entry.id :: r.enteredIn dsl else r.enteredIn dsl := by
  have ho := (hn.outline_enterScope he hm hv).symm
  rw [← enteredIn_congr (r := { r with scope := entry.id :: r.scope })
    (fun id _ => membership?_congr ho id) (hn.scope_enterScope he hm hv).symm,
    enteredIn_cons ((hn.distinct.membership?_eq he).trans hm)]

/-- Hiding what is right below the innermost member and showing its siblings. -/
theorem run_switch_back (hn : r.Nested) (he : entry ∈ r.entries)
    (hm : entry.membership? = some own) {outer : List Keyword.Id}
    (hs : r.scope = entry.id :: outer) {α : Type} (next : Action τ α) :
    (do
      (r.children entry.id).forM hide
      ((← get).siblings entry.id).forM reveal
      next : Action τ α).run { r with scope := outer } =
      next.run (withBindings { r.showBelow own.dsl entry.parent? with scope := outer }
        (r.switchNames (r.children entry.id) (r.siblings entry.id))) := by
  have hmem : r.membership? entry.id = some own := (hn.distinct.membership?_eq he).trans hm
  have hshow := hn.setVisible_setVisible own.dsl entry.parent? (r.children entry.id)
    (r.siblings entry.id)
    (fun other ho => by
      rw [hn.head?_enteredIn he hm hs]
      exact hn.mem_children_iff he hm ho)
    (fun other ho => hn.mem_siblings_iff he hm ho)
  rw [← hshow]
  exact run_switch_siblings (r := { r with scope := outer }) hn.distinct
    (grantsSiblings_of_named hn.distinct hn.named entry.id) next

/-- Leaving the innermost member shows what is right below the keyword above it. After that the
standalone keywords are bound again. -/
theorem run_leaveScope_eq (hn : r.Nested) (he : entry ∈ r.entries)
    (hm : entry.membership? = some own) {outer : List Keyword.Id}
    (hs : r.scope = entry.id :: outer) :
    leaveScope.run r = (do rebindStandalones; return entry.id : Action τ Keyword.Id).run
      (withBindings { r.showBelow own.dsl entry.parent? with scope := outer }
        (r.switchNames (r.children entry.id) (r.siblings entry.id))) := by
  let r₁ : Registry τ := { r with scope := outer }
  have hmember : r₁.isMember entry.id = true :=
    isMember_iff.2 ⟨entry, hn.distinct.find?_eq he, by rw [Entry.isMember, hm]; rfl⟩
  rw [leaveScope, run_bind_ok (run_get r)]
  simp only [hs]
  rw [run_bind_ok (run_modify _ r), run_bind_ok (run_get r₁)]
  simp only [hmember, ↓reduceIte]
  rw [run_bind_ok (run_get r₁)]
  exact hn.run_switch_back he hm hs _

/-- Whether leaving succeeds depends on the bindings of standalone keywords, but not what it
shows. -/
theorem run_leaveScope (hn : r.Nested) (he : entry ∈ r.entries)
    (hm : entry.membership? = some own) {outer : List Keyword.Id}
    (hs : r.scope = entry.id :: outer) :
    ∃ t, (leaveScope.run r).2 =
      withBindings { r.showBelow own.dsl entry.parent? with scope := outer } t := by
  have hkeeps : Keeps (fun s => ∃ t,
      s = withBindings { r.showBelow own.dsl entry.parent? with scope := outer } t)
      (do rebindStandalones; return entry.id : Action τ Keyword.Id) :=
    (keeps_rebindStandalones (bindingFree_withBindings _)).bind fun _ => Keeps.pure _
  rw [hn.run_leaveScope_eq he hm hs]
  exact hkeeps.run ⟨_, rfl⟩

theorem outline_leaveScope (hn : r.Nested) (he : entry ∈ r.entries)
    (hm : entry.membership? = some own) {outer : List Keyword.Id}
    (hs : r.scope = entry.id :: outer) : (leaveScope.run r).2.outline = r.outline := by
  obtain ⟨t, hrun⟩ := hn.run_leaveScope he hm hs
  rw [hrun]
  exact outline_showBelow own.dsl entry.parent?

theorem scope_leaveScope (hn : r.Nested) (he : entry ∈ r.entries)
    (hm : entry.membership? = some own) {outer : List Keyword.Id}
    (hs : r.scope = entry.id :: outer) : (leaveScope.run r).2.scope = outer := by
  obtain ⟨t, hrun⟩ := hn.run_leaveScope he hm hs
  rw [hrun]
  rfl

theorem enteredIn_leaveScope (hn : r.Nested) (he : entry ∈ r.entries)
    (hm : entry.membership? = some own) {outer : List Keyword.Id}
    (hs : r.scope = entry.id :: outer) (dsl : String) :
    r.enteredIn dsl = if sameName own.dsl dsl then
      entry.id :: (leaveScope.run r).2.enteredIn dsl else (leaveScope.run r).2.enteredIn dsl := by
  have ho := (hn.outline_leaveScope he hm hs).symm
  rw [← enteredIn_congr (r := { r with scope := outer }) (fun id _ => membership?_congr ho id)
    (hn.scope_leaveScope he hm hs).symm,
    ← enteredIn_cons ((hn.distinct.membership?_eq he).trans hm), ← hs]

/-- The last member of a language that is left is one of its roots. -/
theorem root_of_last (hn : r.Nested) (he : entry ∈ r.entries)
    (hm : entry.membership? = some own) {outer : List Keyword.Id}
    (hs : r.scope = entry.id :: outer) (dsl : String) (hd : r.enteredIn dsl ≠ [])
    (hlast : (leaveScope.run r).2.enteredIn dsl = []) :
    sameName own.dsl dsl = true ∧ entry.parent? = none := by
  have hentered := hn.enteredIn_leaveScope he hm hs dsl
  rw [hlast] at hentered
  have same : sameName own.dsl dsl = true := by
    by_contra hother
    rw [if_neg hother] at hentered
    exact hd hentered
  rw [if_pos same] at hentered
  have hpath := hn.path dsl
  rw [hentered] at hpath
  exact ⟨same, (hn.distinct.parent?_eq he).symm.trans hpath.1⟩

end Nested

end Registry
end KeywordScope
