import KeywordScope.Proofs.Registry.Composite
import KeywordScope.Proofs.Scope.Settled

/-!
# What may be visible

Over any table, and whether scopes are entered and left successfully or not: a visible member stands
right below the innermost entered one of its language, or is a root. Where a table refuses bindings,
not all of these need to be visible.

* `Displays`: only keywords that satisfy a condition are visible.
* `Under`: the keyword stands right below the innermost entered member of its language.
* `Beneath`: only such keywords are visible.
* `meets_enterScope_beneath`, `meets_leaveScope_beneath`: scopes keep this.
-/

namespace KeywordScope
namespace Registry

open Step

variable {τ : Type} {r r₀ : Registry τ} {S : List Keyword.Id} {id other : Keyword.Id}
  {own own' : Membership}

/-! ## Places in a language -/

theorem mem_of_membership? (h : r.membership? id = some own) :
    ∃ entry ∈ r.entries, entry.id = id ∧ entry.membership? = some own := by
  obtain ⟨entry, hf, hm⟩ := Option.bind_eq_some_iff.1 h
  obtain ⟨he, hid⟩ := mem_of_find? hf
  exact ⟨entry, he, hid, hm⟩

theorem Distinct.mem_children (hd : r.Distinct) :
    other ∈ r.children id ↔ ∃ own, r.membership? other = some own ∧ own.parent? = some id := by
  rw [Registry.mem_children]
  constructor
  · rintro ⟨entry, he, hp, rfl⟩
    obtain ⟨own, hown, hp⟩ := Entry.parent?_eq_some.1 hp
    exact ⟨own, (hd.membership?_eq he).trans hown, hp⟩
  · rintro ⟨own, hown, hp⟩
    obtain ⟨entry, he, hid, hm⟩ := mem_of_membership? hown
    exact ⟨entry, he, Entry.parent?_eq_some.2 ⟨own, hm, hp⟩, hid⟩

theorem Distinct.mem_siblings (hd : r.Distinct) (h : r.membership? id = some own) :
    other ∈ r.siblings id ↔ ∃ own', r.membership? other = some own' ∧
      sameName own'.dsl own.dsl = true ∧ own'.parent? = own.parent? := by
  rw [Registry.mem_siblings h]
  constructor
  · rintro ⟨entry, he, ⟨hin, hp⟩, rfl⟩
    obtain ⟨own', hown', same⟩ := Entry.isIn_iff.1 hin
    refine ⟨own', (hd.membership?_eq he).trans hown', same, ?_⟩
    rw [← hp, Entry.parent?, hown']
    rfl
  · rintro ⟨own', hown', same, hp⟩
    obtain ⟨entry, he, hid, hm⟩ := mem_of_membership? hown'
    refine ⟨entry, he, ⟨Entry.isIn_iff.2 ⟨own', hm, same⟩, ?_⟩, hid⟩
    rw [← hp, Entry.parent?, hm]
    rfl

/-- What stands right below a member is of its language. -/
theorem Forested.sameName_of_parent (hf : r.Forested) (h : r.membership? id = some own)
    (h' : r.membership? other = some own') (hp : own'.parent? = some id) :
    sameName own.dsl own'.dsl = true := by
  obtain ⟨above, ha, rfl, hm⟩ := mem_of_membership? h
  obtain ⟨entry, he, -, hm'⟩ := mem_of_membership? h'
  have hin := hf.isIn_of_parent he ha (Entry.parent?_eq_some.2 ⟨own', hm', hp⟩)
    (Entry.isIn_iff.2 ⟨own, hm, sameName_refl _⟩)
  obtain ⟨own'', hm'', same⟩ := Entry.isIn_iff.1 hin
  obtain rfl := Option.some.inj (hm'.symm.trans hm'')
  rwa [sameName_comm]

theorem enteredIn_sameName (r : Registry τ) {dsl dsl' : String} (same : sameName dsl dsl' = true) :
    r.enteredIn dsl = r.enteredIn dsl' := by
  simp only [enteredIn, sameName_congr same]

/-! ## Only some keywords are visible -/

theorem find?_setVisible (r : Registry τ) (ids : List Keyword.Id) (visible : Bool)
    (id : Keyword.Id) :
    (r.setVisible ids visible).find? id = (r.find? id).map fun entry =>
      if entry.id ∈ ids then entry.withVisible visible else entry := by
  have hid : ((·.id == id) ∘ fun entry : Entry =>
      if entry.id ∈ ids then entry.withVisible visible else entry) = (·.id == id) := by
    funext entry
    simp only [Function.comp_apply]
    split <;> rfl
  rw [find?, setVisible, List.find?_map, hid]
  rfl

theorem isVisible_setVisible (r : Registry τ) (ids : List Keyword.Id) (visible : Bool)
    (id : Keyword.Id) :
    (r.setVisible ids visible).isVisible id =
      if id ∈ ids then (r.find? id).isSome && visible else r.isVisible id := by
  rw [isVisible, isVisible, find?_setVisible]
  cases hf : r.find? id with
  | none => simp
  | some entry =>
    obtain ⟨-, rfl⟩ := mem_of_find? hf
    by_cases h : entry.id ∈ ids <;> simp [h, Entry.withVisible]

/-- The keywords are those of `r₀`, the scope stack is `S`, and only keywords that satisfy the
condition are visible. -/
structure Displays (r₀ : Registry τ) (S : List Keyword.Id) (P : Keyword.Id → Prop)
    (r : Registry τ) : Prop where
  outline_eq : r.outline = r₀.outline
  scope_eq : r.scope = S
  of_visible : ∀ id, r.isVisible id = true → P id

namespace Displays

variable {P Q : Keyword.Id → Prop}

theorem bindingFree : BindingFree (Displays r₀ S P) :=
  fun _ _ hr => ⟨hr.outline_eq, hr.scope_eq, hr.of_visible⟩

theorem mono (hr : Displays r₀ S P r) (h : ∀ id, P id → Q id) : Displays r₀ S Q r :=
  ⟨hr.outline_eq, hr.scope_eq, fun id hv => h id (hr.of_visible id hv)⟩

theorem setVisible (hr : Displays r₀ S P r) (h : P id) :
    Displays r₀ S P (r.setVisible [id] true) where
  outline_eq := (outline_setVisible r [id] true).trans hr.outline_eq
  scope_eq := hr.scope_eq
  of_visible other hv := by
    rw [isVisible_setVisible] at hv
    split at hv
    · next hmem => exact List.mem_singleton.1 hmem ▸ h
    · exact hr.of_visible other hv

variable [BindingTable τ]

theorem keeps_reveal (h : P id) : Keeps (Displays r₀ S P) (reveal id) :=
  Keeps.of_run fun r hr => by
    rcases r.reveal_cases id with hrun | ⟨entry, -, -, hrun⟩
    · rwa [hrun]
    · rw [hrun]
      exact (keeps_bindKeyword bindingFree entry.keyword).run (hr.setVisible h)

/-- Keywords that are hidden are not visible any more. -/
theorem meets_hide (ids : List Keyword.Id) (hm : ∀ id ∈ ids, r₀.isMember id = true)
    {E : KeywordError → Registry τ → Prop} :
    Meets (Displays r₀ S P) (ids.forM hide) (fun _ => Displays r₀ S fun id => P id ∧ id ∉ ids)
      E := by
  intro r hr
  rw [run_forM_hide ids fun id hid => (isMember_congr hr.outline_eq id).trans (hm id hid)]
  refine bindingFree _ _ ⟨(outline_setVisible r ids false).trans hr.outline_eq, hr.scope_eq, ?_⟩
  intro id hv
  rw [isVisible_setVisible] at hv
  split at hv
  · simp at hv
  · next hmem => exact ⟨hr.of_visible id hv, hmem⟩

end Displays

/-! ## What scopes show -/

/-- With this stack, the keyword stands right below the innermost entered member of its language, or
is a root if none is entered. Standalone keywords have no such place. -/
def Under (r₀ : Registry τ) (S : List Keyword.Id) (id : Keyword.Id) : Prop :=
  ∀ own, r₀.membership? id = some own →
    own.parent? = (enteredIn { r₀ with scope := S } own.dsl).head?

/-- Only keywords that stand right below what is entered are visible. -/
def Beneath (r₀ : Registry τ) (S : List Keyword.Id) : Registry τ → Prop :=
  Displays r₀ S (Under r₀ S)

/-- In its language, what stands right below the innermost member is under the stack. -/
theorem under_cons (h : r₀.membership? id = some own) (h' : r₀.membership? other = some own') :
    Under r₀ (id :: S) other ↔
      if sameName own.dsl own'.dsl then own'.parent? = some id else Under r₀ S other := by
  have hown : ∀ P : Membership → Prop,
      (∀ own'', r₀.membership? other = some own'' → P own'') ↔ P own' := by
    intro P
    constructor
    · exact fun hall => hall own' h'
    · rintro hp own'' h''
      rwa [← Option.some.inj (h'.symm.trans h'')]
  rw [Under, hown, Under, hown, enteredIn_cons h]
  split
  · rfl
  · rfl

namespace Beneath

variable {entry : Entry}

/-- What is visible stands under the stack. -/
theorem under_of_visible (hd : r₀.Distinct) (hr : Beneath r₀ S r) (he : entry ∈ r.entries)
    (hv : entry.visible = true) :
    r₀.membership? entry.id = entry.membership? ∧ Under r₀ S entry.id := by
  have hd' := hd.congr hr.outline_eq.symm
  refine ⟨?_, hr.of_visible entry.id ((hd'.isVisible_eq he).trans hv)⟩
  rw [← membership?_congr hr.outline_eq, hd'.membership?_eq he]

/-- All visible members of a language stand right below the same keyword, or all are roots. -/
theorem parent?_eq (hd : r₀.Distinct) (hr : Beneath r₀ S r) (he : entry ∈ r.entries)
    (hv : entry.visible = true) {dsl : String} (hin : entry.isIn dsl = true) :
    entry.parent? = (enteredIn { r₀ with scope := S } dsl).head? := by
  obtain ⟨hplace, hunder⟩ := hr.under_of_visible hd he hv
  obtain ⟨own, hown, same⟩ := Entry.isIn_iff.1 hin
  rw [Entry.parent?, hown, ← enteredIn_sameName _ same]
  exact hunder own (hplace.trans hown)

end Beneath

/-- Where no scope is entered, the visible members are roots. -/
theorem Settled.beneath (hr : r₀.Settled) : Beneath r₀ [] r₀ where
  outline_eq := rfl
  scope_eq := hr.scope_nil
  of_visible id hv own hown := by
    obtain ⟨entry, he, rfl, hm⟩ := mem_of_membership? hown
    rw [hr.distinct.isVisible_eq he, hr.visible_eq entry he, Option.isNone_iff_eq_none,
      Entry.parent?, hm] at hv
    rw [enteredIn_of_scope_nil rfl]
    exact hv

theorem meets_loadVisible_beneath [BindingTable τ] (hd : r₀.Distinct) (name : String) :
    Meets (Beneath r₀ S) (loadVisible name)
      (fun entry r => (r₀.membership? entry.id = entry.membership? ∧ Under r₀ S entry.id) ∧
        Beneath r₀ S r) fun _ => Beneath r₀ S := by
  refine Meets.get_bind fun r hr => ?_
  rcases hc : choose name (r.visibleNamed name) with e | entry
  · rintro _ rfl
    exact hr
  · obtain ⟨he, hlike⟩ := List.mem_filter.1 (mem_of_choose hc)
    have hfound := hr.under_of_visible hd he (Bool.and_eq_true_iff.1 hlike).1
    have hbind : Meets (· = r) (bindKeyword entry.keyword) (fun _ => Beneath r₀ S)
        fun _ => Beneath r₀ S :=
      (keeps_bindKeyword Displays.bindingFree entry.keyword).startingAt hr
    exact hbind.bind fun _ => Meets.pure fun _ hs => ⟨hfound, hs⟩

section Scopes

variable (hf : r₀.Forested) (h : r₀.membership? id = some own)

include hf h

theorem under_of_mem_children (hc : other ∈ r₀.children id) : Under r₀ (id :: S) other := by
  obtain ⟨own', hown', hp⟩ := hf.distinct.mem_children.1 hc
  rw [under_cons h hown', if_pos (hf.sameName_of_parent h hown' hp)]
  exact hp

theorem under_of_mem_siblings (hu : Under r₀ S id) (hs : other ∈ r₀.siblings id) :
    Under r₀ S other := by
  obtain ⟨own', hown', same, hp⟩ := (hf.distinct.mem_siblings h).1 hs
  intro own'' hown''
  obtain rfl := Option.some.inj (hown'.symm.trans hown'')
  rw [hp, hu own h, enteredIn_sameName _ same]

/-- Once its siblings are hidden, a member may be entered. -/
theorem under_cons_of_under (hu : Under r₀ S id) (ho : Under r₀ S other)
    (hs : other ∉ r₀.siblings id) : Under r₀ (id :: S) other := by
  intro own' hown'
  have hother : ¬ sameName own.dsl own'.dsl = true := by
    intro same
    have hp : own'.parent? = own.parent? := by
      rw [ho own' hown', hu own h, enteredIn_sameName _ same]
    exact hs ((hf.distinct.mem_siblings h).2 ⟨own', hown', by rwa [sameName_comm], hp⟩)
  exact (under_cons h hown').2 (by rwa [if_neg hother]) own' hown'

/-- Once what is below it is hidden, a member may be left. -/
theorem under_of_under_cons (ho : Under r₀ (id :: S) other) (hc : other ∉ r₀.children id) :
    Under r₀ S other := by
  intro own' hown'
  have hplace := (under_cons h hown').1 ho
  have hother : ¬ sameName own.dsl own'.dsl = true := by
    intro same
    rw [if_pos same] at hplace
    exact hc (hf.distinct.mem_children.2 ⟨own', hown', hplace⟩)
  rw [if_neg hother] at hplace
  exact hplace own' hown'

theorem isMember_of_mem_siblings (hs : other ∈ r₀.siblings id) : r₀.isMember other = true := by
  obtain ⟨own', hown', -⟩ := (hf.distinct.mem_siblings h).1 hs
  rw [isMember_eq, hown']
  rfl

variable [BindingTable τ]

/-- Leaving a member that stands under what was entered before it. -/
theorem meets_leaveScope_beneath (hu : Under r₀ S id) :
    Meets (Beneath r₀ (id :: S)) leaveScope (fun left r => left = id ∧ Beneath r₀ S r)
      fun _ => Beneath r₀ S := by
  have hend : Meets (Beneath r₀ S) (do rebindStandalones; return id : Action τ Keyword.Id)
      (fun left r => left = id ∧ Beneath r₀ S r) fun _ => Beneath r₀ S :=
    Meets.bind (keeps_rebindStandalones Displays.bindingFree) fun _ => Meets.pure fun _ hr => ⟨rfl, hr⟩
  refine Meets.get_bind fun r hr => ?_
  rw [hr.scope_eq]
  refine Meets.bind (Meets.modify (R := Displays r₀ S (Under r₀ (id :: S))) ?_) fun _ => ?_
  · rintro _ rfl
    exact ⟨hr.outline_eq, rfl, hr.of_visible⟩
  refine Meets.get_bind fun popped hs => ?_
  have hmember : popped.isMember id = true := by
    rw [isMember_congr hs.outline_eq, isMember_eq, h]
    rfl
  rw [if_pos hmember]
  refine Meets.get_bind ?_
  rintro s rfl
  -- What is below the member is hidden, and what is next to it shown.
  have hhide : Meets (· = s) ((s.children id).forM hide) (fun _ => Beneath r₀ S)
      fun _ => Beneath r₀ S := by
    rw [children_congr hs.outline_eq]
    refine (Displays.meets_hide _ ?_).conseq (fun _ he => he ▸ hs) ?_ fun _ _ hr => hr
    · intro child hc
      obtain ⟨own', hown', -⟩ := hf.distinct.mem_children.1 hc
      rw [isMember_eq, hown']
      rfl
    · exact fun _ _ hr => hr.mono fun _ ho => under_of_under_cons hf h ho.1 ho.2
  refine hhide.bind fun _ => Meets.get_bind fun t ht => ?_
  have hshow : Meets (· = t) ((t.siblings id).forM reveal) (fun _ => Beneath r₀ S)
      fun _ => Beneath r₀ S := by
    rw [siblings_congr ht.outline_eq]
    exact (Keeps.forM_of_mem fun sibling hsibling =>
      Displays.keeps_reveal (under_of_mem_siblings hf h hu hsibling)).startingAt ht
  exact hshow.bind fun _ => hend

/-- Showing what is below a member that stands under what was entered before it. -/
theorem meets_openScope_beneath (hu : Under r₀ S id) :
    Meets (Displays r₀ (id :: S) (Under r₀ S)) (openScope id) (fun _ => Beneath r₀ (id :: S))
      fun _ => Beneath r₀ (id :: S) := by
  refine Meets.get_bind fun r hr => ?_
  have hhide : Meets (· = r) ((r.siblings id).forM hide) (fun _ => Beneath r₀ (id :: S))
      fun _ => Beneath r₀ (id :: S) := by
    rw [siblings_congr hr.outline_eq]
    refine (Displays.meets_hide _ fun sibling => isMember_of_mem_siblings hf h).conseq
      (fun _ he => he ▸ hr) ?_ fun _ _ hr => hr
    exact fun _ _ hr => hr.mono fun _ ho => under_cons_of_under hf h hu ho.1 ho.2
  refine hhide.bind fun _ => Meets.get_bind fun t ht => Keeps.startingAt ?_ ht
  rw [children_congr ht.outline_eq]
  exact Keeps.forM_of_mem fun child hc => Displays.keeps_reveal (under_of_mem_children hf h hc)

/-- A member is entered, or left again if that fails. -/
theorem meets_enterScope_beneath (hu : Under r₀ S id) :
    Meets (Beneath r₀ S) (enterScope id) (fun _ => Beneath r₀ (id :: S)) fun _ => Beneath r₀ S :=
  meets_enterScope_of
    (fun _ hr => ⟨hr.outline_eq, congrArg _ hr.scope_eq, hr.of_visible⟩)
    (meets_openScope_beneath hf h hu)
    ((meets_leaveScope_beneath hf h hu).conseq (fun _ hr => hr) (fun _ _ hr => hr.2)
      fun _ _ hr => hr)

end Scopes

end Registry
end KeywordScope
