import KeywordScope.Proofs.Scope.Beneath
import KeywordScope.Proofs.Scope.Lifo
import KeywordScope.Proofs.Scope.Resets
import Mathlib.Data.List.Pairwise

/-!
# Removals within scopes

A member may be removed while its scope is entered. When that scope is left there is nothing to
undo: neither are the siblings of the member shown again, nor is hidden what stands right below it.
Once no scope is entered any more, this is what remains.

* `RemovalRun`: members are entered and left, and entered members removed.
* `Torn`: a sibling of the member was removed, and what stands above them not entered since.
* `Ongoing`: what holds at every point of such a run.
* `visible_after_removals`: what is visible in the end.
-/

namespace KeywordScope
namespace Registry

open Step

variable {τ : Type} {r s : Registry τ} {id other parent : Keyword.Id} {own : Membership}

/-! ## Siblings -/

theorem Distinct.mem_siblings_self (hd : r.Distinct) (hm : r.isMember id = true) :
    id ∈ r.siblings id := by
  obtain ⟨own, hown⟩ := Option.isSome_iff_exists.1 (Registry.isMember_eq r id ▸ hm)
  exact (hd.mem_siblings hown).2 ⟨own, hown, sameName_refl _, rfl⟩

theorem Distinct.exists_of_mem_siblings (hd : r.Distinct) (h : other ∈ r.siblings id) :
    ∃ own own', r.membership? id = some own ∧ r.membership? other = some own' ∧
      sameName own'.dsl own.dsl = true ∧ own'.parent? = own.parent? := by
  cases hown : r.membership? id with
  | none =>
    rw [siblings, hown] at h
    cases h
  | some own =>
    obtain ⟨own', hown', same, hp⟩ := (hd.mem_siblings hown).1 h
    exact ⟨own, own', rfl, hown', same, hp⟩

/-- Siblings have the same siblings. -/
theorem Distinct.siblings_eq (hd : r.Distinct) (h : other ∈ r.siblings id) :
    r.siblings other = r.siblings id := by
  obtain ⟨own, own', hown, hown', same, hp⟩ := hd.exists_of_mem_siblings h
  simp only [siblings, hown, hown', hp, Entry.isIn, sameName_congr same]

theorem Distinct.mem_siblings_comm (hd : r.Distinct) :
    other ∈ r.siblings id ↔ id ∈ r.siblings other := by
  have hself : ∀ {id other}, other ∈ r.siblings id → id ∈ r.siblings other := by
    intro id other h
    obtain ⟨own, -, hown, -⟩ := hd.exists_of_mem_siblings h
    rw [hd.siblings_eq h]
    exact hd.mem_siblings_self (by rw [Registry.isMember_eq, hown]; rfl)
  exact ⟨hself, hself⟩

/-- Siblings stand right below the same keyword. -/
theorem Distinct.parent?_eq_of_sibling (hd : r.Distinct) (h : other ∈ r.siblings id) :
    r.parent? other = r.parent? id := by
  obtain ⟨own, own', hown, hown', -, hp⟩ := hd.exists_of_mem_siblings h
  simp only [parent?, hown, hown', Option.bind_some, hp]

theorem exists_of_parent? (h : r.parent? id = some parent) :
    ∃ own, r.membership? id = some own ∧ own.parent? = some parent :=
  Option.bind_eq_some_iff.1 h

namespace Forested

/-- What stands above a keyword is a member of the same language. -/
theorem exists_above (hf : r.Forested) (hown : r.membership? id = some own)
    (hp : own.parent? = some parent) :
    ∃ place, r.membership? parent = some place ∧ sameName place.dsl own.dsl = true := by
  obtain ⟨entry, he, -, hm⟩ := mem_of_membership? hown
  obtain ⟨above, ha, rfl, hin⟩ := hf.parent_in entry he parent
    (Entry.parent?_eq_some.2 ⟨own, hm, hp⟩) own.dsl (Entry.isIn_iff.2 ⟨own, hm, sameName_refl _⟩)
  obtain ⟨place, hplace, same⟩ := Entry.isIn_iff.1 hin
  exact ⟨place, (hf.distinct.membership?_eq ha).trans hplace, same⟩

theorem isMember_of_parent? (hf : r.Forested) (h : r.parent? id = some parent) :
    r.isMember parent = true := by
  obtain ⟨own, hown, hp⟩ := exists_of_parent? h
  obtain ⟨place, hplace, -⟩ := hf.exists_above hown hp
  rw [Registry.isMember_eq, hplace]
  rfl

/-- What stands right below one keyword are siblings. -/
theorem mem_siblings_of_parent (hf : r.Forested) (h : r.parent? id = some parent)
    (h' : r.parent? other = some parent) : other ∈ r.siblings id := by
  obtain ⟨own, hown, hp⟩ := exists_of_parent? h
  obtain ⟨own', hown', hp'⟩ := exists_of_parent? h'
  obtain ⟨place, hplace, same⟩ := hf.exists_above hown hp
  have same' := hf.sameName_of_parent hplace hown' hp'
  refine (hf.distinct.mem_siblings hown).2 ⟨own', hown', ?_, hp'.trans hp.symm⟩
  exact sameName_trans (by rwa [sameName_comm]) same

/-- No keyword stands right below one of its siblings. -/
theorem parent?_ne_sibling (hf : r.Forested) (h : other ∈ r.siblings id) :
    r.parent? id ≠ some other := by
  intro hp
  obtain ⟨own, hown, hp⟩ := exists_of_parent? ((hf.distinct.parent?_eq_of_sibling h).trans hp)
  obtain ⟨entry, he, rfl, hm⟩ := mem_of_membership? hown
  exact absurd (hf.parent_lt entry he entry.id (Entry.parent?_eq_some.2 ⟨own, hm, hp⟩))
    (Nat.lt_irrefl _)

end Forested

/-! ## Runs -/

/-- What is done in a run. -/
inductive ScopeAct where
  | enter (id : Keyword.Id)
  | remove (id : Keyword.Id)
  | leave
  deriving DecidableEq, Repr

variable {acts : List ScopeAct} {outer : List Keyword.Id}

/-- Visible keywords are entered, entered ones are removed, and scopes are left. What is done is
listed with the latest first. It counts whether it succeeds or not. -/
inductive RemovalRun [BindingTable τ] (r : Registry τ) : List ScopeAct → Registry τ → Prop where
  | start : RemovalRun r [] r
  | enter {acts : List ScopeAct} {s : Registry τ} (run : RemovalRun r acts s) (id : Keyword.Id)
      (hv : s.isVisible id = true) :
      RemovalRun r (.enter id :: acts) ((enterScope id).run s).2
  | remove {acts : List ScopeAct} {s : Registry τ} (run : RemovalRun r acts s) (id : Keyword.Id)
      (hentered : id ∈ s.scope) : RemovalRun r (.remove id :: acts) ((unregister id).run s).2
  | leave {acts : List ScopeAct} {s : Registry τ} (run : RemovalRun r acts s) (hs : s.scope ≠ []) :
      RemovalRun r (.leave :: acts) (leaveScope.run s).2

/-- A sibling of the member was removed, and what stands above them was not entered since. -/
def Torn (r : Registry τ) (acts : List ScopeAct) (id : Keyword.Id) : Prop :=
  ∃ since gone before, acts = since ++ .remove gone :: before ∧ gone ∈ r.siblings id ∧
    ∀ parent, r.parent? id = some parent → .enter parent ∉ since

theorem torn_cons (act : ScopeAct) :
    r.Torn (act :: acts) id ↔ (∃ gone ∈ r.siblings id, act = .remove gone) ∨
      (r.Torn acts id ∧ ∀ parent, r.parent? id = some parent → act ≠ .enter parent) := by
  constructor
  · rintro ⟨_ | ⟨_, since⟩, gone, before, heq, hgone, hsince⟩
    · obtain ⟨rfl, -⟩ := List.cons_eq_cons.1 heq
      exact .inl ⟨gone, hgone, rfl⟩
    · obtain ⟨rfl, rfl⟩ := List.cons_eq_cons.1 heq
      refine .inr ⟨⟨since, gone, before, rfl, hgone, fun parent hp hmem =>
        hsince parent hp (List.mem_cons_of_mem _ hmem)⟩, fun parent hp heq => ?_⟩
      exact hsince parent hp (heq ▸ List.mem_cons_self)
  · rintro (⟨gone, hgone, rfl⟩ | ⟨⟨since, gone, before, rfl, hgone, hsince⟩, hact⟩)
    · exact ⟨[], gone, acts, rfl, hgone, fun _ _ => List.not_mem_nil⟩
    · refine ⟨act :: since, gone, before, rfl, hgone, fun parent hp hmem => ?_⟩
      rcases List.mem_cons.1 hmem with heq | hmem
      · exact hact parent hp heq.symm
      · exact hsince parent hp hmem

theorem torn_enter :
    r.Torn (.enter other :: acts) id ↔ r.Torn acts id ∧ r.parent? id ≠ some other := by
  rw [torn_cons]
  simp only [reduceCtorEq, and_false, exists_false, false_or, ne_eq, ScopeAct.enter.injEq]
  exact and_congr_right fun _ => ⟨fun h hp => h other hp rfl, fun h parent hp heq => h (heq ▸ hp)⟩

theorem torn_remove :
    r.Torn (.remove other :: acts) id ↔ other ∈ r.siblings id ∨ r.Torn acts id := by
  rw [torn_cons]
  simp

theorem torn_leave : r.Torn (.leave :: acts) id ↔ r.Torn acts id := by
  rw [torn_cons]
  simp

/-- Siblings are torn together. -/
theorem Distinct.torn_congr (hd : r.Distinct) (h : other ∈ r.siblings id) :
    r.Torn acts other ↔ r.Torn acts id := by
  rw [Torn, Torn, hd.siblings_eq h, hd.parent?_eq_of_sibling h]

/-! ## At every point of a run -/

/-- The keywords that were not removed are where they were. -/
structure Remaining (r : Registry τ) (acts : List ScopeAct) (s : Registry τ) : Prop where
  distinct : s.Distinct
  named : ∀ entry ∈ s.entries, entry.isMember = true → entry.keyword.name ≠ ""
  place : ∀ id, s.membership? id = if .remove id ∈ acts then none else r.membership? id
  gone : ∀ entry ∈ s.entries, .remove entry.id ∉ acts

/-- What holds at every point of a run that starts at rest. -/
structure Ongoing (r : Registry τ) (acts : List ScopeAct) (s : Registry τ) : Prop
    extends r.Remaining acts s where
  entered_member : ∀ id ∈ s.scope, r.isMember id = true
  /-- No sibling of an entered keyword is entered. -/
  apart : s.scope.Pairwise fun inner outer => outer ∉ r.siblings inner
  /-- What stands above an entered keyword was entered before it, unless it was removed. -/
  below : ∀ id outer, id :: outer <:+ s.scope → ∀ parent, r.parent? id = some parent →
    parent ∈ outer ∨ .remove parent ∈ acts
  /-- Siblings of an entered keyword are hidden, and if any of them was removed, it was this one. -/
  hidden : ∀ top ∈ s.scope, ∀ id ∈ r.siblings top, s.isMember id = true →
    s.isVisible id = false ∧ (r.Torn acts id ↔ .remove top ∈ acts)
  /-- Other members are visible if what stands above them is entered, or was removed, and no sibling
  of them was removed since. -/
  shown : ∀ id, s.isMember id = true → (∀ top ∈ s.scope, id ∉ r.siblings top) →
    (s.isVisible id = true ↔ ¬ r.Torn acts id ∧ ∀ parent, r.parent? id = some parent →
      parent ∈ s.scope ∨ .remove parent ∈ acts)

namespace Remaining

variable {acts' : List ScopeAct} {s' : Registry τ}

theorem congr (h : r.Remaining acts s) (ho : s.outline = s'.outline)
    (hacts : ∀ id, ScopeAct.remove id ∈ acts' ↔ .remove id ∈ acts) : r.Remaining acts' s' where
  distinct := h.distinct.congr ho
  named entry' he' hm := by
    obtain ⟨entry, he, same⟩ := exists_mem_of_outline ho.symm he'
    rw [← Entry.keyword_congr same]
    exact h.named entry he ((Entry.isMember_congr same).trans hm)
  place id := by
    rw [← membership?_congr ho, h.place]
    simp only [hacts]
  gone entry' he' := by
    obtain ⟨entry, he, same⟩ := exists_mem_of_outline ho.symm he'
    rw [hacts, ← Entry.id_congr same]
    exact h.gone entry he

theorem isMember_iff (h : r.Remaining acts s) :
    s.isMember id = true ↔ r.isMember id = true ∧ .remove id ∉ acts := by
  rw [isMember_eq, isMember_eq, h.place]
  by_cases hgone : ScopeAct.remove id ∈ acts <;> simp [hgone]

theorem mem_siblings (h : r.Remaining acts s) (hd : r.Distinct) (hkept : .remove id ∉ acts)
    (hm : s.isMember other = true) : other ∈ s.siblings id ↔ other ∈ r.siblings id := by
  have hplace : s.membership? other = r.membership? other := by
    rw [h.place, if_neg (h.isMember_iff.1 hm).2]
  have hown : s.membership? id = r.membership? id := by rw [h.place, if_neg hkept]
  cases hmember : r.membership? id with
  | none => simp only [siblings, hown, hmember]
  | some own =>
    rw [h.distinct.mem_siblings (hown.trans hmember), hd.mem_siblings hmember, hplace]

theorem mem_children (h : r.Remaining acts s) (hm : s.isMember other = true) :
    other ∈ s.children id ↔ r.parent? other = some id := by
  rw [h.distinct.mem_children, h.place, if_neg (h.isMember_iff.1 hm).2, parent?,
    Option.bind_eq_some_iff]

end Remaining

theorem find?_without (s : Registry τ) (id other : Keyword.Id) :
    (s.without (·.id == id)).find? other = if other = id then none else s.find? other := by
  rw [find?, find?, without, List.find?_filter]
  by_cases hid : other = id
  · rw [if_pos hid, List.find?_eq_none]
    intro entry _
    simp [hid]
  · rw [if_neg hid]
    congr 1
    funext entry
    by_cases hentry : entry.id = other
    · simp [hentry, hid]
    · simp [hentry]

theorem Remaining.without (h : r.Remaining acts s) (id : Keyword.Id) (t : τ) :
    r.Remaining (.remove id :: acts) ((s.without (·.id == id)).withBindings t) where
  distinct := h.distinct.without _
  named entry he := h.named entry (mem_without.1 he).1
  place other := by
    have hfind : ((s.without (·.id == id)).withBindings t).find? other =
        if other = id then none else s.find? other := s.find?_without id other
    rw [membership?, hfind]
    by_cases hid : other = id
    · simp [hid]
    · rw [if_neg hid]
      exact (h.place other).trans (by simp [hid])
  gone entry he hmem := by
    obtain ⟨he, hid⟩ := mem_without.1 he
    rcases List.mem_cons.1 hmem with heq | hmem
    · simp [ScopeAct.remove.inj heq] at hid
    · exact h.gone entry he hmem

/-- What is visible once some keywords are hidden, and then others shown. -/
theorem isVisible_switch {hidden shown : List Keyword.Id} (hm : s.isMember id = true) :
    ((s.setVisible hidden false).setVisible shown true).isVisible id =
      if id ∈ shown then true else if id ∈ hidden then false else s.isVisible id := by
  obtain ⟨entry, hf, -⟩ := isMember_iff.1 hm
  rw [isVisible_setVisible, find?_setVisible, isVisible_setVisible, hf]
  simp

namespace Ongoing

theorem start (hn : r.Nested) (hs : r.scope = []) : r.Ongoing [] r where
  distinct := hn.distinct
  named := hn.named
  place id := by simp
  gone _ _ := List.not_mem_nil
  entered_member id hid := absurd hid (hs ▸ List.not_mem_nil)
  apart := hs ▸ List.Pairwise.nil
  below id outer hsuffix := by simp [hs] at hsuffix
  hidden top htop := absurd htop (hs ▸ List.not_mem_nil)
  shown id hm _ := by
    obtain ⟨entry, he, rfl, own, hown⟩ := Nested.mem_of_isMember hm
    have hvisible := hn.member_visible entry he own.dsl
      (Entry.isIn_iff.2 ⟨own, hown, sameName_refl _⟩)
    have htorn : ¬ r.Torn [] entry.id := by simp [Torn]
    rw [hn.distinct.isVisible_eq he, hn.distinct.parent?_eq he, hvisible, enteredIn, hs]
    cases hp : entry.parent? <;> simp [htorn]

/-- What stands above an entered keyword is entered, too, unless it was removed. -/
theorem above_of_mem (h : r.Ongoing acts s) (hsuffix : outer <:+ s.scope) (hid : id ∈ outer)
    (hp : r.parent? id = some parent) : parent ∈ outer ∨ .remove parent ∈ acts := by
  obtain ⟨inner, further, rfl⟩ := List.append_of_mem hid
  refine (h.below id further ((List.suffix_append inner _).trans hsuffix) parent hp).imp_left ?_
  exact fun hfurther => List.mem_append_right _ (List.mem_cons_of_mem _ hfurther)

/-- Only one of some siblings is entered. -/
theorem eq_of_siblings (hd : r.Distinct) (h : r.Ongoing acts s) (hid : id ∈ s.scope)
    (hother : other ∈ s.scope) (hsibling : other ∈ r.siblings id) : id = other := by
  by_contra hne
  have hsymm : Std.Symm fun inner outer => outer ∉ r.siblings inner :=
    ⟨fun _ _ hnot hmem => hnot (hd.mem_siblings_comm.1 hmem)⟩
  exact h.apart.forall hid hother hne hsibling

variable [BindingTable τ]

/-- A standalone keyword cannot be entered. -/
theorem enter_standalone (hf : r.Forested) (h : r.Ongoing acts s) (hm : s.isMember id = false)
    (hv : s.isVisible id = true) :
    r.Ongoing (.enter id :: acts) ((enterScope id).run s).2 := by
  obtain ⟨entry, hfind, -⟩ := (Option.any_eq_true _ _).1 hv
  obtain ⟨he, rfl⟩ := mem_of_find? hfind
  have hmember : entry.isMember = false := (h.distinct.isMember_eq he).symm.trans hm
  have hrun : ((enterScope entry.id).run s).2 = s := by
    rw [enterScope, run_bind_ok (run_getEntry hfind)]
    simp only [hmember, Bool.false_eq_true, ↓reduceIte]
    rfl
  have hchildless : ∀ other, r.parent? other ≠ some entry.id := by
    intro other hp
    rw [h.isMember_iff.2 ⟨hf.isMember_of_parent? hp, h.gone entry he⟩] at hm
    cases hm
  rw [hrun]
  refine { h.toRemaining.congr rfl (by simp) with
    entered_member := h.entered_member, apart := h.apart, below := ?_, hidden := ?_, shown := ?_ }
  · intro other outer hsuffix parent hp
    exact (h.below other outer hsuffix parent hp).imp_right (List.mem_cons_of_mem _)
  · intro top htop other hother hm
    simpa [torn_enter, hchildless other] using h.hidden top htop other hother hm
  · intro other hm hother
    simpa [torn_enter, hchildless other] using h.shown other hm hother

/-- An entered keyword is removed, if it was not before. -/
theorem remove (hf : r.Forested) (h : r.Ongoing acts s) (hentered : id ∈ s.scope) :
    r.Ongoing (.remove id :: acts) ((unregister id).run s).2 := by
  obtain ⟨t, hrun⟩ : ∃ t, ((unregister id).run s).2 =
      (s.without (·.id == id)).withBindings t := by
    rcases s.unregister_cases id with ⟨hnone, hrun⟩ | ⟨entry, -, -, hrun⟩
    · exact ⟨s.bindings, by rw [hrun, without_of_forall hnone]; rfl⟩
    · exact ⟨_, hrun⟩
  rw [hrun]
  let s' : Registry τ := (s.without (·.id == id)).withBindings t
  have hfind : ∀ other, s'.find? other = if other = id then none else s.find? other :=
    s.find?_without id
  have hstays : ∀ {other}, s'.isMember other = true → other ≠ id ∧ s.isMember other = true := by
    intro other hm
    rw [isMember, hfind] at hm
    split at hm
    · cases hm
    · next hne => exact ⟨hne, hm⟩
  have hvisible : ∀ other, other ≠ id → s'.isVisible other = s.isVisible other := by
    intro other hne
    rw [isVisible, hfind, if_neg hne, isVisible]
  show r.Ongoing (.remove id :: acts) s'
  refine { h.toRemaining.without id t with
    entered_member := h.entered_member, apart := h.apart, below := ?_, hidden := ?_, shown := ?_ }
  · intro other outer hsuffix parent hp
    exact (h.below other outer hsuffix parent hp).imp_right (List.mem_cons_of_mem _)
  · intro top htop other hother hm'
    obtain ⟨hne, hm⟩ := hstays hm'
    obtain ⟨hhidden, htorn⟩ := h.hidden top htop other hother hm
    refine ⟨(hvisible other hne).trans hhidden, ?_⟩
    have hsibling : id ∈ r.siblings other ↔ top = id := by
      rw [hf.distinct.siblings_eq hother]
      constructor
      · exact h.eq_of_siblings hf.distinct htop hentered
      · rintro rfl
        exact hf.distinct.mem_siblings_self (h.entered_member top hentered)
    rw [torn_remove, htorn, hsibling, List.mem_cons, ScopeAct.remove.injEq]
  · intro other hm' hother
    obtain ⟨hne, hm⟩ := hstays hm'
    have hsibling : id ∉ r.siblings other := fun hmem =>
      hother id hentered (hf.distinct.mem_siblings_comm.1 hmem)
    rw [hvisible other hne, h.shown other hm hother, torn_remove]
    refine and_congr (by simp [hsibling]) (forall₂_congr fun parent _ => ?_)
    constructor
    · exact Or.imp_right (List.mem_cons_of_mem _)
    · rintro (hmem | hmem)
      · exact .inl hmem
      · rcases List.mem_cons.1 hmem with heq | hmem
        · exact .inl (ScopeAct.remove.inj heq ▸ hentered)
        · exact .inr hmem

omit [BindingTable τ] in
/-- What is known of the stack stays true when the innermost scope is left. -/
theorem leave_of {s' : Registry τ} (h : r.Ongoing acts s) (hs : s.scope = id :: outer)
    (ho : s.outline = s'.outline) (hs' : s'.scope = outer)
    (hidden : ∀ top ∈ outer, ∀ id ∈ r.siblings top, s.isMember id = true →
      s'.isVisible id = false ∧ (r.Torn acts id ↔ .remove top ∈ acts))
    (shown : ∀ id, s.isMember id = true → (∀ top ∈ outer, id ∉ r.siblings top) →
      (s'.isVisible id = true ↔ ¬ r.Torn acts id ∧ ∀ parent, r.parent? id = some parent →
        parent ∈ outer ∨ .remove parent ∈ acts)) :
    r.Ongoing (.leave :: acts) s' where
  toRemaining := h.toRemaining.congr ho (by simp)
  entered_member other hother := h.entered_member other (hs ▸ List.mem_cons_of_mem _ (hs' ▸ hother))
  apart := hs' ▸ (List.pairwise_cons.1 (hs ▸ h.apart)).2
  below other further hsuffix parent hp := by
    rw [hs'] at hsuffix
    exact (h.below other further (hs ▸ hsuffix.trans (List.suffix_cons id outer)) parent hp).imp_right
      (List.mem_cons_of_mem _)
  hidden top htop other hother hm := by
    simpa [torn_leave] using
      hidden top (hs' ▸ htop) other hother ((isMember_congr ho other).trans hm)
  shown other hm hother := by
    rw [hs'] at hother
    simpa [torn_leave, hs'] using shown other ((isMember_congr ho other).trans hm) hother

/-- The scope of a keyword that was removed is left with nothing to undo. -/
theorem leave_removed (h : r.Ongoing acts s) (hs : s.scope = id :: outer)
    (hgone : .remove id ∈ acts) : r.Ongoing (.leave :: acts) (leaveScope.run s).2 := by
  have hm : isMember { s with scope := outer } id = false := by
    rw [isMember_eq]
    show (s.membership? id).isSome = false
    rw [h.place, if_pos hgone]
    rfl
  obtain ⟨t, hrun⟩ : ∃ t, (leaveScope.run s).2 = withBindings { s with scope := outer } t := by
    have hend : Keeps (fun s' => ∃ t, s' = withBindings { s with scope := outer } t)
        (do rebindStandalones; return id : Action τ Keyword.Id) :=
      (keeps_rebindStandalones (bindingFree_withBindings _)).bind fun _ => Keeps.pure _
    rw [leaveScope, run_bind_ok (run_get s)]
    simp only [hs]
    rw [run_bind_ok (run_modify _ s), run_bind_ok (run_get _)]
    simp only [hm, Bool.false_eq_true, ↓reduceIte]
    exact hend.run ⟨s.bindings, rfl⟩
  rw [hrun]
  have hvisible : ∀ other, (withBindings { s with scope := outer } t).isVisible other =
      s.isVisible other := fun _ => rfl
  refine h.leave_of hs rfl rfl (fun top htop other hother hm => ?_) fun other hm hother => ?_
  · exact h.hidden top (hs ▸ List.mem_cons_of_mem _ htop) other hother hm
  · rw [hvisible]
    by_cases hsibling : other ∈ r.siblings id
    · obtain ⟨hhidden, htorn⟩ := h.hidden id (hs ▸ List.mem_cons_self) other hsibling hm
      rw [hhidden]
      exact iff_of_false Bool.false_ne_true fun hwhole => hwhole.1 (htorn.2 hgone)
    · rw [h.shown other hm (by simpa [hs, hsibling] using hother)]
      refine and_congr_right fun _ => forall₂_congr fun parent _ => ?_
      rw [hs, List.mem_cons]
      constructor
      · rintro ((rfl | hmem) | hmem)
        · exact .inr hgone
        · exact .inl hmem
        · exact .inr hmem
      · exact Or.imp_left .inr

/-- The scope of a keyword that is registered is left by hiding what stands right below it, and
showing its siblings. -/
theorem leave_kept [BindingTable.Lenient τ] (hf : r.Forested) (h : r.Ongoing acts s)
    (hs : s.scope = id :: outer) (hkept : .remove id ∉ acts) :
    r.Ongoing (.leave :: acts) (leaveScope.run s).2 := by
  have hmember : r.isMember id = true := h.entered_member id (hs ▸ List.mem_cons_self)
  have hself := hf.distinct.mem_siblings_self hmember
  obtain ⟨hapart, -⟩ := List.pairwise_cons.1 (hs ▸ h.apart)
  have houter : id ∉ outer := fun hid => hapart id hid hself
  obtain ⟨t, hrun⟩ := run_leaveScope_reset h.distinct (h.isMember_iff.2 ⟨hmember, hkept⟩) hs
    (grantsSiblings_of_named h.distinct h.named id)
  rw [hrun]
  let s' : Registry τ := withBindings { s.reset id with scope := outer } t
  have ho : s.outline = s'.outline :=
    ((outline_setVisible _ _ _).trans (outline_setVisible _ _ _)).symm
  have hvisible : ∀ other, s.isMember other = true → s'.isVisible other =
      if other ∈ r.siblings id then true else if r.parent? other = some id then false
        else s.isVisible other := by
    intro other hm
    simp only [← h.mem_children hm, ← h.mem_siblings hf.distinct hkept hm]
    exact isVisible_switch hm
  show r.Ongoing (.leave :: acts) s'
  refine h.leave_of hs ho rfl (fun top htop other hother hm => ?_) fun other hm hother => ?_
  · have hbeside : other ∉ r.siblings id := by
      intro hsibling
      rw [← hf.distinct.siblings_eq hsibling, hf.distinct.siblings_eq hother] at hapart
      exact hapart top htop (hf.distinct.mem_siblings_self (h.entered_member top
        (hs ▸ List.mem_cons_of_mem _ htop)))
    have hbelow : r.parent? other ≠ some id := by
      rw [hf.distinct.parent?_eq_of_sibling hother]
      exact fun hp => (h.above_of_mem (hs ▸ List.suffix_cons id outer) htop hp).elim houter hkept
    rw [hvisible other hm, if_neg hbeside, if_neg hbelow]
    exact h.hidden top (hs ▸ List.mem_cons_of_mem _ htop) other hother hm
  · rw [hvisible other hm]
    by_cases hsibling : other ∈ r.siblings id
    · obtain ⟨-, htorn⟩ := h.hidden id (hs ▸ List.mem_cons_self) other hsibling hm
      rw [if_pos hsibling]
      refine iff_of_true rfl ⟨fun hwhole => hkept (htorn.1 hwhole), fun parent hp => ?_⟩
      rw [hf.distinct.parent?_eq_of_sibling hsibling] at hp
      exact h.below id outer (hs ▸ List.suffix_refl _) parent hp
    · rw [if_neg hsibling]
      by_cases hp : r.parent? other = some id
      · rw [if_pos hp]
        refine iff_of_false Bool.false_ne_true fun hall => ?_
        exact (hall.2 id hp).elim houter hkept
      · rw [if_neg hp, h.shown other hm (by simpa [hs, hsibling] using hother)]
        refine and_congr_right fun _ => forall₂_congr fun parent hparent => ?_
        have hne : parent ≠ id := by
          rintro rfl
          exact hp hparent
        rw [hs, List.mem_cons, or_iff_right hne]

/-- A visible member is entered. -/
theorem enter [BindingTable.Lenient τ] (hf : r.Forested) (h : r.Ongoing acts s)
    (hm : s.isMember id = true) (hv : s.isVisible id = true) :
    r.Ongoing (.enter id :: acts) ((enterScope id).run s).2 := by
  obtain ⟨hmember, hkept⟩ := h.isMember_iff.1 hm
  have hself := hf.distinct.mem_siblings_self hmember
  -- No sibling of what is visible is entered, and so nothing that stands below it.
  have hfree : ∀ top ∈ s.scope, id ∉ r.siblings top := by
    intro top htop hsibling
    rw [(h.hidden top htop id hsibling hm).1] at hv
    cases hv
  obtain ⟨hwhole, habove⟩ := (h.shown id hm hfree).1 hv
  have hchildless : ∀ top ∈ s.scope, r.parent? top ≠ some id := by
    intro top htop hp
    exact (h.above_of_mem (List.suffix_refl _) htop hp).elim (fun hid => hfree id hid hself) hkept
  rw [run_enterScope_switch h.distinct h.named hm]
  let s' : Registry τ := withBindings
    { (s.setVisible (s.siblings id) false).setVisible (s.children id) true
      with scope := id :: s.scope } (s.switchNames (s.siblings id) (s.children id))
  have ho : s.outline = s'.outline :=
    ((outline_setVisible _ _ _).trans (outline_setVisible _ _ _)).symm
  have hvisible : ∀ other, s.isMember other = true → s'.isVisible other =
      if r.parent? other = some id then true else if other ∈ r.siblings id then false
        else s.isVisible other := by
    intro other hm
    simp only [← h.mem_children hm, ← h.mem_siblings hf.distinct hkept hm]
    exact isVisible_switch hm
  have hkept' : r.Remaining (.enter id :: acts) s' := h.toRemaining.congr ho (by simp)
  show r.Ongoing (.enter id :: acts) s'
  refine { hkept' with
    entered_member := ?_, apart := ?_, below := ?_, hidden := ?_, shown := ?_ }
  · intro other hother
    rcases List.mem_cons.1 hother with rfl | hother
    · exact hmember
    · exact h.entered_member other hother
  · refine List.pairwise_cons.2 ⟨fun outer houter hsibling => ?_, h.apart⟩
    exact hfree outer houter (hf.distinct.mem_siblings_comm.1 hsibling)
  · intro other outer hsuffix parent hp
    rcases List.suffix_cons_iff.1 hsuffix with heq | hsuffix
    · obtain ⟨rfl, rfl⟩ := List.cons_eq_cons.1 heq
      exact (habove parent hp).imp_right (List.mem_cons_of_mem _)
    · exact (h.below other outer hsuffix parent hp).imp_right (List.mem_cons_of_mem _)
  · intro top htop other hother hm'
    rw [← isMember_congr ho] at hm'
    rw [hvisible other hm', torn_enter]
    rcases List.mem_cons.1 htop with rfl | htop
    · have hp := hf.parent?_ne_sibling (hf.distinct.mem_siblings_comm.1 hother)
      rw [if_neg hp, if_pos hother, hf.distinct.torn_congr hother]
      simp [hwhole, hkept]
    · have hp : r.parent? other ≠ some id :=
        (hf.distinct.parent?_eq_of_sibling hother).trans_ne (hchildless top htop)
      have hbeside : other ∉ r.siblings id := by
        intro hsibling
        rw [hf.distinct.mem_siblings_comm, hf.distinct.siblings_eq hother] at hsibling
        exact hfree top htop hsibling
      rw [if_neg hp, if_neg hbeside]
      simpa [hp] using h.hidden top htop other hother hm'
  · intro other hm' hother
    rw [← isMember_congr ho] at hm'
    have hbeside : other ∉ r.siblings id := hother id List.mem_cons_self
    rw [hvisible other hm', torn_enter]
    by_cases hp : r.parent? other = some id
    · rw [if_pos hp, hp]
      simp [s', withBindings]
    · rw [if_neg hp, if_neg hbeside,
        h.shown other hm' fun top htop => hother top (List.mem_cons_of_mem _ htop)]
      refine and_congr (by simp [hp]) (forall₂_congr fun parent hparent => ?_)
      have hne : parent ≠ id := by
        rintro rfl
        exact hp hparent
      simp [s', withBindings, hne]

end Ongoing

/-! ## Whole runs -/

section Runs

variable [BindingTable τ] [BindingTable.Lenient τ]

theorem RemovalRun.ongoing (hn : r.Nested) (hs : r.scope = []) (run : RemovalRun r acts s) :
    r.Ongoing acts s := by
  induction run with
  | start => exact .start hn hs
  | @enter acts s _ id hv ih =>
    by_cases hm : s.isMember id = true
    · exact ih.enter hn.toForested hm hv
    · exact ih.enter_standalone hn.toForested (by simpa using hm) hv
  | @remove acts s _ id hentered ih => exact ih.remove hn.toForested hentered
  | @leave acts s _ hscope ih =>
    obtain ⟨id, outer, hscope⟩ := List.exists_cons_of_ne_nil hscope
    by_cases hgone : .remove id ∈ acts
    · exact ih.leave_removed hscope hgone
    · exact ih.leave_kept hn.toForested hscope hgone

/-- Members are entered and left, and entered ones removed, until no scope is entered. Then a root
is visible if no root of its language was removed. What stands right below another keyword is
visible if that was removed, and nothing right below it was since it was last entered. -/
theorem visible_after_removals (h : r.Reached) (hs : r.scope = []) (run : RemovalRun r acts s)
    (hs' : s.scope = []) (hm : s.isMember id = true) :
    (r.parent? id = none →
      (s.isVisible id = true ↔ ∀ root ∈ r.siblings id, .remove root ∉ acts)) ∧
    ∀ parent, r.parent? id = some parent →
      (s.isVisible id = true ↔ .remove parent ∈ acts ∧
        ∀ since gone before, acts = since ++ .remove gone :: before →
          r.parent? gone = some parent → .enter parent ∈ since) := by
  have hn := h.nested
  have hend := run.ongoing hn hs
  have hshown := hend.shown id hm (by simp [hs'])
  refine ⟨fun hp => ?_, fun parent hp => ?_⟩
  · have htorn : r.Torn acts id ↔ ∃ root ∈ r.siblings id, .remove root ∈ acts := by
      constructor
      · rintro ⟨since, gone, before, rfl, hgone, -⟩
        exact ⟨gone, hgone, by simp⟩
      · rintro ⟨root, hroot, hmem⟩
        obtain ⟨since, before, rfl⟩ := List.append_of_mem hmem
        exact ⟨since, root, before, rfl, hroot, by simp [hp]⟩
    rw [hshown, htorn]
    simp [hp]
  · have hsiblings : ∀ gone, gone ∈ r.siblings id ↔ r.parent? gone = some parent := by
      intro gone
      constructor
      · exact fun hgone => (hn.distinct.parent?_eq_of_sibling hgone).trans hp
      · exact hn.mem_siblings_of_parent hp
    rw [hshown, and_comm]
    refine and_congr (by simp [hp, hs']) ?_
    simp only [Torn, hsiblings, hp, Option.some.injEq, forall_eq', not_exists, not_and, not_not]

end Runs

/-- The script `Site \x7b Page \x7b string Title } } Feed \x7b string Title }`. -/
def sampleRootsTree : Script.Block :=
  let word (text : String) : Script.Element := .bareword text ⟨0, 0⟩
  let block (statements : List Script.Statement) : Script.Block :=
    .mk none none (.mk .finish true statements ⟨0, 0⟩) "" ⟨0, 0⟩
  let command (elements : List Script.Element) : Script.Statement :=
    .pipeline [.command elements ⟨0, 0⟩] ⟨0, 0⟩
  let titled : Script.Block := block [command [word "string", word "Title"]]
  block [command [word "Site", .script <| block [command [word "Page", .script titled]]],
    command [word "Feed", .script titled]]

/-- The registry with this language only. -/
def sampleRoots : Registry LayeredTable :=
  ((declare {} (fun token => some ⟨token⟩) "web" sampleRootsTree none).run (.ofConfig {} {})).2

theorem sampleRoots_reached : sampleRoots.Reached :=
  (Reached.empty {} ({} : LayeredTable)).declare rfl {} (fun token => some ⟨token⟩) "web"
    sampleRootsTree none

/-- The registry once `Site` is entered, removed and left. -/
def sampleWithoutSite : Registry LayeredTable :=
  (leaveScope.run ((unregister ⟨1⟩).run ((enterScope ⟨1⟩).run sampleRoots).2).2).2

theorem sampleWithoutSite_run :
    RemovalRun sampleRoots [.leave, .remove ⟨1⟩, .enter ⟨1⟩] sampleWithoutSite :=
  ((RemovalRun.start.enter ⟨1⟩ (by decide +kernel)).remove ⟨1⟩ (by decide +kernel)).leave
    (by decide +kernel)

theorem visible_after_removals_sample :
    sampleRoots.Reached ∧ sampleRoots.scope = [] ∧
      RemovalRun sampleRoots [.leave, .remove ⟨1⟩, .enter ⟨1⟩] sampleWithoutSite ∧
      sampleWithoutSite.scope = [] ∧ sampleWithoutSite.isMember ⟨2⟩ = true ∧
      sampleRoots.parent? ⟨2⟩ = some ⟨1⟩ ∧ sampleWithoutSite.isVisible ⟨2⟩ = true := by
  have hs : sampleRoots.scope = [] := by decide +kernel
  have hs' : sampleWithoutSite.scope = [] := by decide +kernel
  have hm : sampleWithoutSite.isMember ⟨2⟩ = true := by decide +kernel
  have hp : sampleRoots.parent? ⟨2⟩ = some ⟨1⟩ := by decide +kernel
  have hvisible :=
    (visible_after_removals sampleRoots_reached hs sampleWithoutSite_run hs' hm).2 _ hp
  refine ⟨sampleRoots_reached, hs, sampleWithoutSite_run, hs', hm, hp,
    hvisible.2 ⟨by decide, fun since gone before heq hgone => ?_⟩⟩
  -- What was removed is the root itself.
  have hmem : ScopeAct.remove gone ∈ [.leave, .remove ⟨1⟩, .enter ⟨1⟩] := by simp [heq]
  obtain rfl : gone = ⟨1⟩ := by simpa using hmem
  exact absurd hgone (by decide +kernel)

/-- Once `Site` is entered, removed and left, the other root is hidden, and what stood below `Site`
is visible. -/
theorem removal_leaks :
    sampleRoots.Reached ∧ sampleRoots.scope = [] ∧
      RemovalRun sampleRoots [.leave, .remove ⟨1⟩, .enter ⟨1⟩] sampleWithoutSite ∧
      sampleWithoutSite.scope = [] ∧
      sampleRoots.parent? ⟨2⟩ = some ⟨1⟩ ∧ sampleWithoutSite.isVisible ⟨2⟩ = true ∧
      sampleRoots.isRoot ⟨3⟩ = true ∧ sampleWithoutSite.isMember ⟨3⟩ = true ∧
      sampleWithoutSite.isVisible ⟨3⟩ = false :=
  ⟨sampleRoots_reached, by decide +kernel, sampleWithoutSite_run, by decide +kernel⟩

end Registry
end KeywordScope
