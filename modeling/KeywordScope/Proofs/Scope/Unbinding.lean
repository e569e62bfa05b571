import KeywordScope.Proofs.Scope.Bindings

/-!
# Names that some run unbinds

If a language has a name below its roots and does not restore it, there is a run after which the
name is not bound: the members are entered down to one above the name, and left again.

* `Descent`: a run that enters the members of one language on a way down from a root. None of them
  and of their siblings has the name.
* `Descent.exists_above`: there is such a run to a member right above the name.
* `Descent.exists_unbound`: leaving all members on the way unbinds the name.
* `stays_bound_iff`: the names that stay bound over all runs.
-/

namespace KeywordScope
namespace Registry

open BindingTable (Stacked)

variable {τ : Type} [BindingTable τ] {r s : Registry τ} {ids : List Keyword.Id}
  {dsl name : String}

/-- A run from `r` to `s` that enters members of a language only. The members that are entered in
`s` and their siblings have other names. -/
structure Descent (r : Registry τ) (dsl name : String) (ids : List Keyword.Id) (s : Registry τ) :
    Prop extends Course r ids s where
  run : ScopeRun r ids s
  one : s.enteredIn dsl = s.scope
  clean : ∀ id ∈ s.scope, ¬ s.Calls (s.siblings id) name

namespace Descent

theorem start (hn : r.Nested) (hr : r.OwnsTable) (hs : r.scope = []) :
    Descent r dsl name [] r where
  toCourse := .start hn hr hs
  run := .start
  one := by rw [enteredIn, hs, List.filter_nil]
  clean id hid := absurd (hs ▸ hid) List.not_mem_nil

variable [BindingTable.Lenient τ] {entry : Entry}

/-- One step further down. -/
theorem enter (h : Descent r dsl name ids s) (he : entry ∈ s.entries) (hin : entry.isIn dsl = true)
    (hp : entry.parent? = s.scope.head?) (hclean : ¬ s.Calls (s.siblings entry.id) name) :
    ∃ s', Descent r dsl name (entry.id :: ids) s' ∧ s'.scope = entry.id :: s.scope := by
  obtain ⟨own, hown, same⟩ := Entry.isIn_iff.1 hin
  have hvis : entry.visible = true := by
    rw [h.nested.member_visible entry he dsl hin, h.one, hp]
    exact beq_self_eq_true _
  have hm : s.isMember entry.id = true :=
    (h.nested.distinct.isMember_eq he).trans (Entry.isMember_of_isIn hin)
  have hv : s.isVisible entry.id = true := (h.nested.distinct.isVisible_eq he).trans hvis
  have ho := (h.nested.outline_enterScope he hown hvis).symm
  have hscope := h.nested.scope_enterScope he hown hvis
  refine ⟨_, ⟨h.toCourse.enter he hown hvis, h.run.enter entry.id hm hv, ?_, fun id hid => ?_⟩,
    hscope⟩
  · rw [h.nested.enteredIn_enterScope he hown hvis, if_pos same, h.one, hscope]
  · rw [← siblings_congr ho]
    rw [hscope] at hid
    intro hcalls
    rcases List.mem_cons.1 hid with rfl | hid
    · exact hclean (hcalls.congr ho.symm)
    · exact h.clean id hid (hcalls.congr ho.symm)

/-- A way down to any member of the language leads past a member right above the name, or to the
member itself. -/
theorem exists_above (hn : r.Nested) (hr : r.OwnsTable) (hs : r.scope = [])
    (hroots : (r.roots dsl).any (·.isNamed name) = false) :
    ∀ entry ∈ r.entries, entry.isIn dsl = true → ∃ ids s top outer, Descent r dsl name ids s ∧
      s.scope = top :: outer ∧ (top = entry.id ∨ s.Calls (s.children top) name) := by
  suffices h : ∀ n, ∀ entry ∈ r.entries, entry.id.number = n → entry.isIn dsl = true →
      ∃ ids s top outer, Descent r dsl name ids s ∧ s.scope = top :: outer ∧
        (top = entry.id ∨ s.Calls (s.children top) name) from
    fun entry he hin => h _ entry he rfl hin
  -- The keyword above was given its identity earlier.
  intro n
  induction n using Nat.strong_induction_on with
  | _ n ih =>
    rintro entry he rfl hin
    obtain ⟨own, hown, same⟩ := Entry.isIn_iff.1 hin
    cases hp : entry.parent? with
    | none =>
      have hclean : ¬ r.Calls (r.siblings entry.id) name := by
        rw [hn.calls_siblings_root he hown hp same, hroots]
        exact Bool.false_ne_true
      have hstart : Descent r dsl name [] r := start hn hr hs
      obtain ⟨s, hdown, hscope⟩ := hstart.enter he hin (by rw [hp, hs]; rfl) hclean
      exact ⟨_, s, entry.id, _, hdown, hscope, .inl rfl⟩
    | some parent =>
      obtain ⟨above, ha, rfl, hin'⟩ := hn.parent_in entry he parent hp dsl hin
      obtain ⟨ids, s, top, outer, hdown, hscope, htop⟩ :=
        ih _ (hn.parent_lt entry he _ hp) above ha rfl hin'
      by_cases hcalls : s.Calls (s.children top) name
      · exact ⟨ids, s, top, outer, hdown, hscope, .inr hcalls⟩
      · obtain rfl := htop.resolve_right hcalls
        obtain ⟨entry', he', bare⟩ := exists_mem_of_outline hdown.outline he
        have hp' : entry'.parent? = some above.id := (Entry.parent?_congr bare).trans hp
        have hown' := (Entry.membership?_congr bare).trans hown
        have hclean : ¬ s.Calls (s.siblings entry'.id) name := by
          rintro ⟨other, ho, hid, hnamed⟩
          obtain ⟨-, hbeside⟩ := (hdown.nested.mem_siblings_iff he' hown' ho).1 hid
          exact hcalls ⟨other, ho, mem_children.2 ⟨other, ho, hbeside.trans hp', rfl⟩, hnamed⟩
        obtain ⟨s', hdown', hscope'⟩ := hdown.enter he' ((Entry.isIn_congr bare dsl).trans hin)
          (by rw [hp', hscope]; rfl) hclean
        exact ⟨_, s', entry'.id, _, hdown', hscope', .inl (Entry.id_congr bare)⟩

variable [Stacked τ]

/-- Leaving all members on the way down unbinds the name, if it stands right below the last one. -/
theorem exists_unbound (h : Descent r dsl name ids s) (hstand : (s.standalone? name).isSome = false)
    (hlast : ¬ s.Binds name ∨ ∃ top outer, s.scope = top :: outer ∧ s.Calls (s.children top) name) :
    ∃ s', ScopeRun r ids s' ∧ s'.scope = [] ∧ ¬ s'.Binds name := by
  generalize hscope : s.scope = scope at hlast
  induction scope generalizing s with
  | nil => exact ⟨s, h.run, hscope, hlast.resolve_right fun ⟨_, _, hs, _⟩ => by cases hs⟩
  | cons top outer ih =>
    have hn := h.nested
    obtain ⟨entry, he, rfl, own, hown⟩ := hn.innermost hscope
    have ho := (hn.outline_leaveScope he hown hscope).symm
    have hscope' := hn.scope_leaveScope he hown hscope
    have hne : s.scope ≠ [] := hscope ▸ List.cons_ne_nil _ _
    have hunbound : ¬ (leaveScope.run s).2.Binds name := by
      rw [hn.binds_leaveScope h.owns.tidy he hown hscope, hstand]
      rintro (hno | hsib | ⟨hbound, hnone⟩)
      · cases hno
      · exact h.clean entry.id (hscope ▸ List.mem_cons_self) hsib
      · obtain ⟨top, outer, hs, hcalls⟩ := hlast.resolve_left fun hno => hno hbound
        obtain ⟨rfl, -⟩ := List.cons.inj hs
        exact hnone hcalls
    refine ih ⟨h.toCourse.leave he hown hscope, h.run.leave hne, ?_, fun id hid hcalls => ?_⟩ ?_
      hscope' (.inl hunbound)
    · refine List.filter_eq_self.2 fun id hid => ?_
      rw [hscope'] at hid
      rw [← membership?_congr ho]
      exact List.filter_eq_self.1 h.one id (hscope ▸ List.mem_cons_of_mem _ hid)
    · rw [hscope'] at hid
      rw [← siblings_congr ho] at hcalls
      exact h.clean id (hscope ▸ List.mem_cons_of_mem _ hid) (hcalls.congr ho.symm)
    · rwa [← standalone?_congr ho]

end Descent

/-- If a language has the name below its roots and does not restore it, some run that leaves all
that it enters unbinds the name. -/
theorem exists_run_unbinds [BindingTable.Lenient τ] [Stacked τ] (hn : r.Nested) (hr : r.OwnsTable)
    (hs : r.scope = []) {child : Entry} (hc : child ∈ r.entries) (hp : child.parent? ≠ none)
    (hnamed : child.keyword.isNamed name = true) (hin : child.isIn dsl = true)
    (hno : ¬ r.Restores dsl name) :
    ∃ ids s, ScopeRun r ids s ∧ s.scope = [] ∧ ¬ s.Binds name := by
  obtain ⟨hroots, hstand⟩ := not_or.1 hno
  rw [Bool.not_eq_true] at hroots hstand
  obtain ⟨parent, hp⟩ := Option.ne_none_iff_exists'.1 hp
  obtain ⟨above, ha, rfl, hin'⟩ := hn.parent_in child hc parent hp dsl hin
  obtain ⟨ids, s, top, outer, hdown, hscope, htop⟩ :=
    Descent.exists_above hn hr hs hroots above ha hin'
  have hbelow : s.Calls (s.children top) name := by
    rcases htop with rfl | hcalls
    · rw [← children_congr hdown.outline]
      exact Calls.congr hdown.outline ⟨child, hc, mem_children.2 ⟨child, hc, hp, rfl⟩, hnamed⟩
    · exact hcalls
  obtain ⟨s', hrun, hs', hunbound⟩ := hdown.exists_unbound
    (by rwa [← standalone?_congr hdown.outline]) (.inr ⟨top, outer, hscope, hbelow⟩)
  exact ⟨ids, s', hrun, hs', hunbound⟩

/-- A name that is bound at rest stays bound over all runs if and only if every language that has
the name below its roots restores it. -/
theorem stays_bound_iff [BindingTable.Lenient τ] [Stacked τ] (h : r.Reached) (hr : r.OwnsTable)
    (hs : r.scope = []) (hbound : r.Binds name) :
    (∀ ids s, ScopeRun r ids s → s.scope = [] → s.Binds name) ↔
      ∀ child ∈ r.entries, child.parent? ≠ none → child.keyword.isNamed name = true →
        ∀ dsl, child.isIn dsl = true → r.Restores dsl name := by
  constructor
  · intro hstays child hc hp hnamed dsl hin
    by_contra hno
    obtain ⟨ids, s, hrun, hs', hunbound⟩ :=
      exists_run_unbinds h.nested hr hs hc hp hnamed hin hno
    exact hunbound (hstays ids s hrun hs')
  · intro hrestores ids s hrun hs'
    refine hrun.binds h.nested hr hs hs' hbound fun id _ child hc hp => hrestores child hc ?_
    rw [hp]
    exact Option.some_ne_none id

end Registry
end KeywordScope
