import KeywordScope.Binding.Refusing
import KeywordScope.Proofs.Scope.Lifo
import KeywordScope.Proofs.Scope.Resets

/-!
# A scope that cannot be entered is undone

A scope is entered by hiding the siblings of the member and showing what is right below it. The
table may refuse to bind one of these names when the siblings are hidden and other names bound
already. What is done then resets the registry, and while the entries are nested the reset of a
visible member changes nothing.

* `Registry.onTable`: the registry over a table of any kind.
* `Nested.reset_eq`: the reset of a visible member changes nothing.
* `enterScope_undone`: if a scope cannot be entered, all is as before but the bindings.
-/

namespace KeywordScope
namespace Registry

open Step

variable {τ σ : Type} {r : Registry τ} {entry : Entry}

/-- The registry over a table of another kind. -/
def onTable (r : Registry τ) (bindings : σ) : Registry σ :=
  { r with bindings }

theorem reset_onTable (r : Registry τ) (t : σ) (id : Keyword.Id) :
    (r.onTable t).reset id = (r.reset id).onTable t := rfl

/-- Next to a visible member all is visible, and nothing right below it. -/
theorem Nested.reset_eq (hn : r.Nested) (he : entry ∈ r.entries) (hm : entry.isMember = true)
    (hv : entry.visible = true) : r.reset entry.id = r := by
  obtain ⟨own, hown⟩ := Option.isSome_iff_exists.1 hm
  have htop : entry.parent? = (r.enteredIn own.dsl).head? := hn.parent?_of_visible he hown hv
  have hchildren : r.setVisible (r.children entry.id) false = r := by
    refine setVisible_of_forall fun other ho hchild => ?_
    obtain ⟨hin, hp⟩ := (hn.mem_children_iff he hown ho).1 hchild
    rw [hn.member_visible other ho own.dsl hin, hp, ← htop]
    refine beq_false_of_ne fun hself => ?_
    have hlt := hn.parent_lt entry he entry.id hself.symm
    omega
  have hsiblings : r.setVisible (r.siblings entry.id) true = r := by
    refine setVisible_of_forall fun other ho hsibling => ?_
    obtain ⟨hin, hp⟩ := (hn.mem_siblings_iff he hown ho).1 hsibling
    rw [hn.member_visible other ho own.dsl hin, hp, ← htop, beq_self_eq_true]
  rw [reset, hchildren, hsiblings]

variable [BindingTable τ] [BindingTable.Lenient τ] [BindingTable σ]

/-- From now on the table may refuse whatever it likes, but not the names of a visible member and
its siblings. If the member cannot be entered, then nothing but the bindings has changed. -/
theorem enterScope_undone (h : r.Reached) (he : entry ∈ r.entries) (hm : entry.isMember = true)
    (hv : entry.visible = true) {t : σ} (hgrants : (r.onTable t).GrantsSiblings entry.id)
    {e : KeywordError} {s : Registry σ}
    (hfail : (enterScope entry.id).run (r.onTable t) = (.error e, s)) :
    s.scope = r.scope ∧ s.visibility = r.visibility ∧ s = r.onTable s.bindings := by
  have hn := h.nested
  have hmember : (r.onTable t).isMember entry.id = true := (hn.distinct.isMember_eq he).trans hm
  rcases enterScope_cases (r := r.onTable t) hn.distinct hmember hgrants with
    ⟨hok, -⟩ | ⟨e', t', hrun⟩
  · rw [hfail] at hok
    cases hok
  · rw [hfail, reset_onTable, hn.reset_eq he hm hv] at hrun
    obtain rfl : s = (r.onTable t).withBindings t' := congrArg Prod.snd hrun
    exact ⟨rfl, rfl, rfl⟩

/-- The language `web` over a table that has been made to refuse the name `Feed`. -/
def sampleWithoutFeed : RefusingTable LayeredTable :=
  { table := sample.bindings, refusedBinds := ["Feed"] }

theorem enterScope_undone_sample :
    let r := sample.onTable sampleWithoutFeed
    let s := ((enterScope ⟨1⟩).run r).2
    sample.Reached ∧ (∃ e, (enterScope ⟨1⟩).run r = (.error e, s)) ∧
      s.scope = sample.scope ∧ s.visibility = sample.visibility ∧
      s = sample.onTable s.bindings := by
  intro r s
  obtain ⟨entry, he, hm, hv, hid⟩ : ∃ entry ∈ sample.entries, entry.isMember = true ∧
      entry.visible = true ∧ entry.id = ⟨1⟩ := by decide +kernel
  have hnames : ∀ other ∈ r.entries, other.id ∈ r.siblings ⟨1⟩ → other.keyword.name = "Site" := by
    decide +kernel
  have hgrants : r.GrantsSiblings entry.id := by
    intro other ho hsibling
    rw [hnames other ho (hid ▸ hsibling)]
    exact RefusingTable.grants (by decide) (LayeredTable.grants_iff.2 (by decide))
  have hfails : ((enterScope ⟨1⟩).run r).1.toOption = none := by decide +kernel
  obtain ⟨e, hrun⟩ := run_of_toOption_eq_none hfails
  have hrun' : (enterScope entry.id).run r = (.error e, s) := by rw [hid, hrun]
  exact ⟨sample_reached, ⟨e, hrun⟩, enterScope_undone sample_reached he hm hv hgrants hrun'⟩

end Registry
end KeywordScope
