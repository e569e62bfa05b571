import KeywordScope.Binding.Refusing
import KeywordScope.Proofs.Registry.Sound

/-!
# Operations on one keyword that fail

An operation on one keyword may be turned down, or the table may refuse to bind the name. What is
bound first and registered then is not registered if the table refuses. What is shown first and
bound then stays visible.

* `Edit.isSingle`: the operation registers, removes, shows, hides or loads one keyword.
* `FailsClean`: if the step fails, nothing but the bindings has changed.
* `Edit.residue`: the registry that a failed operation leaves, apart from the bindings.
* `Edit.run_single_error`: this is the registry itself, unless a hidden keyword was to be shown.
* `failed_reveal_shows`: a keyword that is visible without being bound.
-/

namespace KeywordScope
namespace Registry

open Step

variable {τ α : Type} {r r' : Registry τ} {step : Action τ α}

/-! ## Steps that fail -/

/-- If the step fails, nothing but the bindings has changed. -/
def FailsClean (step : Action τ α) : Prop :=
  ∀ r : Registry τ, ∀ e r', step.run r = (.error e, r') → ∃ t, r' = r.withBindings t

theorem FailsClean.of_meets {Q : Registry τ → α → Registry τ → Prop}
    (h : ∀ r, Meets (fun s => ∃ t, s = r.withBindings t) step (Q r)
      fun _ s => ∃ t, s = r.withBindings t) : FailsClean step := by
  intro r e r' hrun
  have hr := h r r ⟨r.bindings, rfl⟩
  rwa [hrun] at hr

/-- The answer may be turned into another one. -/
theorem FailsClean.map {β : Type} (h : FailsClean step) (f : α → β) : FailsClean (f <$> step) := by
  intro r e r' hrun
  rw [run_map] at hrun
  rcases hstep : step.run r with ⟨e' | a, s⟩ <;> rw [hstep] at hrun
  · obtain rfl : s = r' := congrArg Prod.snd hrun
    exact h r e' s hstep
  · cases congrArg Prod.fst hrun

variable [BindingTable τ]

theorem failsClean_registerStandalone (keyword : Keyword) :
    FailsClean (registerStandalone (τ := τ) keyword) :=
  .of_meets fun r => meets_registerStandalone (bindingFree_withBindings r) keyword

theorem failsClean_registerMember (dsl : String) (keyword : Keyword)
    (parent? : Option Keyword.Id) (path : String) :
    FailsClean (registerMember (τ := τ) dsl keyword parent? path) :=
  .of_meets fun r => meets_registerMember (bindingFree_withBindings r) dsl keyword parent? path

theorem failsClean_loadVisible (name : String) : FailsClean (loadVisible (τ := τ) name) :=
  .of_meets fun r => keeps_loadVisible (bindingFree_withBindings r) name

theorem failsClean_unregister (id : Keyword.Id) : FailsClean (unregister (τ := τ) id) := by
  intro r e r' hrun
  rcases hf : r.find? id with _ | entry
  · rw [unregister, run_bind, run_getEntry_none hf] at hrun
    exact ⟨r.bindings, (congrArg Prod.snd hrun).symm⟩
  · rw [run_unregister hf] at hrun
    cases congrArg Prod.fst hrun

theorem failsClean_hide (id : Keyword.Id) : FailsClean (hide (τ := τ) id) := by
  intro r e r' hrun
  rcases hf : r.find? id with _ | entry
  · rw [hide, run_bind, run_getEntry_none hf] at hrun
    exact ⟨r.bindings, (congrArg Prod.snd hrun).symm⟩
  · by_cases hm : entry.isMember = true
    · rw [run_hide hf hm] at hrun
      cases congrArg Prod.fst hrun
    · rw [hide, run_bind_ok (run_getEntry hf), if_neg hm] at hrun
      exact ⟨r.bindings, (congrArg Prod.snd hrun).symm⟩

/-- The keyword is made visible before its name is bound. -/
theorem run_reveal_error {id : Keyword.Id} {e : KeywordError}
    (hrun : (reveal id).run r = (.error e, r')) :
    ∃ t, r' = (r.setVisible [id] true).withBindings t := by
  rcases hf : r.find? id with _ | entry
  · have hnone : ∀ entry ∈ r.entries, entry.id ∈ [id] → entry.visible = true := by
      intro entry he hid
      have hfound := find?_isSome_of_mem he
      rw [List.mem_singleton.1 hid, hf] at hfound
      cases hfound
    rw [reveal, run_bind, run_getEntry_none hf] at hrun
    rw [setVisible_of_forall hnone]
    exact ⟨r.bindings, (congrArg Prod.snd hrun).symm⟩
  · rw [run_reveal hf, run_bindKeyword] at hrun
    exact ⟨_, (congrArg Prod.snd hrun).symm⟩

end Registry

namespace Edit

open Registry Step

variable {τ : Type} {r r' : Registry τ}

/-- The operation registers, removes, shows, hides or loads one keyword. -/
def isSingle : Edit τ → Bool
  | .registerStandalone _ | .registerMember .. | .unregister _ | .reveal _ | .hide _
  | .loadVisible _ => true
  | _ => false

/-- The registry that an operation on one keyword leaves if it fails, apart from the bindings. A
keyword that was to be shown is visible. -/
def residue : Edit τ → Registry τ → Registry τ
  | .reveal id, r => r.setVisible [id] true
  | _, r => r

theorem entries_residue_iff (edit : Edit τ) (r : Registry τ) :
    (edit.residue r).entries = r.entries ↔
      ∀ id, edit = .reveal id → ∀ entry ∈ r.entries, entry.id = id → entry.visible = true := by
  cases edit with
  | reveal id => simpa [residue] using r.entries_setVisible_iff [id] true
  | _ => simp [residue]

variable [BindingTable τ]

/-- An operation on one keyword that fails leaves the scope stack and all entries as they were,
whatever the table refuses, unless it was to show a keyword that was hidden. -/
theorem run_single_error {edit : Edit τ} (hsingle : edit.isSingle = true) {e : KeywordError}
    (hrun : edit.perform.run r = (.error e, r')) :
    (∃ t, r' = (edit.residue r).withBindings t) ∧ r'.scope = r.scope ∧
      (r'.entries = r.entries ↔
        ∀ id, edit = .reveal id → ∀ entry ∈ r.entries, entry.id = id → entry.visible = true) := by
  have hleft : ∃ t, r' = (edit.residue r).withBindings t := by
    cases edit with
    | registerStandalone keyword =>
      exact (failsClean_registerStandalone keyword).map _ r e r' hrun
    | registerMember dsl keyword parent? path =>
      exact (failsClean_registerMember dsl keyword parent? path).map _ r e r' hrun
    | unregister id => exact (failsClean_unregister id).map _ r e r' hrun
    | reveal id =>
      rw [perform, run_map] at hrun
      rcases hstep : (Registry.reveal id).run r with ⟨e' | a, s⟩ <;> rw [hstep] at hrun
      · obtain rfl : s = r' := congrArg Prod.snd hrun
        exact run_reveal_error hstep
      · cases congrArg Prod.fst hrun
    | hide id => exact (failsClean_hide id).map _ r e r' hrun
    | loadVisible name => exact (failsClean_loadVisible name).map _ r e r' hrun
    | _ => cases hsingle
  refine ⟨hleft, ?_, ?_⟩
  · obtain ⟨t, rfl⟩ := hleft
    cases edit <;> rfl
  · obtain ⟨t, rfl⟩ := hleft
    exact entries_residue_iff edit r

end Edit

namespace Registry

open Step

/-- The keywords `Site` and, below it, `Page`, over a table that refuses the name `Page`. -/
def samplePageless : Registry (RefusingTable LayeredTable) :=
  let start : Registry (RefusingTable LayeredTable) :=
    .ofConfig {} { table := {}, refusedBinds := ["Page"] }
  let site := ((registerMember "web" { id := ⟨1⟩, name := "Site" } none "Site").run start).2
  ((registerMember "web" { id := ⟨2⟩, name := "Page" } (some ⟨1⟩) "Site/Page").run site).2

/-- The name of a standalone keyword is refused, which is not registered then. -/
theorem run_single_error_sample :
    let edit : Edit (RefusingTable LayeredTable) :=
      .registerStandalone { id := ⟨3⟩, name := "Page" }
    let s := (edit.perform.run samplePageless).2
    (∃ e, edit.perform.run samplePageless = (.error e, s)) ∧
      (∃ t, s = (edit.residue samplePageless).withBindings t) ∧
      s.scope = samplePageless.scope ∧ (s.entries = samplePageless.entries ↔ ∀ id,
        edit = .reveal id → ∀ entry ∈ samplePageless.entries, entry.id = id →
          entry.visible = true) := by
  intro edit s
  have hfails : (edit.perform.run samplePageless).1.toOption = none := by decide +kernel
  obtain ⟨e, hrun⟩ := run_of_toOption_eq_none hfails
  exact ⟨⟨e, hrun⟩, Edit.run_single_error rfl hrun⟩

/-- A hidden keyword whose name is refused cannot be shown, and is visible all the same. -/
theorem failed_reveal_shows :
    let s := ((reveal ⟨2⟩).run samplePageless).2
    samplePageless.Edited ∧ (∃ e, (reveal ⟨2⟩).run samplePageless = (.error e, s)) ∧
      samplePageless.visibility = [(⟨1⟩, true), (⟨2⟩, false)] ∧
      s.visibility = [(⟨1⟩, true), (⟨2⟩, true)] ∧
      BindingTable.isBoundTo s.bindings "Page" s.target = false := by
  intro s
  have hedited : samplePageless.Edited :=
    ((Edited.empty {} _).edit (.registerMember ..)).edit (.registerMember ..)
  have hfails : ((reveal ⟨2⟩).run samplePageless).1.toOption = none := by decide +kernel
  exact ⟨hedited, run_of_toOption_eq_none hfails, by decide +kernel⟩

end Registry
end KeywordScope
