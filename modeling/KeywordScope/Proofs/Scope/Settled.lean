import KeywordScope.Proofs.Registry.Runs
import KeywordScope.Proofs.Scope.Nesting

/-!
# Settled registries

While no scope is entered, what is nested is settled: the roots and the standalone keywords are
visible, and nothing else.

* `Settled`: no scope is entered, and the visibility is as it should be.
* `Nested.concat_standalone`, `Nested.without_standalone`: standalone keywords may come and go at
  any time.
* `Settled.concat`, `Settled.without_dsl`: members may come, and languages go, while no scope is
  entered.
-/

namespace KeywordScope
namespace Registry

variable {τ : Type} {r : Registry τ}

/-! ## Settled registries -/

/-- No scope is entered: the roots and the standalone keywords are visible, and nothing else. -/
structure Settled (r : Registry τ) : Prop extends r.Forested where
  scope_nil : r.scope = []
  visible_eq : ∀ entry ∈ r.entries, entry.visible = entry.parent?.isNone

theorem settled_ofConfig (config : Config) (bindings : τ) :
    Settled (.ofConfig config bindings) where
  distinct := List.nodup_nil
  parent_lt _ he := absurd he List.not_mem_nil
  parent_in _ he := absurd he List.not_mem_nil
  named _ he := absurd he List.not_mem_nil
  scope_nil := rfl
  visible_eq _ he := absurd he List.not_mem_nil

theorem enteredIn_of_scope_nil (hs : r.scope = []) (dsl : String) : r.enteredIn dsl = [] := by
  rw [enteredIn, hs]
  rfl

theorem Settled.nested (hr : r.Settled) : r.Nested where
  toForested := hr.toForested
  entered_member id hid := by
    rw [hr.scope_nil] at hid
    cases hid
  standalone_visible entry he hm := by
    rw [hr.visible_eq entry he]
    cases hmem : entry.membership? with
    | none => simp [Entry.parent?, hmem]
    | some _ => simp [Entry.isMember, hmem] at hm
  member_visible entry he dsl _ := by
    rw [hr.visible_eq entry he, enteredIn_of_scope_nil hr.scope_nil]
    cases entry.parent? <;> rfl
  path dsl := by
    rw [enteredIn_of_scope_nil hr.scope_nil]
    trivial

theorem Nested.settled (hn : r.Nested) (hs : r.scope = []) : r.Settled where
  toForested := hn.toForested
  scope_nil := hs
  visible_eq entry he := by
    cases hm : entry.membership? with
    | none =>
      rw [hn.standalone_visible entry he (by simp [Entry.isMember, hm])]
      simp [Entry.parent?, hm]
    | some own =>
      rw [hn.member_visible entry he own.dsl (Entry.isIn_iff.2 ⟨own, hm, sameName_refl _⟩),
        enteredIn_of_scope_nil hs]
      cases entry.parent? <;> rfl

/-- While no scope is entered, what is visible depends on the outline alone. -/
theorem Settled.visibility_congr {r' : Registry τ} (hr : r.Settled) (hr' : r'.Settled)
    (h : r.outline = r'.outline) : r.visibility = r'.visibility := by
  have e : ∀ s : Registry τ, s.Settled →
      s.visibility = s.outline.map fun entry => (entry.id, entry.parent?.isNone) := by
    intro s hs
    rw [visibility, outline, List.map_map]
    refine List.map_congr_left fun entry he => ?_
    rw [hs.visible_eq entry he]
    rfl
  rw [e r hr, e r' hr', h]

theorem bindingFree_nested : BindingFree (τ := τ) Nested :=
  fun _ _ hn => hn.of_entries rfl rfl

theorem bindingFree_settled : BindingFree (τ := τ) Settled :=
  fun _ _ hr => (bindingFree_nested _ _ hr.nested).settled hr.scope_nil

/-! ## One entry more, or fewer entries -/

theorem Forested.concat (hf : r.Forested) {entry : Entry} (hfresh : r.find? entry.id = none)
    (hparent : ∀ parent, entry.parent? = some parent → parent.number < entry.id.number ∧
      ∀ dsl, entry.isIn dsl = true → ∃ above ∈ r.entries, above.id = parent ∧ above.isIn dsl = true)
    (hname : entry.isMember = true → entry.keyword.name ≠ "") : (r.concat entry).Forested := by
  refine ⟨hf.distinct.concat hfresh, ?_, ?_, ?_⟩
  · intro other ho parent hp
    rcases mem_concat.1 ho with ho | rfl
    · exact hf.parent_lt other ho parent hp
    · exact (hparent parent hp).1
  · intro other ho parent hp dsl hin
    obtain ⟨above, ha, hlike⟩ : ∃ above ∈ r.entries, above.id = parent ∧ above.isIn dsl = true := by
      rcases mem_concat.1 ho with ho | rfl
      · exact hf.parent_in other ho parent hp dsl hin
      · exact (hparent parent hp).2 dsl hin
    exact ⟨above, mem_concat.2 (.inl ha), hlike⟩
  · intro other ho hm
    rcases mem_concat.1 ho with ho | rfl
    · exact hf.named other ho hm
    · exact hname hm

/-- Entries may go if none that stays stands below one that goes. -/
theorem Forested.without (hf : r.Forested) {p : Entry → Bool}
    (hp : ∀ entry ∈ r.entries, p entry = false → ∀ above ∈ r.entries,
      entry.parent? = some above.id → p above = false) : (r.without p).Forested := by
  refine ⟨hf.distinct.without p, ?_, ?_, ?_⟩
  · intro entry he
    exact hf.parent_lt entry (mem_without.1 he).1
  · intro entry he parent hpar dsl hin
    obtain ⟨he, hstay⟩ := mem_without.1 he
    obtain ⟨above, ha, rfl, hin'⟩ := hf.parent_in entry he parent hpar dsl hin
    exact ⟨above, mem_without.2 ⟨ha, hp entry he hstay above ha hpar⟩, rfl, hin'⟩
  · intro entry he
    exact hf.named entry (mem_without.1 he).1

/-- A standalone keyword comes. -/
theorem Nested.concat_standalone (hn : r.Nested) {entry : Entry}
    (hfresh : r.find? entry.id = none) (hm : entry.isMember = false)
    (hv : entry.visible = true) : (r.concat entry).Nested := by
  have hroot : entry.parent? = none := by
    cases h : entry.membership? with
    | none => simp [Entry.parent?, h]
    | some _ => simp [Entry.isMember, h] at hm
  refine hn.of_members (hn.toForested.concat hfresh ?_ ?_) rfl ?_ ?_ ?_
  · intro parent hp
    rw [hroot] at hp
    cases hp
  · intro h
    rw [hm] at h
    cases h
  · intro id hid
    exact (membership?_concat (hn.entered_member id hid)).symm
  · intro other ho hmember
    rcases mem_concat.1 ho with ho | rfl
    · exact ⟨other, ho, rfl, rfl⟩
    · rw [hm] at hmember
      cases hmember
  · intro other ho hstand
    rcases mem_concat.1 ho with ho | rfl
    · exact hn.standalone_visible other ho hstand
    · exact hv

/-- A standalone keyword goes. -/
theorem Nested.without_standalone (hn : r.Nested) {entry : Entry} (he : entry ∈ r.entries)
    (hm : entry.isMember = false) : (r.without (·.id == entry.id)).Nested := by
  have hstay : ∀ other ∈ r.entries, other.isMember = true → (other.id == entry.id) = false := by
    intro other ho hmember
    refine beq_false_of_ne fun same => ?_
    rw [hn.distinct.eq_of_id ho he same, hm] at hmember
    cases hmember
  refine hn.of_members (hn.toForested.without ?_) rfl ?_ ?_ ?_
  · intro other ho _ above ha hp
    obtain ⟨own, hown, -⟩ := Entry.parent?_eq_some.1 hp
    obtain ⟨above', ha', hid, hin⟩ := hn.parent_in other ho above.id hp own.dsl
      (Entry.isIn_iff.2 ⟨own, hown, sameName_refl _⟩)
    rw [hn.distinct.eq_of_id ha ha' hid.symm]
    exact hstay above' ha' (Entry.isMember_of_isIn hin)
  · intro id hid
    obtain ⟨found, hf, hmember⟩ := isMember_iff.1 (hn.entered_member id hid)
    obtain ⟨hfound, rfl⟩ := mem_of_find? hf
    exact (membership?_without hn.distinct hfound (hstay found hfound hmember)).symm
  · intro other ho _
    exact ⟨other, (mem_without.1 ho).1, rfl, rfl⟩
  · intro other ho hstand
    exact hn.standalone_visible other (mem_without.1 ho).1 hstand

/-- A member comes while no scope is entered. -/
theorem Settled.concat (hr : r.Settled) {entry : Entry} (hfresh : r.find? entry.id = none)
    (hparent : ∀ parent, entry.parent? = some parent → parent.number < entry.id.number ∧
      ∀ dsl, entry.isIn dsl = true → ∃ above ∈ r.entries, above.id = parent ∧ above.isIn dsl = true)
    (hname : entry.keyword.name ≠ "") (hv : entry.visible = entry.parent?.isNone) :
    (r.concat entry).Settled := by
  refine ⟨hr.toForested.concat hfresh hparent fun _ => hname, hr.scope_nil, ?_⟩
  intro other ho
  rcases mem_concat.1 ho with ho | rfl
  · exact hr.visible_eq other ho
  · exact hv

/-- A language goes while no scope is entered. -/
theorem Settled.without_dsl (hr : r.Settled) (dsl : String) : (r.without (·.isIn dsl)).Settled := by
  refine ⟨hr.toForested.without ?_, hr.scope_nil, ?_⟩
  · intro entry he hstay above ha hp
    rw [Bool.eq_false_iff] at hstay ⊢
    exact fun hin => hstay (hr.isIn_of_parent he ha hp hin)
  · intro entry he
    exact hr.visible_eq entry (mem_without.1 he).1

end Registry
end KeywordScope
