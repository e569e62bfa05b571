import KeywordScope.Proofs.Registry.Tidy

/-!
# Which names are bound

Bindings go by names, and several keywords may have one name. What is bound after a step follows
from what was bound before and from the names of the keywords that the step shows and hides.

* `binds_purgeNames`, `binds_bindNames`: names that are purged, or bound.
* `Tidy.binds_rebound`: binding standalone keywords again.
* `binds_unregister`, `Tidy.binds_removeDsl`: the removal of a keyword, and of a language.
-/

namespace KeywordScope
namespace Registry

open BindingTable (Stacked)
open BindingTable.Stacked (held)
open Step

variable {τ : Type} {r : Registry τ}

theorem any_keywordsWhere (r : Registry τ) (p : Entry → Bool) (name : String) :
    (r.keywordsWhere p).any (·.isNamed name) =
      r.entries.any fun entry => p entry && entry.keyword.isNamed name := by
  simp [keywordsWhere, List.any_map, List.any_filter, Function.comp_def]

variable [BindingTable τ] [Stacked τ]

/-! ## One name -/

theorem binds_congr {name other : String} (same : sameName name other = true) :
    r.Binds name ↔ r.Binds other := by
  rw [Binds, Binds, Stacked.isBoundTo_eq, Stacked.isBoundTo_eq, Stacked.held_congr _ same]

theorem binds_purge (r : Registry τ) (name other : String) :
    (r.withBindings (BindingTable.purge r.bindings name r.target)).Binds other ↔
      r.Binds other ∧ sameName name other = false :=
  Stacked.isBoundTo_purge r.bindings name r.target other

theorem binds_bindName {keyword : Keyword} (h : (r.bindName keyword).1 = .ok ()) (name : String) :
    (r.withBindings (r.bindName keyword).2).Binds name ↔
      keyword.isNamed name = true ∨ r.Binds name := by
  by_cases same : sameName keyword.name name = true
  · have hbound : (r.withBindings (r.bindName keyword).2).Binds keyword.name :=
      isBoundTo_bindName h
    simp [Keyword.isNamed, same, (binds_congr same).1 hbound]
  · have hheld : held (r.bindName keyword).2 name = held r.bindings name := by
      rcases r.held_bindName keyword name with heq | ⟨-, same', -⟩
      · exact heq
      · exact absurd same' same
    have hbinds : (r.withBindings (r.bindName keyword).2).Binds name ↔ r.Binds name := by
      rw [Binds, Binds, Stacked.isBoundTo_eq, Stacked.isBoundTo_eq]
      show (held (r.bindName keyword).2 name).head?.any _ = true ↔ _
      rw [hheld]
      exact Iff.rfl
    simp [Keyword.isNamed, same, hbinds]

/-! ## Several names -/

theorem binds_purgeNames (r : Registry τ) (keywords : List Keyword) (name : String) :
    (r.withBindings (r.purgeNames keywords)).Binds name ↔
      r.Binds name ∧ keywords.any (·.isNamed name) = false := by
  induction keywords generalizing r with
  | nil => exact (and_iff_left rfl).symm
  | cons keyword keywords ih =>
    have hrest := ih (r.withBindings (BindingTable.purge r.bindings keyword.name r.target))
    rw [binds_purge] at hrest
    rw [List.any_cons, Bool.or_eq_false_iff, ← and_assoc]
    exact hrest

theorem binds_bindNames [BindingTable.Lenient τ] (r : Registry τ) (keywords : List Keyword)
    (h : ∀ keyword ∈ keywords, keyword.name ≠ "") (name : String) :
    (r.withBindings (r.bindNames keywords)).Binds name ↔
      keywords.any (·.isNamed name) = true ∨ r.Binds name := by
  induction keywords generalizing r with
  | nil => exact (or_iff_right Bool.false_ne_true).symm
  | cons keyword keywords ih =>
    have hok : (r.bindName keyword).1 = .ok () :=
      bindName_ok (BindingTable.Lenient.accepts _ (h keyword List.mem_cons_self))
    have hrest := ih (r.withBindings (r.bindName keyword).2) fun other ho =>
      h other (List.mem_cons_of_mem _ ho)
    rw [binds_bindName hok] at hrest
    rw [List.any_cons, Bool.or_eq_true, or_assoc, or_left_comm]
    exact hrest

namespace Tidy

theorem name_ne_empty (hr : r.Tidy) {keyword : Keyword} (hk : keyword ∈ r.standalones) :
    keyword.name ≠ "" := by
  obtain ⟨entry, he, rfl⟩ := List.mem_map.1 hk
  obtain ⟨he, hstand⟩ := List.mem_filter.1 he
  exact hr.standalone_named entry he (by simpa using hstand)

/-- All standalone keywords are bound once those are that had no binding. -/
theorem binds_rebound [BindingTable.Lenient τ] (hr : r.Tidy) (name : String) :
    (r.withBindings (r.bindNames r.unbound)).Binds name ↔
      r.standalones.any (·.isNamed name) = true ∨ r.Binds name := by
  rw [binds_bindNames r r.unbound fun keyword hk => hr.name_ne_empty (List.mem_filter.1 hk).1,
    unbound, List.any_filter]
  refine or_congr_left' fun hno => ?_
  -- What is bound at all is bound to the command.
  have hfree : ∀ keyword : Keyword, keyword.isNamed name = true →
      (BindingTable.lookup r.bindings keyword.name).isNone = true := by
    intro keyword hnamed
    rw [hr.binds_iff, not_not] at hno
    rw [Stacked.lookup_eq, Stacked.held_congr _ hnamed, hno]
    rfl
  rw [List.any_eq_true, List.any_eq_true]
  refine exists_congr fun keyword => and_congr_right fun _ => ?_
  rw [Bool.and_eq_true]
  exact ⟨fun h => h.2, fun h => ⟨hfree keyword h, h⟩⟩

theorem run_rebindStandalones [BindingTable.Lenient τ] (hr : r.Tidy) :
    rebindStandalones.run r = (.ok (), r.withBindings (r.bindNames r.unbound)) :=
  Registry.run_rebindStandalones fun _ hk => BindingTable.Lenient.accepts _ (hr.name_ne_empty hk)

end Tidy

/-! ## Removals -/

/-- A keyword takes the binding of its name along. -/
theorem binds_unregister (hd : r.Distinct) (id : Keyword.Id) (name : String) :
    ((unregister id).run r).2.Binds name ↔
      r.Binds name ∧ (r.keywordsWhere (·.id == id)).any (·.isNamed name) = false := by
  rw [any_keywordsWhere]
  rcases r.unregister_cases id with ⟨hnone, hrun⟩ | ⟨entry, he, rfl, hrun⟩
  · have hno : (r.entries.any fun entry => entry.id == id && entry.keyword.isNamed name) = false :=
      List.any_eq_false.2 fun entry he => by simp [hnone entry he]
    rw [hrun]
    exact (and_iff_left hno).symm
  · have hone : (r.entries.any fun other => other.id == entry.id && other.keyword.isNamed name) =
        entry.keyword.isNamed name := by
      rw [Bool.eq_iff_iff, List.any_eq_true]
      constructor
      · rintro ⟨other, ho, h⟩
        obtain ⟨same, hnamed⟩ := Bool.and_eq_true_iff.1 h
        rwa [hd.eq_of_id ho he (by simpa using same)] at hnamed
      · exact fun hnamed => ⟨entry, he, by simp [hnamed]⟩
    rw [hrun, hone]
    exact binds_purge r entry.keyword.name name

/-- A language takes the bindings of its names along, but standalone keywords get theirs back. -/
theorem Tidy.binds_removeDsl [BindingTable.Lenient τ] (hr : r.Tidy) (dsl name : String) :
    ((removeDsl dsl).run r).2.Binds name ↔
      ((r.members dsl).isEmpty = false ∧ r.standalones.any (·.isNamed name) = true) ∨
        (r.Binds name ∧ (r.members dsl).any (·.isNamed name) = false) := by
  let purged := (r.without (·.isIn dsl)).withBindings (r.purgeNames (r.members dsl))
  have hrun : _ = (Except.ok (), purged) := run_removeDsl_members hr.distinct dsl
  have htidy : purged.Tidy := by
    have h := (keeps_forM_unregister (r.members dsl) Tidy.keeps_unregister).run hr
    rwa [hrun] at h
  have hpurged : purged.Binds name ↔ r.Binds name ∧ (r.members dsl).any (·.isNamed name) = false :=
    binds_purgeNames r (r.members dsl) name
  have hstand : purged.standalones = r.standalones := r.standalones_without_dsl dsl
  rw [removeDsl, run_bind_ok (run_get r), run_bind_ok hrun]
  cases hempty : (r.members dsl).isEmpty with
  | true =>
    rw [if_pos rfl]
    show purged.Binds name ↔ _
    simpa using hpurged
  | false =>
    rw [if_neg Bool.false_ne_true, run_bind_ok htidy.run_rebindStandalones]
    show (purged.withBindings _).Binds name ↔ _
    rw [htidy.binds_rebound, hstand, hpurged]
    simp

end Registry
end KeywordScope
