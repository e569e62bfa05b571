import KeywordScope.Proofs.Registry.Binds

/-!
# What removals leave bound

A removal takes the binding of a name away, also if another keyword of that name stays. Only the
removal of a language binds names again, and only those of standalone keywords.

* `Removal`: the removal of a keyword, of a language, or of a standalone keyword by its name.
* `Removal.entries_run`, `Removal.binds_run`: what is left of the keywords and of the bindings.
* `bound_after_removal`: which of the keywords that stay visible are bound.
* `removal_unbinds`: a keyword that stays visible and is not bound any more.
-/

namespace KeywordScope
namespace Registry

open BindingTable (Stacked)
open Step

/-- A removal of keywords. -/
inductive Removal where
  /-- The keyword of an identity. -/
  | keyword (id : Keyword.Id)
  /-- All members of a language. -/
  | language (dsl : String)
  /-- The first standalone keyword of a name. -/
  | standalone (name : String)
  deriving DecidableEq, Repr

namespace Removal

variable {τ : Type}

/-- The keywords that are removed. -/
def takes (r : Registry τ) : Removal → Entry → Bool
  | keyword id => fun entry => entry.id == id
  | language dsl => fun entry => entry.isIn dsl
  | standalone name => fun entry => (r.standalone? name).any (·.id == entry.id)

theorem takes_standalone {r : Registry τ} {name : String} {entry : Entry}
    (h : r.standalone? name = some entry.keyword) :
    (standalone name).takes r = fun other => other.id == entry.id := by
  funext other
  simp only [takes, h, Option.any_some]
  exact Bool.beq_comm

/-- The removal binds standalone keywords again. -/
def rebinds : Removal → Bool
  | language _ => true
  | _ => false

variable [BindingTable τ]

/-- The registry after the removal. -/
def run (r : Registry τ) : Removal → Registry τ
  | keyword id => ((unregister id).run r).2
  | language dsl => ((removeDsl dsl).run r).2
  | standalone name => ((removeStandalone name).run r).2

variable {r : Registry τ}

theorem entries_run (hd : r.Distinct) (removal : Removal) :
    (removal.run r).entries = (r.without (removal.takes r)).entries := by
  cases removal with
  | keyword id => exact entries_unregister r id
  | language dsl =>
    obtain ⟨t, hrun⟩ := run_removeDsl hd dsl
    rw [run, hrun]
    rfl
  | standalone name =>
    rcases run_removeStandalone hd name with ⟨hnone, hrun⟩ | ⟨entry, -, hsome, hrun⟩
    · rw [run, hrun, without_of_forall fun other _ => by rw [takes, hnone]; rfl]
    · rw [run, hrun, entries_unregister, takes_standalone hsome]

variable [BindingTable.Lenient τ] [Stacked τ]

/-- The names of removed keywords are not bound any more, unless they are those of standalone
keywords and a language is removed. -/
theorem binds_run (hr : r.Tidy) (removal : Removal) (name : String) :
    (removal.run r).Binds name ↔
      (removal.rebinds = true ∧ (r.keywordsWhere (removal.takes r)).isEmpty = false ∧
        (r.standalone? name).isSome = true) ∨
      (r.Binds name ∧ (r.keywordsWhere (removal.takes r)).any (·.isNamed name) = false) := by
  cases removal with
  | keyword id =>
    rw [run, binds_unregister hr.distinct]
    simp [rebinds, takes]
  | language dsl =>
    rw [run, hr.binds_removeDsl, standalone?, List.isSome_find?]
    simp [rebinds, takes, members]
  | standalone name =>
    rcases run_removeStandalone hr.distinct name with ⟨hnone, hrun⟩ | ⟨entry, -, hsome, hrun⟩
    · rw [run, hrun]
      simp [rebinds, takes, hnone, keywordsWhere]
    · rw [run, hrun, binds_unregister hr.distinct, takes_standalone hsome]
      simp [rebinds]

end Removal

variable {τ : Type} [BindingTable τ] [BindingTable.Lenient τ] [Stacked τ] {r : Registry τ}

/-- If the names of all visible keywords are bound, then after a removal those of the keywords that
stay visible are, apart from the names of removed keywords. If a language is removed, the names of
standalone keywords are bound all the same. -/
theorem bound_after_removal (hr : r.OwnsTable)
    (hbound : ∀ entry ∈ r.entries, entry.visible = true → r.Binds entry.keyword.name)
    (removal : Removal) :
    ∀ entry ∈ (removal.run r).entries, entry.visible = true →
      ((removal.run r).Binds entry.keyword.name ↔
        (∀ gone ∈ r.entries, gone ∉ (removal.run r).entries →
          gone.keyword.isNamed entry.keyword.name = false) ∨
        removal.rebinds = true ∧ (r.standalone? entry.keyword.name).isSome = true) := by
  have htidy := hr.tidy
  intro entry he hv
  have hgone : ∀ gone ∈ r.entries,
      gone ∉ (removal.run r).entries ↔ removal.takes r gone = true := by
    intro gone hg
    rw [Removal.entries_run htidy.distinct, mem_without, not_and, Bool.not_eq_false]
    exact ⟨fun h => h hg, fun h _ => h⟩
  have hspared : (∀ gone ∈ r.entries, gone ∉ (removal.run r).entries →
      gone.keyword.isNamed entry.keyword.name = false) ↔
      (r.keywordsWhere (removal.takes r)).any (·.isNamed entry.keyword.name) = false := by
    rw [any_keywordsWhere, List.any_eq_false]
    refine forall₂_congr fun gone hg => ?_
    rw [hgone gone hg]
    simp
  rw [Removal.entries_run htidy.distinct, mem_without] at he
  rw [Removal.binds_run htidy, hspared, and_iff_right (hbound entry he.1 hv)]
  cases hempty : (r.keywordsWhere (removal.takes r)).isEmpty with
  | true => simp [List.isEmpty_iff.1 hempty]
  | false => simp [or_comm]

/-- A standalone keyword and the root of a language, both called `Page`. -/
def sampleShared : Registry LayeredTable :=
  let alone := ((registerStandalone { id := ⟨1⟩, name := "Page" }).run (.ofConfig {} {})).2
  ((registerMember "web" { id := ⟨2⟩, name := "Page" } none "Page").run alone).2

theorem sampleShared_ownsTable : sampleShared.OwnsTable :=
  ((OwnsTable.layered {}).edit (.registerStandalone ..)).edit (.registerMember ..)

theorem bound_after_removal_sample :
    sampleShared.OwnsTable ∧
      (∀ entry ∈ sampleShared.entries, entry.visible = true →
        sampleShared.Binds entry.keyword.name) ∧
      ∃ entry ∈ ((Removal.language "web").run sampleShared).entries, entry.visible = true ∧
        ((Removal.language "web").run sampleShared).Binds entry.keyword.name := by
  have hbound : ∀ entry ∈ sampleShared.entries, entry.visible = true →
      sampleShared.Binds entry.keyword.name := by decide +kernel
  have hstays : ∃ entry ∈ ((Removal.language "web").run sampleShared).entries,
      entry.visible = true ∧ (sampleShared.standalone? entry.keyword.name).isSome = true := by
    decide +kernel
  obtain ⟨entry, he, hv, hstand⟩ := hstays
  exact ⟨sampleShared_ownsTable, hbound, entry, he, hv,
    (bound_after_removal sampleShared_ownsTable hbound _ entry he hv).2 (.inr ⟨rfl, hstand⟩)⟩

/-- Without the standalone keyword, the root is still visible, but not bound. -/
theorem removal_unbinds :
    sampleShared.OwnsTable ∧ sampleShared.scope = [] ∧
      (∀ entry ∈ sampleShared.entries, entry.visible = true →
        sampleShared.Binds entry.keyword.name) ∧
      ∃ entry ∈ ((Removal.standalone "Page").run sampleShared).entries, entry.visible = true ∧
        ¬ ((Removal.standalone "Page").run sampleShared).Binds entry.keyword.name :=
  ⟨sampleShared_ownsTable, by decide +kernel, by decide +kernel, by decide +kernel⟩

end Registry
end KeywordScope
