import KeywordScope.Proofs.Registry.Lasting

/-!
# Identities are given out once

Whatever is done with a registry, new identities are greater than all that are in use.

* `Issued`: all identities in use have been given out, and each stands for one entry.
* `Built`: the registries that come about by any operations, in any scope, over any table.
* `Built.issued`: their identities are issued.
-/

namespace KeywordScope
namespace Registry

open Step

variable {τ : Type} {r : Registry τ}

/-- No two entries have one identity, and the identities of entries and their parents have been
given out. -/
structure Issued (r : Registry τ) : Prop where
  distinct : r.Distinct
  id_lt : ∀ entry ∈ r.entries, entry.id.number < r.nextId
  parent_lt : ∀ entry ∈ r.entries, ∀ parent, entry.parent? = some parent →
    parent.number < r.nextId

theorem Issued.of_isMember (hr : r.Issued) {id : Keyword.Id} (h : r.isMember id = true) :
    id.number < r.nextId := by
  obtain ⟨found, hf, -⟩ := isMember_iff.1 h
  obtain ⟨hmem, rfl⟩ := mem_of_find? hf
  exact hr.id_lt found hmem

theorem Issued.concat (hr : r.Issued) {entry : Entry} (hfresh : r.find? entry.id = none)
    (hlt : entry.id.number < r.nextId)
    (hparent : ∀ parent, entry.parent? = some parent → r.isMember parent = true) :
    (r.concat entry).Issued := by
  refine ⟨hr.distinct.concat hfresh, ?_, ?_⟩
  · intro other ho
    rcases mem_concat.1 ho with ho | rfl
    · exact hr.id_lt other ho
    · exact hlt
  · intro other ho parent hp
    rcases mem_concat.1 ho with ho | rfl
    · exact hr.parent_lt other ho parent hp
    · exact hr.of_isMember (hparent parent hp)

theorem lasting_issued : Lasting (τ := τ) Issued where
  bindings _ _ hr := ⟨hr.distinct, hr.id_lt, hr.parent_lt⟩
  entries r entries h hr := by
    have hlike : ∀ entry ∈ entries, ∃ old ∈ r.entries, old.bare = entry.bare := by
      intro entry he
      exact List.mem_map.1 (h ▸ List.mem_map_of_mem he : entry.bare ∈ r.outline)
    refine ⟨?_, ?_, ?_⟩
    · have e : entries.map Entry.id = r.entries.map Entry.id := by
        have hids := congrArg (List.map Entry.id) h
        rw [outline, List.map_map, List.map_map] at hids
        exact hids
      show (entries.map Entry.id).Nodup
      rw [e]
      exact hr.distinct
    · intro entry he
      obtain ⟨old, ho, hb⟩ := hlike entry he
      rw [← Entry.id_congr hb]
      exact hr.id_lt old ho
    · intro entry he parent hp
      obtain ⟨old, ho, hb⟩ := hlike entry he
      rw [← Entry.parent?_congr hb] at hp
      exact hr.parent_lt old ho parent hp
  without _ p hr :=
    ⟨hr.distinct.without p, fun entry he => hr.id_lt entry (mem_without.1 he).1,
      fun entry he => hr.parent_lt entry (mem_without.1 he).1⟩
  nextId _ hr :=
    ⟨hr.distinct, fun entry he => Nat.lt_succ_of_lt (hr.id_lt entry he),
      fun entry he parent hp => Nat.lt_succ_of_lt (hr.parent_lt entry he parent hp)⟩
  concat _ _ hr hfresh hlt hparent := hr.concat hfresh hlt hparent

/-- The registries that come about by any operations, in any order. An operation counts whether it
succeeds or not. -/
inductive Built [BindingTable τ] : Registry τ → Prop where
  | empty (config : Config) (bindings : τ) : Built (.ofConfig config bindings)
  | declare {r : Registry τ} (h : Built r) (output : OutputConfig)
      (findType : String → Option HostType) (dsl : String) (tree : Script.Block)
      (module? : Option String) : Built ((declare output findType dsl tree module?).run r).2
  | declareSource {r : Registry τ} (h : Built r) (output : OutputConfig)
      (findType : String → Option HostType) (dsl source : String) (module? : Option String) :
      Built ((declareSource output findType dsl source module?).run r).2
  | removeDsl {r : Registry τ} (h : Built r) (dsl : String) : Built ((removeDsl dsl).run r).2
  | addStandalone {r : Registry τ} (h : Built r) (name : String) (nameMode : NameMode)
      (body : Keyword.Body) (module? : Option String) :
      Built ((Session.addStandalone name nameMode body module?).run r).2
  | removeStandalone {r : Registry τ} (h : Built r) (name : String) :
      Built ((removeStandalone name).run r).2
  | subscribe {r : Registry τ} (h : Built r) (dsl path : String) (event : Event)
      (handler : ScriptBlock) : Built ((Session.subscribe dsl path event handler).run r).2
  | enterScope {r : Registry τ} (h : Built r) (id : Keyword.Id) : Built ((enterScope id).run r).2
  | leaveScope {r : Registry τ} (h : Built r) : Built (leaveScope.run r).2
  | reveal {r : Registry τ} (h : Built r) (id : Keyword.Id) : Built ((reveal id).run r).2
  | hide {r : Registry τ} (h : Built r) (id : Keyword.Id) : Built ((hide id).run r).2
  /-- The host may change the bindings at any time. -/
  | rebind {r : Registry τ} (h : Built r) (bindings : τ) : Built (r.withBindings bindings)

theorem Built.issued [BindingTable τ] (h : r.Built) : r.Issued := by
  have hscope : ∀ (r : Registry τ) scope, r.Issued → Issued { r with scope } :=
    fun _ _ hr => ⟨hr.distinct, hr.id_lt, hr.parent_lt⟩
  induction h with
  | empty config bindings =>
    exact ⟨List.nodup_nil, fun _ he => absurd he List.not_mem_nil,
      fun _ he => absurd he List.not_mem_nil⟩
  | declare _ output findType dsl tree module? ih =>
    exact (lasting_issued.steady.keeps_declare output findType dsl tree module?).run ih
  | declareSource _ output findType dsl source module? ih =>
    exact (lasting_issued.steady.keeps_declareSource output findType dsl source module?).run ih
  | removeDsl _ dsl ih => exact (lasting_issued.steady.keeps_removeDsl dsl).run ih
  | addStandalone _ name nameMode body module? ih =>
    exact (lasting_issued.keeps_addStandalone name nameMode body module?).run ih
  | removeStandalone _ name ih => exact (lasting_issued.steady.keeps_removeStandalone name).run ih
  | subscribe _ dsl path event handler ih =>
    exact (lasting_issued.keeps_subscribe dsl path event handler).run ih
  | enterScope _ id ih => exact (lasting_issued.steady.keeps_enterScope hscope id).run ih
  | leaveScope _ ih => exact (lasting_issued.steady.keeps_leaveScope hscope).run ih
  | reveal _ id ih => exact (lasting_issued.keeps_reveal id).run ih
  | hide _ id ih => exact (lasting_issued.keeps_hide id).run ih
  | rebind _ bindings ih => exact lasting_issued.bindings _ bindings ih

end Registry
end KeywordScope
