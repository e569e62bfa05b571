import KeywordScope.Proofs.Registry.Growth
import KeywordScope.Proofs.Scope.Settled

/-!
# Registration and nested scopes

Registering and removing keywords keeps the entries nested. Standalone keywords may come and go at
any time, languages while no scope is entered.

* `keeps_registerStandalone`, `keeps_removeStandalone`, `keeps_subscribe`: the changes that are
  allowed at any time.
* `Growing`: what holds while the keywords of a language are registered.
* `keeps_declare`, `keeps_removeDsl`: languages that come and go leave the registry settled, whether
  they fail on the way or not.
-/

namespace KeywordScope
namespace Registry

open Step

variable {τ : Type} {r : Registry τ}

/-! ## Registering keywords -/

theorem keeps_allocate : Keeps Nested (allocate (τ := τ)) :=
  Keeps.of_run fun _ hn => hn.of_entries rfl rfl

/-- Hooks have nothing to do with scopes. -/
theorem keeps_setHook (dsl path : String) {change : Entry → Entry}
    (hb : ∀ entry, (change entry).bare = entry.bare)
    (hv : ∀ entry, (change entry).visible = entry.visible) :
    Keeps Nested (setHook (τ := τ) dsl path change) :=
  Keeps.of_run fun r hn => by
    rw [setHook, run_bind_ok (run_get r)]
    rcases r.entryAt? dsl path with _ | found
    · exact hn
    · have hchange : ∀ entry : Entry,
          (if entry.id == found.id then change entry else entry).bare = entry.bare := by
        intro entry
        split
        · exact hb entry
        · rfl
      refine hn.congr ?_ rfl ?_
      · exact (List.map_congr_left fun entry _ => (hchange entry).symm).trans
          (List.map_map (g := Entry.bare)).symm
      · intro entry' he'
        obtain ⟨entry, he, rfl⟩ := List.mem_map.1 he'
        refine ⟨entry, he, (hchange entry).symm, ?_⟩
        split
        · exact (hv entry).symm
        · rfl

theorem keeps_subscribe (dsl path : String) (event : Event) (handler : ScriptBlock) :
    Keeps Nested (Session.subscribe (τ := τ) dsl path event handler) := by
  cases event
  · exact keeps_setHook dsl path (fun _ => rfl) fun _ => rfl
  · exact keeps_setHook dsl path (fun _ => rfl) fun _ => rfl

section Table

variable [BindingTable τ]

theorem keeps_registerStandalone (keyword : Keyword) :
    Keeps Nested (registerStandalone (τ := τ) keyword) :=
  keeps_registerStandalone_of bindingFree_nested keyword fun _ hr hfresh =>
    hr.concat_standalone hfresh rfl rfl

/-! ## Removing keywords -/

theorem keeps_removeStandalone (name : String) :
    Keeps Nested (removeStandalone (τ := τ) name) :=
  Keeps.of_run fun r hn => by
    rw [removeStandalone, run_bind_ok (run_get r)]
    rcases hs : r.standalone? name with _ | keyword
    · exact hn
    · obtain ⟨entry, he, rfl⟩ := List.mem_map.1 (List.mem_of_find?_eq_some hs)
      obtain ⟨he, hm⟩ := List.mem_filter.1 he
      have hr := run_unregister (hn.distinct.find?_eq he)
      have hgone := hn.without_standalone he (by simpa using hm)
      have hrun : (discard (unregister entry.keyword.id) : Action τ PUnit).run r = _ :=
        run_discard_ok hr
      simp only
      rw [run_bind_ok hrun, run_pure]
      exact bindingFree_nested _ _ hgone

theorem keeps_removeDsl (dsl : String) : Keeps Settled (removeDsl (τ := τ) dsl) :=
  Keeps.of_run fun r hr => by
    obtain ⟨t, ht⟩ := run_removeDsl hr.distinct dsl
    rw [ht]
    exact bindingFree_settled _ t (hr.without_dsl dsl)

end Table

/-! ## Growing languages -/

/-- While a language grows: the registry is settled, and the keywords on the way down to the next
one are registered members of the language. -/
structure Growing (dsl : String) (way : Way) (r : Registry τ) : Prop extends r.Settled where
  above_lt : ∀ place ∈ way, place.1.number < r.nextId
  above_in : ∀ place ∈ way, ∃ entry ∈ r.entries, entry.id = place.1 ∧ entry.isIn dsl = true

/-- Before the first keyword of a language nothing stands above. -/
theorem growing_nil {dsl : String} : r.Growing dsl [] ↔ r.Settled :=
  ⟨Growing.toSettled, fun hr => ⟨hr, fun _ h => absurd h List.not_mem_nil,
    fun _ h => absurd h List.not_mem_nil⟩⟩

theorem grows_growing (dsl : String) : Grows (τ := τ) dsl (Growing dsl) where
  bindings _ r bindings hr :=
    ⟨bindingFree_settled r bindings hr.toSettled, hr.above_lt, hr.above_in⟩
  up _ _ _ hr :=
    ⟨hr.toSettled, fun other ho => hr.above_lt other (List.mem_cons_of_mem _ ho),
      fun other ho => hr.above_in other (List.mem_cons_of_mem _ ho)⟩
  nextId _ r hr := by
    have hnested : Nested { r with nextId := r.nextId + 1 } := hr.nested.of_entries rfl rfl
    exact ⟨hnested.settled hr.scope_nil, fun place hp => Nat.lt_succ_of_lt (hr.above_lt place hp),
      hr.above_in⟩
  add way keyword r hr hid hname hfresh hparent _ := by
    let next : Registry τ := { r with nextId := r.nextId + 1 }
    have hsettled : next.Settled := by
      have hnested : next.Nested := hr.nested.of_entries rfl rfl
      exact hnested.settled hr.scope_nil
    have hparents : ∀ parent, way.parent? = some parent → parent.number < keyword.id.number ∧
        ∃ above ∈ r.entries, above.id = parent ∧ above.isIn dsl = true := by
      intro parent hp
      obtain ⟨place, hplace, rfl⟩ := Option.map_eq_some_iff.1 hp
      have hmem := List.mem_of_head? hplace
      rw [hid]
      exact ⟨hr.above_lt place hmem, hr.above_in place hmem⟩
    have hadded : (next.concat (r.nextEntry dsl way keyword)).Settled := by
      refine hsettled.concat hfresh ?_ (ne_empty_of_isKeywordName hname) ?_
      · intro parent hp
        obtain ⟨hlt, above, ha, hid, hin⟩ := hparents parent hp
        exact ⟨hlt, fun dsl' hin' => ⟨above, ha, hid, (Entry.isIn_iff_sameName hin).2 hin'⟩⟩
      · show (way.parent?.isNone && r.scope.isEmpty) = way.parent?.isNone
        rw [hr.scope_nil]
        exact Bool.and_true _
    refine ⟨hadded, ?_, ?_⟩
    · intro place hplace
      rcases List.mem_cons.1 hplace with rfl | hplace
      · rw [hid]
        exact Nat.lt_succ_self r.nextId
      · exact Nat.lt_succ_of_lt (hr.above_lt place hplace)
    · intro place hplace
      rcases List.mem_cons.1 hplace with rfl | hplace
      · exact ⟨_, mem_concat.2 (.inr rfl), rfl, sameName_refl dsl⟩
      · obtain ⟨entry, he, hlike⟩ := hr.above_in place hplace
        exact ⟨entry, mem_concat.2 (.inl he), hlike⟩

/-! ## Declaring a language -/

variable [BindingTable τ]

theorem keeps_declare (output : OutputConfig) (findType : String → Option HostType) (dsl : String)
    (tree : Script.Block) (module? : Option String) :
    Keeps (Settled (τ := τ)) (declare output findType dsl tree module?) := by
  have hremove : Keeps (Growing (τ := τ) dsl []) (removeDsl dsl) :=
    (keeps_removeDsl dsl).conseq (fun _ => growing_nil.1) (fun _ _ => growing_nil.2)
      fun _ _ => growing_nil.2
  exact ((grows_growing dsl).keeps_declare hremove output findType tree module?).conseq
    (fun _ => growing_nil.2) (fun _ _ => growing_nil.1) fun _ _ => growing_nil.1

theorem keeps_declareSource (output : OutputConfig) (findType : String → Option HostType)
    (dsl source : String) (module? : Option String) :
    Keeps (Settled (τ := τ)) (declareSource output findType dsl source module?) :=
  keeps_declareSource_of (keeps_declare output findType dsl · module?) source

end Registry
end KeywordScope
