import KeywordScope.Registry.Change
import KeywordScope.Proofs.Binding.Stacks

/-!
# Purging a name from layers

The purge of a name is a loop: as long as the name is bound to the command, its innermost binding
is removed.

* `BindingTable.Rounds`: the loop with the number of bindings that it removes. It ends over every
  table (`BindingTable.rounds_purge`).
* `LayeredTable.Purged`: what a purge leaves of some layers. The layers give way as long as they
  hold no binding of the name to another command (`Layer.yields`).
* `Registry.run_purgeName_purged`: purging the name of a keyword.
-/

namespace KeywordScope

/-! ## The loop -/

namespace BindingTable

variable {τ : Type} [BindingTable τ]

/-- The loop of a purge, with the number of bindings that it removes. -/
inductive Rounds (name target : String) : Nat → τ → τ → Prop
  /-- The name is not bound to the command. -/
  | done {table : τ} : isBoundTo table name target = false → Rounds name target 0 table table
  /-- The table does not let the binding go. -/
  | refused {table table' : τ} : isBoundTo table name target = true →
      unbind table name = (false, table') → Rounds name target 0 table table'
  /-- A binding is removed. -/
  | next {n : Nat} {table table' after : τ} : isBoundTo table name target = true →
      unbind table name = (true, table') → Rounds name target n table' after →
      Rounds name target (n + 1) table after

/-- The loop ends over every table, after at most as many rounds as there are bindings. -/
theorem rounds_purge (table : τ) (name target : String) :
    ∃ n ≤ size table, Rounds name target n table (purge table name target) := by
  fun_induction purge table name target with
  | case1 table hbound table' hunbind hlt ih =>
    obtain ⟨n, hn, hrest⟩ := ih
    exact ⟨n + 1, by omega, .next hbound hunbind hrest⟩
  | case2 table hbound table' hunbind => exact ⟨0, Nat.zero_le _, .refused hbound hunbind⟩
  | case3 table hbound => exact ⟨0, Nat.zero_le _, .done (Bool.eq_false_iff.2 hbound)⟩

end BindingTable

/-! ## Layers -/

namespace Layer

/-- A purge of the name gets past the layer: it holds no binding of the name to another command. -/
def yields (layer : Layer) (name target : String) : Bool :=
  (layer.find? name).all (·.pointsTo target)

theorem erase_eq_self {layer : Layer} {name : String} (h : layer.holds name = false) :
    layer.erase name = layer :=
  List.filter_eq_self.2 fun entry hentry => by
    simpa using List.any_eq_false.1 h entry hentry

theorem holds_erase (layer : Layer) (name : String) : (layer.erase name).holds name = false := by
  rw [← find?_eq_none_iff, find?_erase, if_pos (sameName_refl name)]

theorem yields_of_free {layer : Layer} {name : String} (h : layer.holds name = false)
    (target : String) : layer.yields name target = true := by
  rw [yields, find?_eq_none_iff.2 h]
  rfl

end Layer

namespace LayeredTable

/-- What a purge of a name leaves of some layers, and the number of bindings that it removes. -/
structure Purged (name target : String) (table : LayeredTable) (n : Nat)
    (after : LayeredTable) : Prop where
  /-- Each binding is removed in a round of its own: one of each layer that holds the name, up to
  the first binding to another command. -/
  rounds : n = (table.layers.takeWhile (·.yields name target)).countP (·.holds name)
  /-- These layers lose the name. From the first binding to another command outwards, the layers
  stay as they are. -/
  layers : after.layers = (table.layers.takeWhile (·.yields name target)).map (·.erase name) ++
    table.layers.dropWhile (·.yields name target)
  published : after.published = table.published

/-- What is bound to the command is removed from the innermost layer that holds it. -/
theorem unbind_of_isBoundTo {table : LayeredTable} {name target : String}
    (h : BindingTable.isBoundTo table name target = true) :
    ∃ inner layer outer after, table.layers = inner ++ layer :: outer ∧
      (∀ other ∈ inner, other.holds name = false) ∧
      layer.holds name = true ∧ layer.yields name target = true ∧
      table.unbind name = (true, after) ∧
      after.layers = inner ++ layer.erase name :: outer := by
  have htop : (table.lookup name).any (·.pointsTo target) = true := h
  rw [lookup_eq_held, held] at htop
  have hlayers := table.layers_change? name (·.erase name)
  rcases changeHolder?_eq name (·.erase name) table.layers with
    ⟨-, hall⟩ | ⟨inner, layer, outer, hsplit, holds, hinner, hsome⟩
  · rw [heldIn_eq_nil_iff.2 hall] at htop
    cases htop
  · rw [hsome] at hlayers
    obtain ⟨after, hafter, houtcome⟩ := Option.map_eq_some_iff.1 hlayers
    rw [hsplit, heldIn_append, heldIn_eq_nil_iff.2 hinner, List.nil_append, heldIn,
      List.filterMap_cons] at htop
    refine ⟨inner, layer, outer, after, hsplit, hinner, holds, ?_, by rw [unbind, hafter],
      houtcome⟩
    cases hfound : layer.find? name with
    | none => rw [Layer.find?_eq_none_iff.1 hfound] at holds; cases holds
    | some top => simpa [Layer.yields, hfound] using htop

theorem published_unbind (table : LayeredTable) (name : String) :
    (table.unbind name).2.published = table.published := by
  unfold unbind change?
  split
  · next after changed =>
    split at changed
    · obtain rfl := by simpa using changed
      rfl
    · obtain ⟨outer, -, rfl⟩ := Option.map_eq_some_iff.1 changed
      rfl
  · rfl

/-- Where the name is not bound to the command, the layers that a purge would get past do not hold
it. -/
theorem holds_of_mem_takeWhile {layers : List Layer} {name target : String}
    (h : (layers.findSome? (·.find? name)).any (·.pointsTo target) = false) {layer : Layer}
    (hlayer : layer ∈ layers.takeWhile (·.yields name target)) : layer.holds name = false := by
  induction layers with
  | nil => cases hlayer
  | cons first outer ih =>
    rw [List.findSome?_cons] at h
    cases hfirst : first.find? name with
    | some top =>
      have hstop : ¬ first.yields name target = true := by
        simpa [hfirst, Layer.yields] using h
      rw [List.takeWhile_cons, if_neg hstop] at hlayer
      cases hlayer
    | none =>
      have hfree := Layer.find?_eq_none_iff.1 hfirst
      rw [List.takeWhile_cons, if_pos (Layer.yields_of_free hfree target)] at hlayer
      rw [hfirst] at h
      rcases List.mem_cons.1 hlayer with rfl | hmem
      · exact hfree
      · exact ih h hmem

/-- Where the name is not bound to the command, a purge leaves everything. -/
theorem Purged.done {table : LayeredTable} {name target : String}
    (h : BindingTable.isBoundTo table name target = false) :
    Purged name target table 0 table := by
  have hfree : ∀ layer ∈ table.layers.takeWhile (·.yields name target),
      layer.holds name = false := fun _ hl => holds_of_mem_takeWhile h hl
  refine ⟨(List.countP_eq_zero.2 fun layer hl => by simp [hfree layer hl]).symm, ?_, rfl⟩
  rw [List.map_congr_left fun layer hl => Layer.erase_eq_self (hfree layer hl), List.map_id',
    List.takeWhile_append_dropWhile]

/-- A purge gets past the layers that do not hold the name, and past one that yields. -/
theorem span_yields {inner : List Layer} {layer : Layer} {name target : String}
    (outer : List Layer) (hinner : ∀ other ∈ inner, other.holds name = false)
    (hyields : layer.yields name target = true) :
    (inner ++ layer :: outer).takeWhile (·.yields name target) =
        inner ++ layer :: outer.takeWhile (·.yields name target) ∧
      (inner ++ layer :: outer).dropWhile (·.yields name target) =
        outer.dropWhile (·.yields name target) := by
  have hpast : ∀ other ∈ inner, other.yields name target = true :=
    fun other ho => Layer.yields_of_free (hinner other ho) target
  constructor
  · rw [List.takeWhile_append_of_pos hpast, List.takeWhile_cons, if_pos hyields]
  · rw [List.dropWhile_append_of_pos hpast, List.dropWhile_cons, if_pos hyields]

/-- A round removes the first binding that the purge is to remove. -/
theorem Purged.next {table table' after : LayeredTable} {name target : String} {n : Nat}
    (hbound : BindingTable.isBoundTo table name target = true)
    (hunbind : table.unbind name = (true, table')) (h : Purged name target table' n after) :
    Purged name target table (n + 1) after := by
  obtain ⟨inner, layer, outer, found, hsplit, hinner, holds, hyields, hfound, hlayers⟩ :=
    unbind_of_isBoundTo hbound
  obtain rfl : found = table' := by rw [hunbind] at hfound; cases hfound; rfl
  have hgone := Layer.holds_erase layer name
  obtain ⟨htake, hdrop⟩ := span_yields outer hinner hyields
  obtain ⟨htake', hdrop'⟩ := span_yields outer hinner (Layer.yields_of_free hgone target)
  constructor
  · rw [h.rounds, hlayers, hsplit, htake, htake']
    simp [hgone, holds, Nat.add_assoc]
  · rw [h.layers, hlayers, hsplit, htake, htake', hdrop, hdrop']
    simp [Layer.erase_eq_self hgone]
  · have hpublished := published_unbind table name
    rw [hunbind] at hpublished
    exact h.published.trans hpublished

/-- The loop removes what a purge is to remove. Layers let every binding go. -/
theorem Purged.of_rounds {table after : LayeredTable} {name target : String} {n : Nat}
    (h : BindingTable.Rounds name target n table after) : Purged name target table n after := by
  induction h with
  | done hfree => exact .done hfree
  | refused hbound hunbind =>
    obtain ⟨_, _, _, _, -, -, -, -, hgone, -⟩ := unbind_of_isBoundTo hbound
    cases hgone.symm.trans hunbind
  | next hbound hunbind _ ih => exact .next hbound hunbind ih

/-- No other name loses anything, in any layer. -/
theorem Purged.erase_layers {table after : LayeredTable} {name target : String} {n : Nat}
    (h : Purged name target table n after) :
    after.layers.map (·.erase name) = table.layers.map (·.erase name) := by
  have htwice : ∀ layer : Layer, (layer.erase name).erase name = layer.erase name :=
    fun layer => Layer.erase_eq_self (layer.holds_erase name)
  rw [h.layers, List.map_append, List.map_map]
  simp only [Function.comp_def, htwice]
  rw [← List.map_append, List.takeWhile_append_dropWhile]

end LayeredTable

/-! ## Purging the name of a keyword -/

namespace Registry

/-- The loop ends. Then the name stands for another command or for none; the innermost bindings to
the command are gone, up to the first binding to another command; all other bindings, and what
modules publish, are as before. -/
theorem run_purgeName_purged (r : Registry LayeredTable) (name : String) :
    ∃ n after, BindingTable.Rounds name r.target n r.bindings after ∧
      (purgeName name).run r = (.ok (), { r with bindings := after }) ∧
      (∀ binding ∈ after.lookup name, binding.pointsTo r.target = false) ∧
      LayeredTable.Purged name r.target r.bindings n after ∧
      after.layers.map (·.erase name) = r.bindings.layers.map (·.erase name) := by
  obtain ⟨n, -, hrounds⟩ := BindingTable.rounds_purge r.bindings name r.target
  have hpurged := LayeredTable.Purged.of_rounds hrounds
  refine ⟨n, _, hrounds, rfl, fun binding hb => Bool.eq_false_iff.2 fun hto => ?_, hpurged,
    hpurged.erase_layers⟩
  -- What is bound to the command after a purge is another name.
  have hbound : BindingTable.isBoundTo (BindingTable.purge r.bindings name r.target) name
      r.target = true := (Option.any_eq_true _ _).2 ⟨binding, hb, hto⟩
  have hother := ((BindingTable.Stacked.isBoundTo_purge _ _ _ _).1 hbound).2
  rw [sameName_refl] at hother
  cases hother

end Registry

end KeywordScope
