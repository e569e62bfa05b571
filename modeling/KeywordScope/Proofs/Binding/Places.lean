import KeywordScope.Proofs.Binding.Stacks

/-!
# Bindings layer by layer

What a table of layers holds in each of them. Layers are counted from the innermost one outwards.

* `LayeredTable.slot?`: the spelling and the binding of a name in one layer.
* `LayeredTable.Hosts`: the layer in which a name is bound next. If any layer holds the name, that
  is the innermost one that does (`Hosts.lookup_eq`).
* `slot?_bind`, `slot?_unbind`, `slot?_publish`: what the changes of a table do, layer by layer.
* `LayeredTable.foreign`: the bindings that lead to other commands. A purge leaves all of them
  (`foreign_purge`).
-/

namespace KeywordScope

/-- What each removal keeps is kept by a purge. -/
theorem BindingTable.purge_induction {τ : Type} [BindingTable τ] {I : τ → Prop}
    {name target : String} (h : ∀ table, isBoundTo table name target = true → I table →
      I (unbind table name).2) {table : τ} (ht : I table) : I (purge table name target) := by
  fun_induction purge table name target with
  | case1 table hbound table' hunbind _ ih => exact ih (by simpa [hunbind] using h table hbound ht)
  | case2 table hbound table' hunbind => simpa [hunbind] using h table hbound ht
  | case3 table => exact ht

namespace LayeredTable

/-- The spelling and the binding of a name in a layer. -/
def slot? (table : LayeredTable) (i : Nat) (name : String) : Option (String × Binding) :=
  table.layers[i]?.bind (·.slot? name)

/-- The spelling and the binding of a name in a layer, if it stands for another command. -/
def foreign (table : LayeredTable) (target : String) (i : Nat) (name : String) :
    Option (String × Binding) :=
  (table.slot? i name).filter fun entry => !entry.2.pointsTo target

/-- The name is bound in this layer next: no layer further in holds it, and the layer itself holds
it or else is the innermost of all. -/
structure Hosts (table : LayeredTable) (name : String) (i : Nat) : Prop where
  inner : ∀ j < i, table.slot? j name = none
  free : table.slot? i name = none → i = 0 ∧ ∀ j, table.slot? j name = none

variable {table : LayeredTable} {name other target : String} {i j : Nat}

theorem slot?_congr (table : LayeredTable) (i : Nat) (h : sameName name other = true) :
    table.slot? i name = table.slot? i other := by
  simp only [slot?, Layer.slot?_congr _ h]

theorem foreign_congr (table : LayeredTable) (target : String) (i : Nat)
    (h : sameName name other = true) :
    table.foreign target i name = table.foreign target i other := by
  rw [foreign, foreign, slot?_congr table i h]

theorem foreign_eq_some_iff {entry : String × Binding} :
    table.foreign target i name = some entry ↔
      table.slot? i name = some entry ∧ entry.2.pointsTo target = false := by
  simp [foreign, Option.filter_eq_some_iff]

theorem foreign_eq_none (h : table.slot? i name = none) : table.foreign target i name = none := by
  rw [foreign, h]
  rfl

theorem foreign_of_pointsTo {entry : String × Binding} (h : table.slot? i name = some entry)
    (hto : entry.2.pointsTo target = true) : table.foreign target i name = none := by
  simp [foreign, h, Option.filter, hto]

/-! ## Where a name is held -/

theorem Hosts.congr (h : table.Hosts name i) (same : sameName name other = true) :
    table.Hosts other i := by
  have he : ∀ j, table.slot? j other = table.slot? j name := fun j =>
    (table.slot?_congr j same).symm
  exact ⟨fun j hj => (he j).trans (h.inner j hj), fun hnone =>
    ⟨(h.free ((he i).symm.trans hnone)).1, fun j =>
      (he j).trans ((h.free ((he i).symm.trans hnone)).2 j)⟩⟩

/-- Only one layer is next. -/
theorem Hosts.unique (h : table.Hosts name i) (h' : table.Hosts name j) : i = j := by
  rcases Nat.lt_trichotomy i j with hlt | heq | hlt
  · have hfree := (h.free (h'.inner i hlt)).2
    exact absurd (h'.free (hfree j)).1 (by omega)
  · exact heq
  · have hfree := (h'.free (h.inner j hlt)).2
    exact absurd (h.free (hfree i)).1 (by omega)

/-- A layer that holds the name, in front of which no layer does. -/
theorem Hosts.of_some {entry : String × Binding} (h : table.slot? i name = some entry)
    (hinner : ∀ j < i, table.slot? j name = none) : table.Hosts name i :=
  ⟨hinner, fun hnone => by rw [h] at hnone; cases hnone⟩

theorem lookup_eq_none_iff : table.lookup name = none ↔ ∀ i, table.slot? i name = none := by
  rw [lookup, List.findSome?_eq_none_iff]
  constructor
  · intro h i
    rw [slot?]
    cases hi : table.layers[i]? with
    | none => rfl
    | some layer => exact Option.map_eq_none_iff.1 (h layer (List.mem_of_getElem? hi))
  · intro h layer hl
    obtain ⟨i, hi⟩ := List.mem_iff_getElem?.1 hl
    have hnone := h i
    rw [slot?, hi] at hnone
    exact Option.map_eq_none_iff.2 hnone

/-- What is looked up is what the next layer holds. -/
theorem Hosts.lookup_eq (h : table.Hosts name i) :
    table.lookup name = (table.slot? i name).map (·.2) := by
  cases hentry : table.slot? i name with
  | none => exact lookup_eq_none_iff.2 (h.free hentry).2
  | some entry =>
    obtain ⟨layer, hlayer, hfound⟩ := Option.bind_eq_some_iff.1 hentry
    obtain ⟨hlt, hget⟩ := List.getElem?_eq_some_iff.1 hlayer
    have hsplit : table.layers = table.layers.take i ++ layer :: table.layers.drop (i + 1) := by
      rw [← hget, List.getElem_cons_drop, List.take_append_drop]
    have hinner : (table.layers.take i).findSome? (·.find? name) = none := by
      refine List.findSome?_eq_none_iff.2 fun other ho => ?_
      obtain ⟨j, hj⟩ := List.mem_iff_getElem?.1 ho
      rw [List.getElem?_take] at hj
      split at hj
      · next hji =>
        have hnone := h.inner j hji
        rw [slot?, hj] at hnone
        exact Option.map_eq_none_iff.2 hnone
      · cases hj
    rw [lookup, hsplit, List.findSome?_append, hinner, Option.none_or, List.findSome?_cons,
      Layer.find?_eq_slot?, hfound]
    rfl

/-! ## Changes -/

/-- A change of the holder of a name is one of the layer that is next. -/
theorem slot?_change (table : LayeredTable) {name : String} {change : Layer → Layer}
    {top? : Option (String × Binding)}
    (h : ∀ layer other, (change layer).slot? other =
      if sameName name other then top? else layer.slot? other) :
    (table.change? name change = none ∧ ∀ i, table.slot? i name = none) ∨
      ∃ i entry table', table.change? name change = some table' ∧ table.Hosts name i ∧
        table.slot? i name = some entry ∧ ∀ j other, table'.slot? j other =
          if j = i ∧ sameName name other = true then top? else table.slot? j other := by
  have hlayers := table.layers_change? name change
  rcases changeHolder?_eq name change table.layers with
    ⟨hnone, hall⟩ | ⟨inner, layer, outer, hsplit, holds, hinner, hsome⟩
  · rw [hnone, Option.map_eq_none_iff] at hlayers
    refine .inl ⟨hlayers, lookup_eq_none_iff.1 (List.findSome?_eq_none_iff.2 fun layer hl => ?_)⟩
    exact Layer.find?_eq_none_iff.2 (hall layer hl)
  · rw [hsome] at hlayers
    obtain ⟨table', htable, hafter⟩ := Option.map_eq_some_iff.1 hlayers
    have hset : table'.layers = table.layers.set inner.length (change layer) := by
      rw [hafter, hsplit]
      simp
    have hlayer : table.layers[inner.length]? = some layer := by
      rw [hsplit]
      simp
    obtain ⟨entry, hentry⟩ : ∃ entry, layer.slot? name = some entry := by
      cases hentry : layer.slot? name with
      | none => rw [Layer.slot?_eq_none_iff.1 hentry] at holds; cases holds
      | some entry => exact ⟨entry, rfl⟩
    have htop : table.slot? inner.length name = some entry := by
      rw [slot?, hlayer]
      exact hentry
    refine .inr ⟨inner.length, entry, table', htable, .of_some htop fun j hj => ?_, htop,
      fun j other => ?_⟩
    · rw [slot?, hsplit, List.getElem?_append_left hj, List.getElem?_eq_getElem hj]
      exact Layer.slot?_eq_none_iff.2 (hinner _ (List.getElem_mem hj))
    · rw [slot?, hset, List.getElem?_set]
      by_cases hj : j = inner.length
      · subst hj
        have hlt := (List.getElem?_eq_some_iff.1 hlayer).1
        rw [slot?, hlayer]
        simp [hlt, h]
      · simp [slot?, hj, Ne.symm hj]

theorem exists_hosts (table : LayeredTable) (name : String) : ∃ i, table.Hosts name i := by
  rcases table.slot?_change fun layer other => layer.slot?_erase name other with
    ⟨-, hfree⟩ | ⟨i, -, -, -, hhosts, -⟩
  · exact ⟨0, fun _ hj => absurd hj (Nat.not_lt_zero _), fun _ => ⟨rfl, hfree⟩⟩
  · exact ⟨i, hhosts⟩

theorem slot?_bindLocal (table : LayeredTable) (name : String) (binding : Binding) (j : Nat)
    (other : String) : (table.bindLocal name binding).slot? j other =
      if j = 0 ∧ sameName name other = true then some (name, binding)
      else table.slot? j other := by
  cases j with
  | zero =>
    show (table.innermost.insert name binding).slot? other = _
    rw [Layer.slot?_insert]
    simp [slot?, layers]
  | succ j => simp [slot?, bindLocal, layers]

/-- A name is bound in the layer that is next. -/
theorem slot?_bind (hhosts : table.Hosts name i) (hname : name ≠ "") (binding : Binding) (j : Nat)
    (other : String) : (table.bind name binding).2.slot? j other =
      if j = i ∧ sameName name other = true then some (name, binding)
      else table.slot? j other := by
  rw [bind, if_neg hname]
  rcases table.slot?_change fun layer other => layer.slot?_insert name other binding with
    ⟨hnone, hfree⟩ | ⟨i', -, table', hsome, hhosts', -, hentry⟩
  · rw [(hhosts.free (hfree i)).1, hnone]
    exact table.slot?_bindLocal name binding j other
  · rw [hhosts.unique hhosts', hsome]
    exact hentry j other

/-- What is removed is the binding in the layer that is next. -/
theorem slot?_unbind (hhosts : table.Hosts name i) (j : Nat) (other : String) :
    (table.unbind name).2.slot? j other =
      if j = i ∧ sameName name other = true then none else table.slot? j other := by
  rw [unbind]
  rcases table.slot?_change fun layer other => layer.slot?_erase name other with
    ⟨hnone, hfree⟩ | ⟨i', -, table', hsome, hhosts', -, hentry⟩
  · rw [hnone]
    by_cases h : j = i ∧ sameName name other = true
    · rw [if_pos h, ← table.slot?_congr j h.2]
      exact hfree j
    · rw [if_neg h]
  · rw [hhosts.unique hhosts', hsome]
    exact hentry j other

theorem slot?_publish (table : LayeredTable) (module published : String) (j : Nat)
    (other : String) : (table.publish module published).slot? j other = table.slot? j other := by
  unfold publish
  split <;> rfl

/-! ## Purges -/

theorem foreign_unbind (h : BindingTable.isBoundTo table name target = true) (j : Nat)
    (other : String) : (table.unbind name).2.foreign target j other =
      table.foreign target j other := by
  obtain ⟨i, hhosts⟩ := table.exists_hosts name
  by_cases hthere : j = i ∧ sameName name other = true
  · obtain ⟨rfl, same⟩ := hthere
    have htop : (table.lookup name).any (·.pointsTo target) = true := h
    rw [hhosts.lookup_eq, Option.any_map, Option.any_eq_true] at htop
    obtain ⟨entry, hentry, hto⟩ := htop
    rw [← foreign_congr _ _ _ same, ← foreign_congr _ _ _ same, foreign_of_pointsTo hentry hto]
    exact foreign_eq_none (by simp [slot?_unbind hhosts, sameName_refl])
  · rw [foreign, slot?_unbind hhosts, if_neg hthere, foreign]

/-- Nothing but bindings to the command is purged. -/
theorem foreign_purge (table : LayeredTable) (name target : String) (j : Nat) (other : String) :
    (BindingTable.purge table name target).foreign target j other =
      table.foreign target j other :=
  BindingTable.purge_induction (I := fun t : LayeredTable => t.foreign target j other =
    table.foreign target j other) (fun _ hbound ht => (foreign_unbind hbound j other).trans ht) rfl

/-- Other names are not purged. -/
theorem slot?_purge_of_ne (table : LayeredTable) (target : String) (j : Nat)
    (h : sameName name other = false) :
    (BindingTable.purge table name target).slot? j other = table.slot? j other := by
  refine BindingTable.purge_induction
    (I := fun t : LayeredTable => t.slot? j other = table.slot? j other) (fun t _ ht => ?_) rfl
  obtain ⟨i, hhosts⟩ := t.exists_hosts name
  show (t.unbind name).2.slot? j other = _
  rw [slot?_unbind hhosts, if_neg (by simp [h]), ht]

end LayeredTable
end KeywordScope
