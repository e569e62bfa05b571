import KeywordScope.Binding.Layered

/-!
# Stacks of bindings

Of each name a table holds a stack of bindings. The one on top is looked up; when it is removed,
the one below comes up.

* `BindingTable.Stacked`: the tables that work like this. They may refuse to bind any name at any
  time, and change nothing then.
* `Stacked.held_purge`: a purge drops the bindings to a command from the top of one stack.
* `LayeredTable.held`: layers of bindings are such a table, with at most one binding a layer.
-/

namespace KeywordScope

theorem sameName_empty {name : String} (h : sameName name "" = true) : name = "" := by
  have hlist := congrArg String.toList (sameName_iff.1 h)
  simp only [foldCase, String.toList_ofList] at hlist
  exact String.toList_eq_nil_iff.1 (List.map_eq_nil_iff.1 hlist)

/-! ## Tables with stacks -/

namespace BindingTable

/-- A table that holds a stack of bindings of each name. It may refuse to bind a name. -/
class Stacked (τ : Type) [BindingTable τ] where
  /-- The bindings of a name, the one on top first. -/
  held : τ → String → List Binding
  held_congr : ∀ (table : τ) {name other : String}, sameName name other = true →
    held table name = held table other
  lookup_eq : ∀ (table : τ) (name : String), lookup table name = (held table name).head?
  /-- The new binding of a name takes the place of the one on top. -/
  held_bind : ∀ (table : τ) (name : String) (binding : Binding),
    (bind table name binding).1 = .ok () → ∀ other, held (bind table name binding).2 other =
      if sameName name other then binding :: (held table name).tail else held table other
  held_bind_refused : ∀ (table : τ) (name : String) (binding : Binding),
    (bind table name binding).1 ≠ .ok () → ∀ other,
      held (bind table name binding).2 other = held table other
  /-- The empty name is refused. -/
  bind_empty : ∀ (table : τ) (binding : Binding), (bind table "" binding).1 ≠ .ok ()
  unbind_eq : ∀ (table : τ) (name : String), (unbind table name).1 = !(held table name).isEmpty
  /-- The binding on top is removed. -/
  held_unbind : ∀ (table : τ) (name other : String), held (unbind table name).2 other =
    if sameName name other then (held table name).tail else held table other
  held_publish : ∀ (table : τ) (module name other : String),
    held (publish table module name).2 other = held table other

namespace Stacked

variable {τ : Type} [BindingTable τ] [Stacked τ]

theorem isBoundTo_eq (table : τ) (name target : String) :
    isBoundTo table name target = (held table name).head?.any (·.pointsTo target) := by
  rw [isBoundTo, lookup_eq]

/-- A purge drops the bindings to the command from the top of the stack, and touches no other
name. -/
theorem held_purge (table : τ) (name target other : String) :
    held (purge table name target) other =
      if sameName name other then (held table name).dropWhile (·.pointsTo target)
      else held table other := by
  fun_induction purge table name target with
  | case1 table hbound table' hunbind hlt ih =>
    have hrest := held_unbind table name
    rw [hunbind] at hrest
    rw [ih, hrest, hrest, if_pos (sameName_refl name)]
    split
    · rw [isBoundTo_eq] at hbound
      cases hheld : held table name with
      | nil => simp [hheld] at hbound
      | cons first rest =>
        have hfirst : first.pointsTo target = true := by simpa [hheld] using hbound
        rw [List.dropWhile_cons_of_pos (p := fun b : Binding => b.pointsTo target) hfirst]
        rfl
    · rfl
  | case2 table hbound table' hunbind =>
    -- What is bound can be removed.
    have hsome := unbind_eq table name
    rw [hunbind] at hsome
    have hempty : held table name = [] := by simpa using hsome
    rw [isBoundTo_eq, hempty] at hbound
    cases hbound
  | case3 table hbound =>
    split
    · next same =>
      rw [← held_congr table same]
      rw [isBoundTo_eq] at hbound
      cases hheld : held table name with
      | nil => rfl
      | cons first rest =>
        have hfirst : ¬ first.pointsTo target = true := by simpa [hheld] using hbound
        rw [List.dropWhile_cons_of_neg (p := fun b : Binding => b.pointsTo target) hfirst]
    · rfl

/-- After a purge the name is not bound to the command any more. Nothing else changes. -/
theorem isBoundTo_purge (table : τ) (name target other : String) :
    isBoundTo (purge table name target) other target = true ↔
      isBoundTo table other target = true ∧ sameName name other = false := by
  rw [isBoundTo_eq, isBoundTo_eq, held_purge]
  by_cases same : sameName name other = true
  · have htop := List.head?_dropWhile_not (fun b : Binding => b.pointsTo target) (held table name)
    rw [if_pos same]
    cases hrest : ((held table name).dropWhile (·.pointsTo target)).head? with
    | none => simp [same]
    | some top =>
      rw [hrest] at htop
      simp [same, htop]
  · simp [same]

theorem lookup_purge_of_ne (table : τ) {name other : String} (target : String)
    (h : sameName name other = false) :
    lookup (purge table name target) other = lookup table other := by
  rw [lookup_eq, lookup_eq, held_purge, if_neg (by simp [h])]

/-- A purge goes no further than a binding to another command. -/
theorem lookup_purge_of_foreign (table : τ) (name target : String) {other : String}
    {binding : Binding} (h : lookup table other = some binding)
    (hforeign : binding.pointsTo target = false) :
    lookup (purge table name target) other = some binding := by
  by_cases same : sameName name other = true
  · rw [lookup_eq] at h
    obtain ⟨rest, hheld⟩ := List.head?_eq_some_iff.1 h
    rw [lookup_eq, held_purge, if_pos same, held_congr table same, hheld,
      List.dropWhile_cons_of_neg (by simp [hforeign])]
    rfl
  · rw [lookup_purge_of_ne table target (Bool.eq_false_iff.2 same), h]

end Stacked

end BindingTable

/-! ## Layers -/

namespace Layer

/-- The spelling and the binding of a name. -/
def slot? (layer : Layer) (name : String) : Option (String × Binding) :=
  List.find? (fun entry => sameName entry.1 name) layer

theorem find?_eq_slot? (layer : Layer) (name : String) :
    layer.find? name = (layer.slot? name).map (·.2) := rfl

theorem slot?_cons (entry : String × Binding) (layer : Layer) (name : String) :
    slot? (entry :: layer) name =
      if sameName entry.1 name then some entry else slot? layer name := by
  rw [slot?, List.find?_cons]
  split <;> simp_all [slot?]

theorem slot?_eq_none_iff {layer : Layer} {name : String} :
    layer.slot? name = none ↔ layer.holds name = false := by
  simp [slot?, holds]

theorem find?_eq_none_iff {layer : Layer} {name : String} :
    layer.find? name = none ↔ layer.holds name = false := by
  rw [find?_eq_slot?, Option.map_eq_none_iff, slot?_eq_none_iff]

theorem slot?_congr (layer : Layer) {name other : String} (h : sameName name other = true) :
    layer.slot? name = layer.slot? other := by
  simp only [slot?, sameName_congr h]

theorem find?_congr (layer : Layer) {name other : String} (h : sameName name other = true) :
    layer.find? name = layer.find? other := by
  rw [find?_eq_slot?, slot?_congr layer h, find?_eq_slot?]

/-- All bindings of a name give way to a new one. -/
theorem slot?_rebind (layer : Layer) (name other : String) (binding : Binding) :
    slot? (layer.map fun entry => if sameName entry.1 name then (name, binding) else entry) other =
      if sameName name other then (layer.slot? name).map fun _ => (name, binding)
      else layer.slot? other := by
  induction layer with
  | nil => simp [slot?]
  | cons entry layer ih =>
    rw [List.map_cons, slot?_cons, slot?_cons, slot?_cons, ih]
    by_cases same : sameName name other = true
    · simp only [same, if_true, sameName_congr same]
      split <;> simp_all
    · by_cases hentry : sameName entry.1 name = true
      · have hother : ¬ sameName entry.1 other = true := fun h =>
          same (sameName_trans (by rwa [sameName_comm]) h)
        simp [hentry, same, hother]
      · simp [hentry, same]

theorem slot?_insert (layer : Layer) (name other : String) (binding : Binding) :
    (layer.insert name binding).slot? other =
      if sameName name other then some (name, binding) else layer.slot? other := by
  by_cases holds : layer.holds name = true
  · rw [insert, if_pos holds, slot?_rebind]
    cases hold : layer.slot? name with
    | none => rw [slot?_eq_none_iff.1 hold] at holds; cases holds
    | some old => rfl
  · have hnone := slot?_eq_none_iff.2 (Bool.eq_false_iff.2 holds)
    rw [insert, if_neg holds, slot?, List.find?_append]
    by_cases same : sameName name other = true
    · rw [slot?_congr layer same, slot?] at hnone
      simp [hnone, same]
    · simp [slot?, same]

theorem find?_insert (layer : Layer) (name other : String) (binding : Binding) :
    (layer.insert name binding).find? other =
      if sameName name other then some binding else layer.find? other := by
  rw [find?_eq_slot?, slot?_insert]
  split <;> rfl

theorem slot?_erase (layer : Layer) (name other : String) :
    (layer.erase name).slot? other =
      if sameName name other then none else layer.slot? other := by
  by_cases same : sameName name other = true
  · rw [if_pos same, ← slot?_congr _ same, slot?_eq_none_iff]
    simp [erase, holds]
  · rw [if_neg same]
    simp only [slot?, erase, List.find?_filter]
    congr 1
    funext entry
    by_cases hother : sameName entry.1 other = true
    · have hname : ¬ sameName entry.1 name = true := fun h =>
        same (sameName_trans (by rwa [sameName_comm]) hother)
      simp [hother, hname]
    · simp [hother]

theorem find?_erase (layer : Layer) (name other : String) :
    (layer.erase name).find? other =
      if sameName name other then none else layer.find? other := by
  rw [find?_eq_slot?, slot?_erase]
  split <;> rfl

end Layer

namespace LayeredTable

/-- The bindings of a name in some layers, the innermost one first. -/
def heldIn (layers : List Layer) (name : String) : List Binding :=
  layers.filterMap (·.find? name)

/-- The bindings of a name, the innermost one first. -/
def held (table : LayeredTable) (name : String) : List Binding :=
  heldIn table.layers name

theorem heldIn_congr (layers : List Layer) {name other : String}
    (h : sameName name other = true) : heldIn layers name = heldIn layers other := by
  simp only [heldIn, Layer.find?_congr _ h]

theorem heldIn_append (layers layers' : List Layer) (name : String) :
    heldIn (layers ++ layers') name = heldIn layers name ++ heldIn layers' name :=
  List.filterMap_append

theorem lookup_eq_held (table : LayeredTable) (name : String) :
    table.lookup name = (table.held name).head? := by
  rw [lookup, held, heldIn, List.head?_filterMap]

theorem heldIn_eq_nil_iff {layers : List Layer} {name : String} :
    heldIn layers name = [] ↔ ∀ layer ∈ layers, layer.holds name = false := by
  simp [heldIn, List.filterMap_eq_nil_iff, Layer.find?_eq_none_iff]

/-- What is changed is the innermost layer that holds the name. -/
theorem changeHolder?_eq (name : String) (change : Layer → Layer) (layers : List Layer) :
    (changeHolder? name change layers = none ∧ ∀ layer ∈ layers, layer.holds name = false) ∨
      ∃ inner layer outer, layers = inner ++ layer :: outer ∧ layer.holds name = true ∧
        (∀ other ∈ inner, other.holds name = false) ∧
        changeHolder? name change layers = some (inner ++ change layer :: outer) := by
  induction layers with
  | nil => exact .inl ⟨rfl, fun _ h => absurd h List.not_mem_nil⟩
  | cons layer layers ih =>
    rw [changeHolder?]
    by_cases holds : layer.holds name = true
    · rw [if_pos holds]
      exact .inr ⟨[], layer, layers, rfl, holds, fun _ h => absurd h List.not_mem_nil, rfl⟩
    · rw [if_neg holds]
      have hfree : layer.holds name = false := Bool.eq_false_iff.2 holds
      rcases ih with ⟨hnone, hall⟩ | ⟨inner, found, outer, rfl, hfound, hinner, hsome⟩
      · refine .inl ⟨by rw [hnone]; rfl, fun other ho => ?_⟩
        rcases List.mem_cons.1 ho with rfl | ho
        · exact hfree
        · exact hall other ho
      · refine .inr ⟨layer :: inner, found, outer, rfl, hfound, fun other ho => ?_, by
          rw [hsome]; rfl⟩
        rcases List.mem_cons.1 ho with rfl | ho
        · exact hfree
        · exact hinner other ho

theorem layers_change? (table : LayeredTable) (name : String) (change : Layer → Layer) :
    (table.change? name change).map layers = changeHolder? name change table.layers := by
  rw [change?, layers, changeHolder?]
  split
  · rfl
  · rw [Option.map_map]
    rfl

/-- A change of the holder of a name is one of the binding on top. -/
theorem held_change (table : LayeredTable) {name : String} {change : Layer → Layer}
    {top? : Option Binding}
    (h : ∀ layer other, (change layer).find? other =
      if sameName name other then top? else layer.find? other) :
    (table.change? name change = none ∧ table.held name = []) ∨
      ∃ table', table.change? name change = some table' ∧ table.held name ≠ [] ∧
        ∀ other, table'.held other =
          if sameName name other then top?.toList ++ (table.held name).tail
          else table.held other := by
  have hlayers := table.layers_change? name change
  rcases changeHolder?_eq name change table.layers with
    ⟨hnone, hall⟩ | ⟨inner, layer, outer, hsplit, holds, hinner, hsome⟩
  · rw [hnone, Option.map_eq_none_iff] at hlayers
    exact .inl ⟨hlayers, heldIn_eq_nil_iff.2 hall⟩
  · rw [hsome] at hlayers
    obtain ⟨table', htable, hafter⟩ := Option.map_eq_some_iff.1 hlayers
    obtain ⟨old, hold⟩ : ∃ old, layer.find? name = some old := by
      cases hold : layer.find? name with
      | none => rw [Layer.find?_eq_none_iff.1 hold] at holds; cases holds
      | some old => exact ⟨old, rfl⟩
    have hheld : table.held name = old :: heldIn outer name := by
      rw [held, hsplit, heldIn_append, heldIn_eq_nil_iff.2 hinner]
      simp [heldIn, hold]
    refine .inr ⟨table', htable, by simp [hheld], fun other => ?_⟩
    rw [hheld, held, hafter, held, hsplit, heldIn_append, heldIn_append]
    by_cases same : sameName name other = true
    · rw [if_pos same, ← heldIn_congr inner same, heldIn_eq_nil_iff.2 hinner, List.tail_cons,
        heldIn_congr outer same]
      cases top? <;> simp [heldIn, h, same]
    · rw [if_neg same]
      simp [heldIn, List.filterMap_cons, h, same]

theorem held_bindLocal {table : LayeredTable} {name : String} (h : table.held name = [])
    (binding : Binding) (other : String) : (table.bindLocal name binding).held other =
      if sameName name other then [binding] else table.held other := by
  show heldIn (table.innermost.insert name binding :: table.outer) other = _
  by_cases same : sameName name other = true
  · have houter : heldIn table.outer other = [] := by
      rw [← heldIn_congr _ same, heldIn_eq_nil_iff]
      exact fun layer hl => heldIn_eq_nil_iff.1 h layer (List.mem_cons_of_mem _ hl)
    rw [if_pos same, heldIn, List.filterMap_cons, Layer.find?_insert, if_pos same]
    exact congrArg (binding :: ·) houter
  · rw [if_neg same, held, layers, heldIn, heldIn, List.filterMap_cons, List.filterMap_cons,
      Layer.find?_insert, if_neg same]

instance : BindingTable.Stacked LayeredTable where
  held := held
  held_congr table _ _ h := heldIn_congr table.layers h
  lookup_eq := lookup_eq_held
  held_bind table name binding hok other := by
    have hname : name ≠ "" := by
      rintro rfl
      cases hok
    show ((table.bind name binding).2).held other = _
    rw [bind, if_neg hname]
    rcases table.held_change fun layer other => layer.find?_insert name other binding with
      ⟨hnone, hempty⟩ | ⟨table', hsome, -, hheld⟩
    · simp [hnone, hempty, held_bindLocal]
    · simp [hsome, hheld]
  held_bind_refused table name binding hno other := by
    by_cases hname : name = ""
    · subst hname
      rfl
    · refine absurd ?_ hno
      show (table.bind name binding).1 = .ok ()
      rw [bind, if_neg hname]
  bind_empty table binding h := by cases h
  unbind_eq table name := by
    show (table.unbind name).1 = !(table.held name).isEmpty
    rw [unbind]
    rcases table.held_change fun layer other => layer.find?_erase name other with
      ⟨hnone, hempty⟩ | ⟨table', hsome, hheld, -⟩
    · simp [hnone, hempty]
    · simp [hsome, hheld]
  held_unbind table name other := by
    show ((table.unbind name).2).held other = _
    rw [unbind]
    rcases table.held_change fun layer other => layer.find?_erase name other with
      ⟨hnone, hempty⟩ | ⟨table', hsome, -, hheld⟩
    · simp only [hnone, hempty]
      split
      · next same => rw [held, ← heldIn_congr _ same]; exact hempty
      · rfl
    · simp [hsome, hheld]
  held_publish table module name other := by
    show (table.publish module name).held other = table.held other
    unfold publish
    split <;> rfl

end LayeredTable

end KeywordScope
