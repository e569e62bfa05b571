import KeywordScope.Proofs.Registry.Representation

/-!
# The two maps agree with the registry

The registry and its representation by two maps give the same answers to all operations, and stay in
step whatever the table refuses on the way. So the two maps fit together at any time.

* `Agrees P x y Q`: from states related by `P`, two steps fail alike, or end as `Q` says.
* `Matches x y`: from states in step, two steps answer alike and stay in step.
* `matches_unregister`, `matches_enterScope`, …: one lemma for each step.
* `Edit.runAll_matches`: what this means for any operations, one after the other.
* `maps_fit`: the two maps fit together, and a language is removed from both as a whole.
-/

namespace KeywordScope
namespace Catalog

open Step

variable {τ α β α' β' : Type}

/-! ## Steps side by side -/

/-- Both steps succeeded and ended as `Q` says, or both failed with one error and ended in step. -/
inductive Outcomes (Q : α → β → Catalog τ → Registry τ → Prop) :
    Except KeywordError α × Catalog τ → Except KeywordError β × Registry τ → Prop where
  | ok {a : α} {b : β} {c : Catalog τ} {r : Registry τ} (h : Q a b c r) :
      Outcomes Q (.ok a, c) (.ok b, r)
  | error {e : KeywordError} {c : Catalog τ} {r : Registry τ} (h : c.Represents r) :
      Outcomes Q (.error e, c) (.error e, r)

/-- From states related by `P`, the two steps end as `Q` says, or fail alike. -/
def Agrees (P : Catalog τ → Registry τ → Prop) (x : Action τ α) (y : Registry.Action τ β)
    (Q : α → β → Catalog τ → Registry τ → Prop) : Prop :=
  ∀ c r, P c r → Outcomes Q (x.run c) (y.run r)

namespace Agrees

variable {P : Catalog τ → Registry τ → Prop} {Q : α → β → Catalog τ → Registry τ → Prop}
  {R : α' → β' → Catalog τ → Registry τ → Prop}

theorem pure {a : α} {b : β} (h : ∀ c r, P c r → Q a b c r) : Agrees P (pure a) (pure b) Q :=
  fun c r hP => .ok (h c r hP)

theorem throw {e : KeywordError} (h : ∀ c r, P c r → c.Represents r) :
    Agrees P (throw e) (throw e) Q :=
  fun c r hP => .error (h c r hP)

theorem bind {x : Action τ α'} {y : Registry.Action τ β'} {f : α' → Action τ α}
    {g : β' → Registry.Action τ β} (hx : Agrees P x y R) (hf : ∀ a b, Agrees (R a b) (f a) (g b) Q) :
    Agrees P (x >>= f) (y >>= g) Q := by
  intro c r hP
  have h := hx c r hP
  rw [run_bind, run_bind]
  generalize x.run c = p, y.run r = q at h
  cases h with
  | ok h => exact hf _ _ _ _ h
  | error h => exact .error h

/-- Steps that read the states first go on from states that are known. -/
theorem get_bind {f : Catalog τ → Action τ α} {g : Registry τ → Registry.Action τ β}
    (h : ∀ c r, P c r → Agrees (fun c' r' => c' = c ∧ r' = r) (f c) (g r) Q) :
    Agrees P (MonadState.get >>= f) (MonadState.get >>= g) Q :=
  fun c r hP => h c r hP c r ⟨rfl, rfl⟩

/-- The catalog is read on its own. -/
theorem get_left {f : Catalog τ → Action τ α} {y : Registry.Action τ β}
    (h : ∀ c r, P c r → Agrees (fun c' r' => c' = c ∧ r' = r) (f c) y Q) :
    Agrees P (MonadState.get >>= f) y Q :=
  fun c r hP => h c r hP c r ⟨rfl, rfl⟩

/-- The catalog is changed on its own. -/
theorem modify_left {change : Catalog τ → Catalog τ} {x : Action τ α} {y : Registry.Action τ β}
    {S : Catalog τ → Registry τ → Prop} (h : ∀ c r, P c r → S (change c) r)
    (hx : Agrees S x y Q) : Agrees P (modify change >>= fun _ => x) y Q :=
  fun c r hP => hx (change c) r (h c r hP)

theorem modify {change : Catalog τ → Catalog τ} {change' : Registry τ → Registry τ}
    {S : Catalog τ → Registry τ → Prop} (h : ∀ c r, P c r → S (change c) (change' r)) :
    Agrees P (modify change) (modify change') fun _ _ => S :=
  fun c r hP => .ok (h c r hP)

theorem conseq {P' : Catalog τ → Registry τ → Prop}
    {Q' : α → β → Catalog τ → Registry τ → Prop} {x : Action τ α} {y : Registry.Action τ β}
    (hx : Agrees P x y Q) (hP : ∀ c r, P' c r → P c r)
    (hQ : ∀ a b c r, Q a b c r → Q' a b c r) : Agrees P' x y Q' := by
  intro c r h
  have h := hx c r (hP c r h)
  generalize x.run c = p, y.run r = q at h ⊢
  cases h with
  | ok h => exact .ok (hQ _ _ _ _ h)
  | error h => exact .error h

theorem ite {p q : Prop} [Decidable p] [Decidable q] {x x' : Action τ α}
    {y y' : Registry.Action τ β} (hpq : p ↔ q) (hx : q → Agrees P x y Q)
    (hx' : ¬ q → Agrees P x' y' Q) :
    Agrees P (if p then x else x') (if q then y else y') Q := by
  by_cases h : q
  · rw [if_pos h, if_pos (hpq.2 h)]
    exact hx h
  · rw [if_neg h, if_neg (h ∘ hpq.1)]
    exact hx' h

theorem map {x : Action τ α'} {y : Registry.Action τ β'} {f : α' → α} {g : β' → β}
    (hx : Agrees P x y R) (h : ∀ a b c r, R a b c r → Q (f a) (g b) c r) :
    Agrees P (f <$> x) (g <$> y) Q := by
  rw [map_eq_pure_bind, map_eq_pure_bind]
  exact hx.bind fun a b => Agrees.pure (h a b)

end Agrees

/-- From states in step, the two steps give the same answer and stay in step. -/
def Matches (x : Action τ α) (y : Registry.Action τ α) : Prop :=
  Agrees Represents x y fun a b c r => a = b ∧ c.Represents r

namespace Matches

theorem iff_run {x : Action τ α} {y : Registry.Action τ α} :
    Matches x y ↔ ∀ c r, c.Represents r →
      (x.run c).1 = (y.run r).1 ∧ (x.run c).2.Represents (y.run r).2 := by
  refine forall₃_congr fun c r _ => ⟨fun h => ?_, fun h => ?_⟩
  · generalize x.run c = p, y.run r = q at h ⊢
    cases h with
    | ok h => exact ⟨congrArg Except.ok h.1, h.2⟩
    | error h => exact ⟨rfl, h⟩
  · generalize x.run c = p, y.run r = q at h ⊢
    obtain ⟨same, h⟩ := h
    rcases p with ⟨e | a, c'⟩ <;> rcases q with ⟨e' | b, r'⟩
    · cases same
      exact .error h
    · cases same
    · cases same
    · exact .ok ⟨Except.ok.inj same, h⟩

theorem pure (a : α) : Matches (τ := τ) (pure a) (pure a) := Agrees.pure fun _ _ h => ⟨rfl, h⟩

theorem throw (e : KeywordError) : Matches (τ := τ) (α := α) (throw e) (throw e) :=
  Agrees.throw fun _ _ h => h

theorem bind {x : Action τ α} {y : Registry.Action τ α} {f : α → Action τ β}
    {g : α → Registry.Action τ β} (hx : Matches x y) (hf : ∀ a, Matches (f a) (g a)) :
    Matches (x >>= f) (y >>= g) := by
  refine Agrees.bind hx fun a b => ?_
  rintro c r ⟨rfl, h⟩
  exact hf a c r h

theorem get_bind {f : Catalog τ → Action τ α} {g : Registry τ → Registry.Action τ α}
    (h : ∀ c r, c.Represents r → Matches (f c) (g r)) :
    Matches (MonadState.get >>= f) (MonadState.get >>= g) :=
  fun c r hr => h c r hr c r hr

theorem modify {change : Catalog τ → Catalog τ} {change' : Registry τ → Registry τ}
    (h : ∀ c r, c.Represents r → (change c).Represents (change' r)) :
    Matches (modify change) (modify change') :=
  fun c r hr => .ok ⟨rfl, h c r hr⟩

theorem ite {p q : Prop} [Decidable p] [Decidable q] {x x' : Action τ α}
    {y y' : Registry.Action τ α} (hpq : p ↔ q) (hx : Matches x y) (hx' : Matches x' y') :
    Matches (if p then x else x') (if q then y else y') :=
  Agrees.ite hpq (fun _ => hx) fun _ => hx'

theorem map {x : Action τ α} {y : Registry.Action τ α} (hx : Matches x y) (f : α → β) :
    Matches (f <$> x) (f <$> y) :=
  Agrees.map hx fun _ _ _ _ h => ⟨congrArg f h.1, h.2⟩

theorem discard {x : Action τ α} {y : Registry.Action τ α} (hx : Matches x y) :
    Matches (discard x) (discard y) :=
  hx.map _

theorem forM_map {ι : Type} (key : ι → α) {f : α → Action τ PUnit} {g : ι → Registry.Action τ PUnit}
    (hf : ∀ a, Matches (f (key a)) (g a)) (xs : List ι) :
    Matches ((xs.map key).forM f) (xs.forM g) := by
  induction xs with
  | nil => exact Matches.pure _
  | cons a xs ih => exact (hf a).bind fun _ => ih

theorem forM {f : α → Action τ PUnit} {g : α → Registry.Action τ PUnit}
    (hf : ∀ a, Matches (f a) (g a)) (xs : List α) : Matches (xs.forM f) (xs.forM g) := by
  simpa using forM_map id hf xs

theorem attempt {x : Action τ α} {y : Registry.Action τ α} (hx : Matches x y) :
    Matches (attempt x) (Registry.attempt y) :=
  iff_run.2 fun c r h => ⟨congrArg Except.ok (iff_run.1 hx c r h).1, (iff_run.1 hx c r h).2⟩

/-- What is known of the registry besides, and kept, is known afterwards. -/
theorem and_keeps {x : Action τ α} {y : Registry.Action τ α} {I : Registry τ → Prop}
    (hx : Matches x y) (hI : Keeps I y) :
    Agrees (fun c r => c.Represents r ∧ I r) x y fun a b c r => a = b ∧ c.Represents r ∧ I r := by
  rintro c r ⟨h, hr⟩
  have h := hx c r h
  have hr := hI.run hr
  generalize x.run c = p, y.run r = q at h hr ⊢
  cases h with
  | ok h => exact .ok ⟨h.1, h.2, hr⟩
  | error h => exact .error h

end Matches

/-! ## The steps -/

variable {c : Catalog τ} {r : Registry τ}

theorem run_changeBindings (change : τ → Except HostError Unit × τ) (c : Catalog τ) :
    (changeBindings change).run c =
      (match (change c.bindings).1 with
        | .ok () => .ok ()
        | .error e => .error (.host e),
       { c with bindings := (change c.bindings).2 }) := by
  rw [changeBindings, run_bind, run_get]
  rcases h : change c.bindings with ⟨_ | _, t⟩ <;> simp only [h] <;> rfl

theorem matches_changeBindings (change : τ → Except HostError Unit × τ) :
    Matches (changeBindings change) (Registry.changeBindings change) := by
  refine Matches.iff_run.2 fun c r h => ?_
  rw [run_changeBindings, Registry.run_changeBindings, h.bindings]
  exact ⟨rfl, h.withBindings _⟩

theorem matches_allocate : Matches (τ := τ) allocate Registry.allocate := by
  refine Matches.iff_run.2 fun c r h => ⟨?_, ?_⟩
  · show Except.ok (Keyword.Id.mk c.nextId) = .ok ⟨r.nextId⟩
    rw [h.nextId]
  · exact ⟨h.entries, h.places, h.scope, congrArg (· + 1) h.nextId, h.bindings, h.target,
      h.description, h.separator⟩

/-- What is stored under an identity is what is registered under it. -/
theorem agrees_getItem (id : Keyword.Id) :
    Agrees (τ := τ) Represents (getItem id) (Registry.getEntry id) fun item entry c r =>
      item = entry.item ∧ c.Represents r ∧ r.find? id = some entry := by
  refine Agrees.get_bind fun c r h => ?_
  rw [h.item?]
  cases hfind : r.find? id with
  | none =>
    refine Agrees.throw ?_
    rintro _ _ ⟨rfl, rfl⟩
    exact h
  | some entry =>
    refine Agrees.pure ?_
    rintro _ _ ⟨rfl, rfl⟩
    exact ⟨rfl, h, hfind⟩

theorem matches_getItem_bind (id : Keyword.Id) {f : Item → Action τ α}
    {g : Entry → Registry.Action τ α} (h : ∀ entry : Entry, Matches (f entry.item) (g entry)) :
    Matches (getItem id >>= f) (Registry.getEntry id >>= g) := by
  refine Agrees.bind (agrees_getItem id) fun item entry => ?_
  rintro c r ⟨rfl, hr, -⟩
  exact h entry c r hr

/-- A step that is for members only looks for the place, or at the entry. -/
theorem matches_getMember_bind (id : Keyword.Id) {f f' : Item → Action τ α}
    {g g' : Entry → Registry.Action τ α} (h : ∀ entry : Entry, Matches (f entry.item) (g entry))
    (h' : ∀ entry : Entry, Matches (f' entry.item) (g' entry)) :
    Matches
      (do
        let item ← getItem id
        let catalog ← get
        if catalog.places.contains id then f item else f' item)
      (do
        let entry ← Registry.getEntry id
        if entry.isMember then g entry else g' entry) := by
  refine Agrees.bind (agrees_getItem id) fun item entry => Agrees.get_left ?_
  rintro c r ⟨rfl, hr, hfind⟩
  have hmember : c.places.contains id = entry.isMember := by
    rw [hr.contains_place, Registry.isMember, hfind]
    rfl
  refine Agrees.ite (by rw [hmember]) (fun _ => ?_) fun _ => ?_
  · rintro _ _ ⟨rfl, rfl⟩
    exact h entry _ _ hr
  · rintro _ _ ⟨rfl, rfl⟩
    exact h' entry _ _ hr

theorem matches_adjust (id : Keyword.Id) {change : Item → Item} {change' : Entry → Entry}
    (hitem : ∀ entry, (change' entry).item = change entry.item)
    (hid : ∀ entry, (change' entry).id = entry.id)
    (hplace : ∀ entry, (change' entry).membership? = entry.membership?) :
    Matches (τ := τ) (adjust id change) (Registry.modifyEntry id change') :=
  Matches.modify fun _ _ h => h.adjust id hitem hid hplace

theorem matches_subscribe (dsl path : String) (event : Event) (handler : ScriptBlock) :
    Matches (τ := τ) (subscribe dsl path event handler)
      (Session.subscribe dsl path event handler) := by
  refine Agrees.get_bind fun c r h => ?_
  rw [h.idAt?]
  cases hfind : r.entryAt? dsl path with
  | none =>
    refine Agrees.pure ?_
    rintro _ _ ⟨rfl, rfl⟩
    exact ⟨rfl, h⟩
  | some entry =>
    have hmem : entry ∈ r.entries := List.mem_of_find?_eq_some hfind
    have hstored : c.entries.contains entry.id = true := by
      rw [h.contains_entry]
      exact Registry.find?_isSome_of_mem hmem
    refine Agrees.get_left ?_
    rintro _ _ ⟨rfl, rfl⟩
    rw [if_pos hstored]
    rintro _ _ ⟨rfl, rfl⟩
    cases event with
    | invoking =>
      refine ((matches_adjust entry.id ?_ ?_ ?_).bind fun _ => Matches.pure true) _ _ h
      all_goals exact fun _ => rfl
    | invoked =>
      refine ((matches_adjust entry.id ?_ ?_ ?_).bind fun _ => Matches.pure true) _ _ h
      all_goals exact fun _ => rfl

variable [BindingTable τ]

theorem matches_publish (module name : String) :
    Matches (τ := τ) (publish module name) (Registry.publish module name) :=
  matches_changeBindings _

theorem matches_bindKeyword (keyword : Keyword) :
    Matches (τ := τ) (bindKeyword keyword) (Registry.bindKeyword keyword) := by
  refine Matches.get_bind fun c r h => ?_
  rw [h.bindings, h.target, h.description]
  exact Matches.ite .rfl (Matches.pure _) (matches_changeBindings _)

theorem matches_purgeName (name : String) :
    Matches (τ := τ) (purgeName name) (Registry.purgeName name) := by
  refine Matches.modify fun c r h => ⟨h.entries, h.places, h.scope, h.nextId, ?_, h.target,
    h.description, h.separator⟩
  show BindingTable.purge c.bindings name c.target = BindingTable.purge r.bindings name r.target
  rw [h.bindings, h.target]

theorem matches_rebindStandalones :
    Matches (τ := τ) rebindStandalones Registry.rebindStandalones := by
  refine Matches.get_bind fun c r h => ?_
  rw [h.standalones, h.bindings]
  exact Matches.forM matches_bindKeyword _

/-! ### Registration -/

/-- The keyword is stored last, but its place is not yet. -/
def Stored (keyword : Keyword) (visible : Bool) (own? : Option Membership) (c : Catalog τ)
    (r : Registry τ) : Prop :=
  ∃ (c₀ : Catalog τ) (r₀ : Registry τ), c₀.Represents r₀ ∧ r₀.find? keyword.id = none ∧
    c = { c₀ with entries := c₀.entries.insert keyword.id { keyword, visible } } ∧
    r = r₀.concat { keyword, visible, membership? := own? }

theorem agrees_insert (keyword : Keyword) (visible : Bool) (own? : Option Membership) :
    Agrees (τ := τ) Represents (insert keyword visible)
      (Registry.insert { keyword, visible, membership? := own? })
      fun _ _ => Stored keyword visible own? := by
  have hadd : Agrees (τ := τ) (fun c r => c.Represents r ∧ r.find? keyword.id = none)
      (modify fun catalog =>
        { catalog with entries := catalog.entries.insert keyword.id { keyword, visible } })
      (modify fun registry =>
        { registry with entries := registry.entries ++ [{ keyword, visible, membership? := own? }] })
      fun _ _ => Stored keyword visible own? :=
    Agrees.modify fun c r h => ⟨c, r, h.1, h.2, rfl, rfl⟩
  refine Agrees.get_bind fun c r h => ?_
  refine Agrees.ite (by rw [h.contains_entry]; rfl) (fun _ => Agrees.throw ?_) fun hfree => ?_
  · rintro _ _ ⟨rfl, rfl⟩
    exact h
  have hstart : ∀ c' r', c' = c ∧ r' = r → c'.Represents r' ∧ r'.find? keyword.id = none := by
    rintro _ _ ⟨rfl, rfl⟩
    exact ⟨h, Option.not_isSome_iff_eq_none.1 hfree⟩
  have hI : Registry.BindingFree fun r : Registry τ => r.find? keyword.id = none :=
    fun _ _ hr => hr
  refine Agrees.ite .rfl (fun _ => ?_) fun _ => hadd.conseq hstart fun _ _ _ _ h => h
  refine Agrees.conseq (Agrees.bind ((matches_bindKeyword keyword).and_keeps
    (Registry.keeps_bindKeyword hI keyword)) fun _ _ => ?_) hstart fun _ _ _ _ h => h
  exact hadd.conseq (fun _ _ h => h.2) fun _ _ _ _ h => h

theorem matches_registerStandalone (keyword : Keyword) :
    Matches (τ := τ) (registerStandalone keyword) (Registry.registerStandalone keyword) := by
  refine Agrees.bind (agrees_insert keyword true none) fun _ _ => Agrees.pure ?_
  rintro _ _ ⟨c, r, h, hfresh, rfl, rfl⟩
  exact ⟨rfl, h.concat hfresh true none⟩

theorem matches_registerMember (dsl : String) (keyword : Keyword) (parent? : Option Keyword.Id)
    (path : String) :
    Matches (τ := τ) (registerMember dsl keyword parent? path)
      (Registry.registerMember dsl keyword parent? path) := by
  refine Matches.get_bind fun c r h => ?_
  -- The place is stored after the keyword.
  have hstore : Matches (τ := τ)
      (do
        insert keyword (parent?.isNone && r.scope.isEmpty)
        modify fun catalog =>
          { catalog with places := catalog.places.insert keyword.id { dsl, path, parent? } }
        return keyword)
      (do
        Registry.insert
          { keyword
            visible := parent?.isNone && r.scope.isEmpty
            membership? := some { dsl, path, parent? } }
        return keyword) := by
    refine Agrees.bind (agrees_insert keyword _ (some { dsl, path, parent? })) fun _ _ =>
      Agrees.modify_left (S := Represents) ?_ (Matches.pure keyword)
    rintro _ _ ⟨c, r, h, hfresh, rfl, rfl⟩
    exact h.concat hfresh _ (some { dsl, path, parent? })
  have hpath : Matches (τ := τ)
      (do
        if (c.idAt? dsl path).isSome then
          throw (.invalidState (.pathTaken path dsl))
        insert keyword (parent?.isNone && c.scope.isEmpty)
        modify fun catalog =>
          { catalog with places := catalog.places.insert keyword.id { dsl, path, parent? } }
        return keyword)
      (do
        if (r.entryAt? dsl path).isSome then
          throw (.invalidState (.pathTaken path dsl))
        Registry.insert
          { keyword
            visible := parent?.isNone && r.scope.isEmpty
            membership? := some { dsl, path, parent? } }
        return keyword) := by
    rw [h.scope]
    exact Matches.ite (by rw [h.idAt?, Option.isSome_map]) (Matches.throw _) hstore
  cases parent? with
  | none => exact hpath
  | some parent => exact Matches.ite (by rw [h.contains_place]) hpath (Matches.throw _)

theorem matches_unregister (id : Keyword.Id) :
    Matches (τ := τ) (unregister id) (Registry.unregister id) := by
  refine matches_getItem_bind id fun entry => ?_
  have hrest : Matches (τ := τ)
      (do purgeName entry.item.keyword.name; return entry.item.keyword)
      (do Registry.purgeName entry.keyword.name; return entry.keyword) :=
    (matches_purgeName _).bind fun _ => Matches.pure _
  intro c r h
  exact hrest _ _ (h.remove id)

theorem matches_removeDsl (dsl : String) :
    Matches (τ := τ) (removeDsl dsl) (Registry.removeDsl dsl) := by
  refine Matches.get_bind fun c r h => ?_
  rw [h.members]
  simp only [List.isEmpty_map, List.length_map]
  refine (Matches.forM_map Keyword.id (fun keyword => (matches_unregister keyword.id).discard)
    (r.members dsl)).bind fun _ => ?_
  exact Matches.ite .rfl (Matches.pure _)
    (matches_rebindStandalones.bind fun _ => Matches.pure _)

theorem matches_removeStandalone (name : String) :
    Matches (τ := τ) (removeStandalone name) (Registry.removeStandalone name) := by
  refine Matches.get_bind fun c r h => ?_
  rw [h.standalone?]
  cases r.standalone? name with
  | none => exact Matches.pure _
  | some keyword => exact (matches_unregister keyword.id).discard.bind fun _ => Matches.pure _

/-! ### Visibility -/

omit [BindingTable τ] in
theorem matches_show (id : Keyword.Id) (visible : Bool) :
    Matches (τ := τ) (adjust id ({ · with visible }))
      (Registry.modifyEntry id ({ · with visible })) :=
  matches_adjust id (fun _ => rfl) (fun _ => rfl) fun _ => rfl

theorem matches_reveal (id : Keyword.Id) :
    Matches (τ := τ) (reveal id) (Registry.reveal id) :=
  matches_getItem_bind id fun _ => (matches_show id true).bind fun _ => matches_bindKeyword _

theorem matches_hide (id : Keyword.Id) : Matches (τ := τ) (hide id) (Registry.hide id) :=
  matches_getMember_bind id (fun _ => (matches_show id false).bind fun _ => matches_purgeName _)
    fun _ => Matches.throw _

theorem agrees_loadVisible (name : String) :
    Agrees (τ := τ) Represents (loadVisible name) (Registry.loadVisible name)
      fun keyword entry c r => keyword = entry.keyword ∧ c.Represents r := by
  refine Agrees.get_bind fun c r h => ?_
  rw [h.choose]
  cases Registry.choose name (r.visibleNamed name) with
  | error e =>
    refine Agrees.throw ?_
    rintro _ _ ⟨rfl, rfl⟩
    exact h
  | ok entry =>
    have hbind : Agrees (τ := τ) Represents
        (do bindKeyword entry.keyword; return entry.keyword)
        (do Registry.bindKeyword entry.keyword; return entry)
        fun keyword entry c r => keyword = entry.keyword ∧ c.Represents r :=
      Agrees.bind (matches_bindKeyword entry.keyword) fun _ _ => Agrees.pure fun _ _ h => ⟨rfl, h.2⟩
    refine hbind.conseq ?_ fun _ _ _ _ h => h
    rintro _ _ ⟨rfl, rfl⟩
    exact h

/-! ### Scopes -/

theorem matches_leaveScope : Matches (τ := τ) leaveScope Registry.leaveScope := by
  refine Matches.get_bind fun c r h => ?_
  rw [h.scope]
  cases r.scope with
  | nil => exact Matches.throw _
  | cons id outer =>
    have hend : Matches (τ := τ) (do rebindStandalones; return id)
        (do Registry.rebindStandalones; return id) :=
      matches_rebindStandalones.bind fun _ => Matches.pure _
    refine (Matches.modify fun c r h => h.withScope outer).bind fun _ => ?_
    refine Matches.get_bind fun c r h => Matches.ite (by rw [h.contains_place]) ?_ hend
    refine Matches.get_bind fun c r h => ?_
    rw [h.children]
    refine (Matches.forM matches_hide _).bind fun _ => Matches.get_bind fun c r h => ?_
    rw [h.siblings]
    exact (Matches.forM matches_reveal _).bind fun _ => hend

theorem matches_openScope (id : Keyword.Id) :
    Matches (τ := τ) (openScope id) (Registry.openScope id) := by
  refine Matches.get_bind fun c r h => ?_
  rw [h.siblings]
  refine (Matches.forM matches_hide _).bind fun _ => Matches.get_bind fun c r h => ?_
  rw [h.children]
  exact Matches.forM matches_reveal _

theorem matches_enterScope (id : Keyword.Id) :
    Matches (τ := τ) (enterScope id) (Registry.enterScope id) := by
  refine matches_getMember_bind id (fun _ => ?_) fun _ => Matches.throw _
  refine (Matches.modify fun c r h => ?_).bind fun _ =>
    (matches_openScope id).attempt.bind fun answer => ?_
  · rw [h.scope]
    exact h.withScope _
  · cases answer with
    | ok _ => exact Matches.pure _
    | error e => exact matches_leaveScope.attempt.discard.bind fun _ => Matches.throw _

end Catalog

/-! ## All operations -/

namespace Edit

open Catalog

variable {τ : Type} [BindingTable τ]

/-- Carries the operation out on the two maps. -/
def performStored : Edit τ → Catalog.Action τ Answer
  | allocate => .id <$> Catalog.allocate
  | registerStandalone keyword => .keyword <$> Catalog.registerStandalone keyword
  | registerMember dsl keyword parent? path =>
    .keyword <$> Catalog.registerMember dsl keyword parent? path
  | unregister id => .keyword <$> Catalog.unregister id
  | removeDsl dsl => .count <$> Catalog.removeDsl dsl
  | removeStandalone name => .flag <$> Catalog.removeStandalone name
  | reveal id => (fun _ => .done) <$> Catalog.reveal id
  | hide id => (fun _ => .done) <$> Catalog.hide id
  | enterScope id => (fun _ => .done) <$> Catalog.enterScope id
  | leaveScope => .id <$> Catalog.leaveScope
  | loadVisible name => .keyword <$> Catalog.loadVisible name
  | subscribe dsl path event handler => .flag <$> Catalog.subscribe dsl path event handler
  | publish module name => (fun _ => .done) <$> Catalog.publish module name
  | rebind bindings => (fun _ => .done) <$> (modify ({ · with bindings }) : Catalog.Action τ PUnit)

/-- An operation has the same answer on the two maps. -/
theorem matches_perform (edit : Edit τ) : Matches edit.performStored edit.perform := by
  cases edit with
  | allocate => exact matches_allocate.map _
  | registerStandalone keyword => exact (matches_registerStandalone keyword).map _
  | registerMember dsl keyword parent? path =>
    exact (matches_registerMember dsl keyword parent? path).map _
  | unregister id => exact (matches_unregister id).map _
  | removeDsl dsl => exact (matches_removeDsl dsl).map _
  | removeStandalone name => exact (matches_removeStandalone name).map _
  | reveal id => exact (matches_reveal id).map _
  | hide id => exact (matches_hide id).map _
  | enterScope id => exact (matches_enterScope id).map _
  | leaveScope => exact matches_leaveScope.map _
  | loadVisible name =>
    exact (agrees_loadVisible name).map fun _ _ _ _ h => ⟨congrArg Answer.keyword h.1, h.2⟩
  | subscribe dsl path event handler => exact (matches_subscribe dsl path event handler).map _
  | publish module name => exact (matches_publish module name).map _
  | rebind bindings => exact (Matches.modify fun _ _ h => h.withBindings bindings).map _

/-- Several operations have the same answers on the two maps, which stay in step. -/
theorem runAll_matches (edits : List (Edit τ)) {c : Catalog τ} {r : Registry τ}
    (h : c.Represents r) :
    (runAll performStored edits c).1 = (runAll perform edits r).1 ∧
      (runAll performStored edits c).2.Represents (runAll perform edits r).2 := by
  induction edits generalizing c r with
  | nil => exact ⟨rfl, h⟩
  | cons edit edits ih =>
    obtain ⟨hanswer, hnext⟩ := Matches.iff_run.1 edit.matches_perform c r h
    obtain ⟨hanswers, hend⟩ := ih hnext
    exact ⟨congrArg₂ List.cons hanswer hanswers, hend⟩

end Edit

namespace Catalog

variable {τ : Type}

theorem represents_ofConfig (config : Config) (bindings : τ) :
    Represents (ofConfig config bindings) (.ofConfig config bindings) :=
  ⟨rfl, rfl, rfl, rfl, rfl, rfl, rfl, rfl⟩

variable [BindingTable τ]

/-- A language goes from both maps as a whole, and nothing else goes, even if standalone keywords
cannot be bound again afterwards. -/
theorem Represents.removeDsl {c : Catalog τ} {r : Registry τ} (h : c.Represents r) (dsl : String) :
    ((Catalog.removeDsl dsl).run c).2.places.items =
        c.places.items.filter (fun place => !sameName place.2.dsl dsl) ∧
      ((Catalog.removeDsl dsl).run c).2.entries.items =
        c.entries.items.filter fun item =>
          !(c.places.get? item.1).any fun place => sameName place.dsl dsl := by
  obtain ⟨-, hafter⟩ := Matches.iff_run.1 (matches_removeDsl dsl) c r h
  obtain ⟨t, hrun⟩ := Registry.run_removeDsl h.distinct dsl
  rw [hrun] at hafter
  constructor
  · rw [hafter.places, h.places, Registry.entries_withBindings, Registry.without,
      List.filter_filterMap, List.filterMap_filter]
    refine List.filterMap_congr fun entry _ => ?_
    unfold Entry.isIn
    cases entry.membership? with
    | none => rfl
    | some own => cases hin : sameName own.dsl dsl <;> simp [Option.filter, hin]
  · rw [hafter.entries, h.entries, Registry.entries_withBindings, Registry.without,
      List.filter_map]
    refine congrArg (List.map _) (List.filter_congr fun entry he => ?_)
    rw [Function.comp_apply, h.place?, h.distinct.membership?_eq he]
    rfl

/-- Whatever is done with a registry, over any table, and however it ends: the two maps give the
same answers as the registry and fit together. From any state that is reached, a language is removed
as a whole, whether that succeeds or not. -/
theorem maps_fit (config : Config) (bindings : τ) (edits : List (Edit τ)) :
    let stored := Edit.runAll Edit.performStored edits (.ofConfig config bindings)
    let registered := Edit.runAll Edit.perform edits (.ofConfig config bindings)
    stored.1 = registered.1 ∧ stored.2.Represents registered.2 ∧ stored.2.Sound ∧
      ∀ dsl,
        ((Catalog.removeDsl dsl).run stored.2).2.places.items =
            stored.2.places.items.filter (fun place => !sameName place.2.dsl dsl) ∧
          ((Catalog.removeDsl dsl).run stored.2).2.entries.items =
            stored.2.entries.items.filter fun item =>
              !(stored.2.places.get? item.1).any fun place => sameName place.dsl dsl := by
  intro stored registered
  obtain ⟨hanswers, hstep⟩ := Edit.runAll_matches edits (represents_ofConfig config bindings)
  have hsound := (Edit.runAll_edited edits (.empty config bindings)).sound
  exact ⟨hanswers, hstep, hstep.sound hsound, hstep.removeDsl⟩

end Catalog
end KeywordScope
