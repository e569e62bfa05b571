import KeywordScope.Proofs.Registry.Composite

/-!
# Lasting invariants

What the registry lasts through: entries are added with new identities below registered members,
and removed; hooks, visibility and bindings change.

* `meets_insert`, `meets_registerStandalone`, `meets_registerMember`: what becomes of the registry
  if a keyword is registered.
* `Outlined`: the invariant is kept by changes of hooks, visibility and bindings.
* `Lasting`: the invariant is kept by each such change.
* `Lasting.steady`: then it is kept by all steps on one keyword, and by what is composed of them.
-/

namespace KeywordScope
namespace Registry

open Step

variable {τ : Type}

/-! ## Registering keywords -/

section Registering

variable [BindingTable τ]

/-- A new entry is added at the end, unless its identity is taken or its name is refused. -/
theorem meets_insert {P : Registry τ → Prop} (hP : BindingFree P) (entry : Entry) :
    Meets P (insert entry)
      (fun _ s => ∃ r, P r ∧ r.find? entry.id = none ∧ s = r.concat entry) fun _ => P := by
  refine Meets.get_bind fun r hr => ?_
  refine Meets.ite (fun _ => Meets.throw ?_) fun hfree => ?_
  · rintro _ rfl
    exact hr
  have hI : BindingFree fun s : Registry τ => P s ∧ s.find? entry.id = none :=
    fun s bindings hs => ⟨hP s bindings hs.1, hs.2⟩
  have hadd : Meets (fun s : Registry τ => P s ∧ s.find? entry.id = none)
      (modify fun registry => { registry with entries := registry.entries ++ [entry] } :
        Action τ PUnit)
      (fun _ s => ∃ r, P r ∧ r.find? entry.id = none ∧ s = r.concat entry) fun _ => P :=
    fun s hs => ⟨s, hs.1, hs.2, rfl⟩
  have hstart : ∀ s, s = r → P s ∧ s.find? entry.id = none := by
    rintro _ rfl
    exact ⟨hr, by simpa using hfree⟩
  refine Meets.ite (fun _ => Meets.bind (Meets.conseq (keeps_bindKeyword hI entry.keyword) hstart
    (fun _ _ hs => hs) fun _ _ hs => hs.1) fun _ => hadd) fun _ => ?_
  exact Meets.conseq hadd hstart (fun _ _ hs => hs) fun _ _ hs => hs

/-- A new standalone keyword is added, and visible. -/
theorem meets_registerStandalone {P : Registry τ → Prop} (hP : BindingFree P) (keyword : Keyword) :
    Meets P (registerStandalone keyword)
      (fun _ s => ∃ r, P r ∧ r.find? keyword.id = none ∧
        s = r.concat { keyword, visible := true }) fun _ => P :=
  (meets_insert hP { keyword, visible := true }).bind fun _ => Meets.pure fun _ h => h

theorem keeps_registerStandalone_of {P : Registry τ → Prop} (hP : BindingFree P) (keyword : Keyword)
    (hconcat : ∀ r, P r → r.find? keyword.id = none → P (r.concat { keyword, visible := true })) :
    Keeps P (registerStandalone keyword) := by
  refine Meets.conseq (meets_registerStandalone hP keyword) (fun _ h => h) ?_ fun _ _ h => h
  rintro _ _ ⟨r, hr, hfresh, rfl⟩
  exact hconcat r hr hfresh

/-- The entry of a member that is registered while no scope is entered. -/
def memberEntry (dsl : String) (keyword : Keyword) (parent? : Option Keyword.Id) (path : String) :
    Entry where
  keyword
  visible := parent?.isNone
  membership? := some { dsl, path, parent? }

/-- A new member is added below a member, at a path that is free, and hidden if a scope is
entered. -/
theorem meets_registerMember {P : Registry τ → Prop} (hP : BindingFree P) (dsl : String)
    (keyword : Keyword) (parent? : Option Keyword.Id) (path : String) :
    Meets P (registerMember dsl keyword parent? path)
      (fun _ s => ∃ r, P r ∧ r.find? keyword.id = none ∧
        (∀ parent, parent? = some parent → r.isMember parent = true) ∧
        r.entryAt? dsl path = none ∧
        s = r.concat ((memberEntry dsl keyword parent? path).withVisible
          (parent?.isNone && r.scope.isEmpty))) fun _ => P := by
  refine Meets.get_bind fun r hr => ?_
  -- The bindings change on the way, but neither the scope nor the entries.
  have hinsert : (∀ parent, parent? = some parent → r.isMember parent = true) →
      Meets (· = r) (do
        if (r.entryAt? dsl path).isSome then
          throw (.invalidState (.pathTaken path dsl))
        insert
          { keyword
            visible := parent?.isNone && r.scope.isEmpty
            membership? := some { dsl, path, parent? } }
        return keyword : Action τ Keyword)
        (fun _ s => ∃ r, P r ∧ r.find? keyword.id = none ∧
          (∀ parent, parent? = some parent → r.isMember parent = true) ∧
          r.entryAt? dsl path = none ∧
          s = r.concat ((memberEntry dsl keyword parent? path).withVisible
            (parent?.isNone && r.scope.isEmpty))) fun _ => P := by
    intro hparent
    refine Meets.ite (fun _ => Meets.throw ?_) fun hpath => ?_
    · rintro _ rfl
      exact hr
    have hI : BindingFree fun s : Registry τ => P s ∧ s.entries = r.entries ∧ s.scope = r.scope :=
      fun s bindings hs => ⟨hP s bindings hs.1, hs.2⟩
    refine Meets.bind (Meets.conseq (meets_insert hI ((memberEntry dsl keyword parent?
      path).withVisible (parent?.isNone && r.scope.isEmpty))) ?_ (fun _ _ hs => hs)
      fun _ _ hs => hs.1) fun _ => Meets.pure ?_
    · rintro _ rfl
      exact ⟨hr, rfl, rfl⟩
    · rintro _ ⟨s, ⟨hs, hentries, hscope⟩, hfresh, rfl⟩
      refine ⟨s, hs, hfresh, fun parent hp => ?_, ?_, by rw [hscope]⟩
      · rw [isMember, find?, hentries]
        exact hparent parent hp
      · rw [entryAt?, hentries]
        exact Option.not_isSome_iff_eq_none.1 hpath
  cases parent? with
  | none => exact hinsert fun _ h => by cases h
  | some parent =>
    refine Meets.ite (fun hm => hinsert fun _ h => Option.some.inj h ▸ hm) fun _ => Meets.throw ?_
    rintro _ rfl
    exact hr

end Registering

/-! ## Invariants of the outline -/

/-- The invariant is kept if only bindings, hooks and what is visible change. -/
structure Outlined (I : Registry τ → Prop) : Prop where
  bindings : BindingFree I
  /-- Keywords are shown or hidden, or get hooks. -/
  entries : ∀ r entries, entries.map Entry.bare = r.outline → I r → I { r with entries }

namespace Outlined

variable {I : Registry τ → Prop} (hI : Outlined I)

include hI

theorem keeps_modifyEntry (id : Keyword.Id) {change : Entry → Entry}
    (hb : ∀ entry, (change entry).bare = entry.bare) : Keeps I (modifyEntry id change) := by
  refine Keeps.modify fun r hr => hI.entries r _ ?_ hr
  rw [List.map_map, outline]
  refine List.map_congr_left fun entry _ => ?_
  simp only [Function.comp_apply]
  split
  · exact hb entry
  · rfl

theorem keeps_modifyVisible (id : Keyword.Id) (visible : Bool) :
    Keeps I (modifyEntry id ({ · with visible })) :=
  hI.keeps_modifyEntry id fun _ => rfl

theorem keeps_setHook (dsl path : String) {change : Entry → Entry}
    (hb : ∀ entry, (change entry).bare = entry.bare) : Keeps I (setHook dsl path change) := by
  refine Keeps.get.bind fun r => ?_
  cases r.entryAt? dsl path with
  | none => exact Keeps.pure _
  | some entry => exact (hI.keeps_modifyEntry entry.id hb).bind fun _ => Keeps.pure _

theorem keeps_subscribe (dsl path : String) (event : Event) (handler : ScriptBlock) :
    Keeps I (Session.subscribe dsl path event handler) := by
  cases event
  · exact hI.keeps_setHook dsl path fun _ => rfl
  · exact hI.keeps_setHook dsl path fun _ => rfl

variable [BindingTable τ]

theorem keeps_reveal (id : Keyword.Id) : Keeps I (reveal id) :=
  (keeps_getEntry id).bind fun _ => (hI.keeps_modifyVisible id true).bind fun _ =>
    keeps_bindKeyword hI.bindings _

theorem keeps_hide (id : Keyword.Id) : Keeps I (hide id) := by
  refine (keeps_getEntry id).bind fun entry => Keeps.ite ?_ (Keeps.throw _)
  exact (hI.keeps_modifyVisible id false).bind fun _ => keeps_purgeName hI.bindings _

theorem keeps_loadVisible (name : String) : Keeps I (loadVisible name) :=
  Registry.keeps_loadVisible hI.bindings name

theorem keeps_leaveScope (hscope : ∀ r scope, I r → I { r with scope }) : Keeps I leaveScope :=
  Registry.keeps_leaveScope hI.keeps_hide (fun r _ outer hr _ => hscope r outer hr)
    (fun _ _ _ _ _ _ _ sibling _ => hI.keeps_reveal sibling) (keeps_rebindStandalones hI.bindings)

theorem keeps_enterScope (hscope : ∀ r scope, I r → I { r with scope }) (id : Keyword.Id) :
    Keeps I (enterScope id) :=
  Registry.keeps_enterScope hI.keeps_hide (fun r hr => hscope r _ hr)
    (fun _ _ child _ => hI.keeps_reveal child) (hI.keeps_leaveScope hscope)

end Outlined

/-! ## Lasting invariants -/

/-- The invariant is kept by all changes but those of the scope stack. -/
structure Lasting (I : Registry τ → Prop) : Prop extends Outlined I where
  without : ∀ r p, I r → I (r.without p)
  nextId : ∀ r, I r → I { r with nextId := r.nextId + 1 }
  /-- A keyword with a new identity is registered below a member, or as a root. -/
  concat : ∀ r entry, I r → r.find? entry.id = none → entry.id.number < r.nextId →
    (∀ parent, entry.parent? = some parent → r.isMember parent = true) → I (r.concat entry)

namespace Lasting

variable {I : Registry τ → Prop} (hI : Lasting I)

include hI

theorem bindingFree_given (id : Keyword.Id) : BindingFree (Given I id) :=
  fun r bindings hr => ⟨hI.bindings r bindings hr.1, hr.2⟩

variable [BindingTable τ]

theorem keeps_addStandalone (name : String) (nameMode : NameMode) (body : Keyword.Body)
    (module? : Option String) : Keeps I (Session.addStandalone name nameMode body module?) := by
  refine Meets.bind (P := I) (R := Given I) (fun r hr => ⟨hI.nextId r hr, Nat.lt_succ_self _⟩)
    fun id => ?_
  refine Meets.bind (Meets.conseq (meets_insert (hI.bindingFree_given id) _) (fun _ hr => hr) ?_
    fun _ _ hr => hr.1) fun _ => Keeps.pure _
  rintro _ _ ⟨r, hr, hfresh, rfl⟩
  exact hI.concat r _ hr.1 hfresh hr.2 fun _ h => by cases h

theorem meets_registerMember (dsl : String) (keyword : Keyword) (parent? : Option Keyword.Id)
    (path : String) :
    Meets (Given I keyword.id) (registerMember dsl keyword parent? path) (fun _ => I)
      fun _ => I := by
  refine Meets.conseq (Registry.meets_registerMember (hI.bindingFree_given keyword.id) dsl keyword
    parent? path) (fun _ hr => hr) ?_ fun _ _ hr => hr.1
  rintro _ _ ⟨r, hr, hfresh, hparent, -, rfl⟩
  exact hI.concat r _ hr.1 hfresh hr.2 hparent

theorem keeps_unregister (id : Keyword.Id) : Keeps I (unregister id) := by
  refine (keeps_getEntry id).bind fun entry => ?_
  refine Keeps.bind (Keeps.modify fun r hr => hI.without r (·.id == id) hr) fun _ => ?_
  exact (keeps_purgeName hI.bindings _).bind fun _ => Keeps.pure _

/-- What lasts is kept by the steps on one keyword. -/
theorem steady : Steady I where
  nextId := hI.nextId
  register := hI.meets_registerMember
  publish := keeps_publish hI.bindings
  unregister := hI.keeps_unregister
  rebind := keeps_rebindStandalones hI.bindings
  reveal := hI.keeps_reveal
  hide := hI.keeps_hide

end Lasting

end Registry
end KeywordScope
