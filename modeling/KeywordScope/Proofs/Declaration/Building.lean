import KeywordScope.Proofs.Grammar.Trees
import KeywordScope.Proofs.Registry.Issued
import KeywordScope.Proofs.Registry.Sound

/-!
# Accepted grammars are registered

While no scope is entered, a proper grammar is registered without a failure over a table that
accepts all names but the empty one, if its paths are distinct from each other and from those of its
language.

* `grow`: the registry with further entries, and as many identities given out.
* `Ready`: keywords can be registered below these names.
* `Build.registers_decl`, `registers_language`: what becomes of the registry.
-/

namespace KeywordScope
namespace Registry

open KeywordTree Step

variable {τ : Type} {r : Registry τ}

/-! ## Further entries -/

/-- The registry with further entries, and as many identities given out. -/
def grow (r : Registry τ) (entries : List Entry) : Registry τ :=
  { r with
    entries := r.entries ++ entries
    nextId := r.nextId + entries.length }

@[simp] theorem entries_grow (r : Registry τ) (entries : List Entry) :
    (r.grow entries).entries = r.entries ++ entries := rfl

@[simp] theorem withBindings_grow (r : Registry τ) (bindings : τ) (entries : List Entry) :
    (r.withBindings bindings).grow entries = (r.grow entries).withBindings bindings := rfl

theorem grow_nil (r : Registry τ) : r.grow [] = r := by
  simp [grow]

theorem grow_grow (r : Registry τ) (entries entries' : List Entry) :
    (r.grow entries).grow entries' = r.grow (entries ++ entries') := by
  simp [grow, Nat.add_assoc]

theorem isMember_grow {id : Keyword.Id} (h : r.isMember id = true) (entries : List Entry) :
    (r.grow entries).isMember id = true := by
  obtain ⟨found, hf, hm⟩ := isMember_iff.1 h
  exact isMember_iff.2 ⟨found, find?_of_append rfl hf, hm⟩

theorem find?_grow_of_ne {entry : Entry} {id : Keyword.Id} (h : entry.id ≠ id) :
    (r.grow [entry]).find? id = r.find? id := by
  rw [find?, entries_grow, List.find?_append, List.find?_singleton, if_neg (by simpa using h),
    Option.or_none, find?]

theorem isMember_grow_self {entry : Entry} (hfresh : r.find? entry.id = none)
    (hmember : entry.isMember = true) : (r.grow [entry]).isMember entry.id = true := by
  have hfind : (r.grow [entry]).find? entry.id = some entry := by
    have hfresh : r.entries.find? (·.id == entry.id) = none := hfresh
    rw [find?, entries_grow, List.find?_append, hfresh]
    simp
  exact isMember_iff.2 ⟨entry, hfind, hmember⟩

/-- No keyword has an identity that is not given out yet. -/
theorem Issued.find?_unissued (hr : r.Issued) {id : Keyword.Id} (h : r.nextId ≤ id.number) :
    r.find? id = none := by
  rw [find?, List.find?_eq_none]
  intro entry he same
  have hlt := hr.id_lt entry he
  rw [show entry.id = id by simpa using same] at hlt
  exact Nat.not_lt.2 h hlt

theorem Issued.find?_next (hr : r.Issued) : r.find? ⟨r.nextId⟩ = none :=
  hr.find?_unissued (Nat.le_refl _)

/-- An entry with the next identity is registered. -/
theorem Issued.grow_next {entry : Entry} (hr : r.Issued) (hid : entry.id = ⟨r.nextId⟩)
    (hparent : ∀ parent, entry.parent? = some parent → r.isMember parent = true) :
    (r.grow [entry]).Issued := by
  have hfresh : r.find? entry.id = none := by
    rw [hid]
    exact hr.find?_next
  have hlt : entry.id.number < r.nextId + 1 := by
    rw [hid]
    exact Nat.lt_succ_self r.nextId
  exact (lasting_issued.nextId r hr).concat hfresh hlt hparent

/-! ## One keyword -/

section Keyword

variable [BindingTable τ]

theorem run_insert [BindingTable.Lenient τ] {entry : Entry} (hfresh : r.find? entry.id = none)
    (hname : entry.keyword.name ≠ "") :
    ∃ t, (insert entry).run r = (.ok (), (r.concat entry).withBindings t) := by
  rw [insert, run_bind_ok (run_get r)]
  simp only [hfresh, Option.isSome_none, Bool.false_eq_true, ↓reduceIte]
  split
  · rw [run_bind_ok (run_bindKeyword_ok (BindingTable.Lenient.accepts _ hname) r), run_modify]
    exact ⟨_, rfl⟩
  · rw [run_modify]
    exact ⟨r.bindings, rfl⟩

theorem run_insert_known {entry : Entry} (hknown : (r.find? entry.id).isSome = true) :
    (insert entry).run r = (.error (.invalidState (.idTaken entry.id)), r) := by
  rw [insert, run_bind_ok (run_get r)]
  simp only [hknown, ↓reduceIte]
  rfl

/-- A new member is registered below a member, or as a root, at a path that is free. -/
theorem run_registerMember [BindingTable.Lenient τ] {dsl : String} {keyword : Keyword}
    {parent? : Option Keyword.Id} {path : String}
    (hparent : ∀ parent, parent? = some parent → r.isMember parent = true)
    (hpath : r.entryAt? dsl path = none) (hfresh : r.find? keyword.id = none)
    (hname : keyword.name ≠ "") :
    ∃ t, (registerMember dsl keyword parent? path).run r =
      (.ok keyword, (r.concat ((memberEntry dsl keyword parent? path).withVisible
        (parent?.isNone && r.scope.isEmpty))).withBindings t) := by
  obtain ⟨t, hr⟩ : ∃ t, (insert ((memberEntry dsl keyword parent? path).withVisible
    (parent?.isNone && r.scope.isEmpty))).run r = _ := run_insert hfresh hname
  refine ⟨t, ?_⟩
  rw [registerMember, run_bind_ok (run_get r), hpath]
  cases parent? with
  | none => exact run_bind_ok hr
  | some parent =>
    simp only [hparent parent rfl, ↓reduceIte]
    exact run_bind_ok hr

theorem run_registerMember_taken {dsl : String} {keyword : Keyword}
    {parent? : Option Keyword.Id} {path : String}
    (hparent : ∀ parent, parent? = some parent → r.isMember parent = true)
    (hpath : (r.entryAt? dsl path).isSome = true) :
    (registerMember dsl keyword parent? path).run r =
      (.error (.invalidState (.pathTaken path dsl)), r) := by
  rw [registerMember, run_bind_ok (run_get r)]
  simp only [hpath, ↓reduceIte]
  cases parent? with
  | none => rfl
  | some parent =>
    simp only [hparent parent rfl, ↓reduceIte]
    rfl

theorem run_registerMember_known {dsl : String} {keyword : Keyword}
    {parent? : Option Keyword.Id} {path : String}
    (hparent : ∀ parent, parent? = some parent → r.isMember parent = true)
    (hpath : r.entryAt? dsl path = none) (hknown : (r.find? keyword.id).isSome = true) :
    (registerMember dsl keyword parent? path).run r =
      (.error (.invalidState (.idTaken keyword.id)), r) := by
  have hr : (insert ((memberEntry dsl keyword parent? path).withVisible
    (parent?.isNone && r.scope.isEmpty))).run r = _ := run_insert_known hknown
  rw [registerMember, run_bind_ok (run_get r), hpath]
  cases parent? with
  | none => exact run_bind_error hr
  | some parent =>
    simp only [hparent parent rfl, ↓reduceIte]
    exact run_bind_error hr

theorem run_publish [BindingTable.Lenient τ] (module name : String) (r : Registry τ) :
    ∃ t, (publish module name).run r = (.ok (), r.withBindings t) := by
  rw [publish, run_changeBindings, BindingTable.Lenient.publish_ok]
  exact ⟨_, rfl⟩

end Keyword

/-! ## Whole grammars -/

/-- No scope is entered, and the keyword to which the names `above` lead is registered. -/
structure Ready (above : List String) (parent? : Option Keyword.Id)
    (parentPath? : Option String) (r : Registry τ) : Prop extends r.Issued where
  scope_nil : r.scope = []
  parent_member : ∀ parent, parent? = some parent → r.isMember parent = true
  path_eq : ∀ name : String, (parentPath?.map (· ++ r.separator ++ name)).getD name =
    r.separator.intercalate (above ++ [name])

section Ready

variable {above : List String} {parent? : Option Keyword.Id} {parentPath? : Option String}

/-- Roots can be registered while no scope is entered. -/
theorem Issued.ready (hr : r.Issued) (hscope : r.scope = []) : r.Ready [] none none :=
  ⟨hr, hscope, fun _ h => (by cases h), fun _ => String.intercalate_singleton.symm⟩

theorem Ready.withBindings (hr : r.Ready above parent? parentPath?) (bindings : τ) :
    (r.withBindings bindings).Ready above parent? parentPath? :=
  ⟨lasting_issued.bindings r bindings hr.toIssued, hr.scope_nil, hr.parent_member, hr.path_eq⟩

/-- The next keyword has been registered, with the next identity. -/
theorem Ready.below (hr : r.Ready above parent? parentPath?) (keyword : Keyword) (dsl : String)
    (hid : keyword.id = ⟨r.nextId⟩) :
    (r.grow [memberEntry dsl keyword parent?
      (r.separator.intercalate (above ++ [keyword.name]))]).Ready (above ++ [keyword.name])
        (some keyword.id) (some (r.separator.intercalate (above ++ [keyword.name]))) := by
  refine ⟨hr.toIssued.grow_next hid hr.parent_member, hr.scope_nil, ?_, ?_⟩
  · rintro _ ⟨⟩
    exact isMember_grow_self (by
      show r.find? keyword.id = none
      rw [hid]
      exact hr.toIssued.find?_next) rfl
  · intro name
    have hne : above ++ [keyword.name] ≠ [] := by simp
    show r.separator.intercalate (above ++ [keyword.name]) ++ r.separator ++ name =
      r.separator.intercalate (above ++ [keyword.name] ++ [name])
    rw [String.intercalate_append_of_ne_nil hne (List.cons_ne_nil _ _),
      String.intercalate_singleton]

end Ready

namespace Build

theorem run_onRegistry_ok {α : Type} {action : Action τ α} {s : Registry τ} {a : α}
    (h : action.run r = (.ok a, s)) (registered : List Keyword.Id) :
    (onRegistry action).run (r, registered) = (.ok a, (s, registered)) := by
  rw [run_onRegistry, h]

theorem run_onRegistry_error {α : Type} {action : Action τ α} {s : Registry τ} {e : KeywordError}
    (h : action.run r = (.error e, s)) (registered : List Keyword.Id) :
    (onRegistry action).run (r, registered) = (.error e, (s, registered)) := by
  rw [run_onRegistry, h]

/-- The step succeeds and registers these entries. Besides, it changes the bindings at most. -/
def Registers (step : Build τ Unit) (r : Registry τ) (new : List Entry) : Prop :=
  ∀ registered, ∃ t registered',
    step.run (r, registered) = (.ok (), ((r.grow new).withBindings t, registered'))

theorem Registers.nil : Registers (pure ()) r [] := by
  intro registered
  rw [grow_nil]
  exact ⟨r.bindings, registered, rfl⟩

theorem Registers.append {x y : Build τ Unit} {new new' : List Entry} (hx : Registers x r new)
    (hy : ∀ t, Registers y ((r.grow new).withBindings t) new') :
    Registers (x >>= fun _ => y) r (new ++ new') := by
  intro registered
  obtain ⟨t, registered', hrun⟩ := hx registered
  obtain ⟨t', registered'', hrun'⟩ := hy t registered'
  refine ⟨t', registered'', ?_⟩
  rw [run_bind_ok hrun, hrun', withBindings_grow, grow_grow, withBindings_withBindings]

/-- Keywords can be registered next to those that have been. -/
theorem Registers.ready {above : List String} {parent? : Option Keyword.Id}
    {parentPath? : Option String} {step : Build τ Unit} {new : List Entry}
    (h : Registers step r new) (hkeeps : Keeps (fun s => Issued s.1) step)
    (hr : r.Ready above parent? parentPath?) : (r.grow new).Ready above parent? parentPath? := by
  obtain ⟨t, registered, hrun⟩ := h []
  have hissued := hkeeps.run (s := (r, [])) hr.toIssued
  rw [hrun] at hissued
  exact ⟨lasting_issued.bindings _ r.bindings hissued, hr.scope_nil,
    fun parent hp => isMember_grow (hr.parent_member parent hp) new, hr.path_eq⟩

variable [BindingTable τ]

section Top

variable {forest : Forest} {parent? : Option Keyword.Id} {parentPath? : Option String} {name : String}

/-- The path of a keyword below another one, or of a root. -/
abbrev pathBelow (separator : String) (parentPath? : Option String) (name : String) : String :=
  (parentPath?.map fun parentPath => parentPath ++ separator ++ name).getD name

/-- The keyword at the top of a tree is registered first, with the next identity, if its path is
free. -/
theorem run_decl [BindingTable.Lenient τ] (hfresh : r.find? ⟨r.nextId⟩ = none)
    (nameMode : NameMode) (body : Grammar) (span : Span) (hname : name ≠ "")
    (hparent : ∀ parent, parent? = some parent → r.isMember parent = true)
    (hpath : r.entryAt? forest.dsl (pathBelow r.separator parentPath? name) = none)
    (registered : List Keyword.Id) :
    ∃ t, (Build.decl forest parent? parentPath? (.mk name nameMode body span)).run (r, registered) =
      (grammar forest (some ⟨r.nextId⟩) (some (pathBelow r.separator parentPath? name)) body).run
        ((r.grow [(memberEntry forest.dsl
          ((KeywordDecl.mk name nameMode body span).keyword forest ⟨r.nextId⟩) parent?
            (pathBelow r.separator parentPath? name)).withVisible
              (parent?.isNone && r.scope.isEmpty)]).withBindings t, registered ++ [⟨r.nextId⟩]) := by
  have hallocate : (onRegistry allocate).run (r, registered) =
      (.ok ⟨r.nextId⟩, ({ r with nextId := r.nextId + 1 }, registered)) := rfl
  obtain ⟨t, hregister⟩ : ∃ t, (registerMember forest.dsl
      { id := ⟨r.nextId⟩, name, nameMode, body := body.toBody, module? := forest.module? } parent?
        (pathBelow r.separator parentPath? name)).run { r with nextId := r.nextId + 1 } = _ :=
    run_registerMember hparent hpath hfresh hname
  unfold Build.decl
  rw [run_bind_ok hallocate, run_bind_ok (run_get _)]
  simp only
  rw [run_bind_ok (run_discard_ok (run_onRegistry_ok hregister registered)),
    run_bind_ok (run_modify _ _)]
  -- The names of roots are published by their module.
  split
  next _ module _ =>
    obtain ⟨t', hpublish⟩ := run_publish module name ((r.grow [(memberEntry forest.dsl
      ((KeywordDecl.mk name nameMode body span).keyword forest ⟨r.nextId⟩) parent?
        (pathBelow r.separator parentPath? name)).withVisible
          (parent?.isNone && r.scope.isEmpty)]).withBindings t)
    exact ⟨t', run_bind_ok (run_onRegistry_ok hpublish _)⟩
  · exact ⟨t, rfl⟩

/-- A declaration fails at once if the keyword at the top of its tree is not registered. -/
theorem run_decl_error (nameMode : NameMode) (body : Grammar) (span : Span) {e : KeywordError}
    {s : Registry τ}
    (h : (registerMember forest.dsl
        ((KeywordDecl.mk name nameMode body span).keyword forest ⟨r.nextId⟩) parent?
          (pathBelow r.separator parentPath? name)).run { r with nextId := r.nextId + 1 } =
      (.error e, s)) (registered : List Keyword.Id) :
    (Build.decl forest parent? parentPath? (.mk name nameMode body span)).run (r, registered) =
      (.error e, (s, registered)) := by
  have hallocate : (onRegistry allocate).run (r, registered) =
      (.ok ⟨r.nextId⟩, ({ r with nextId := r.nextId + 1 }, registered)) := rfl
  unfold Build.decl
  rw [run_bind_ok hallocate, run_bind_ok (run_get _)]
  simp only
  exact run_bind_error (run_discard_error (run_onRegistry_error h registered))

end Top

/-- In front of the registration of a whole tree, its path is free. -/
theorem run_decl_top [BindingTable.Lenient τ] {above : List String} {parent? : Option Keyword.Id}
    {parentPath? : Option String} (forest : Forest) (hr : r.Ready above parent? parentPath?)
    (decl : KeywordDecl) (hname : decl.name ≠ "")
    (hpaths : PathsDistinct forest.dsl (r.entries ++ [memberEntry forest.dsl
      (decl.keyword forest ⟨r.nextId⟩) parent? (r.separator.intercalate (above ++ [decl.name]))]))
    (registered : List Keyword.Id) :
    ∃ t, (Build.decl forest parent? parentPath? decl).run (r, registered) =
      (grammar forest (some ⟨r.nextId⟩) (some (r.separator.intercalate (above ++ [decl.name])))
        decl.body).run
          ((r.grow [memberEntry forest.dsl (decl.keyword forest ⟨r.nextId⟩) parent?
            (r.separator.intercalate (above ++ [decl.name]))]).withBindings t,
            registered ++ [⟨r.nextId⟩]) := by
  obtain ⟨name, nameMode, body, span⟩ := decl
  have hbelow : pathBelow r.separator parentPath? name =
      r.separator.intercalate (above ++ [name]) := hr.path_eq name
  have hpath : r.entryAt? forest.dsl (pathBelow r.separator parentPath? name) = none := by
    rw [hbelow]
    exact hpaths.entryAt?_eq_none (by simp [memberEntry, Entry.isIn, sameName_refl])
  have hname : name ≠ "" := hname
  obtain ⟨t, hrun⟩ := run_decl hr.toIssued.find?_next nameMode body span hname hr.parent_member hpath
    registered
  rw [hbelow, hr.scope_nil, List.isEmpty_nil, Bool.and_true] at hrun
  exact ⟨t, hrun⟩

mutual

/-- The keywords of a tree are registered in order. -/
theorem registers_decl [BindingTable.Lenient τ] {r : Registry τ} {above : List String}
    {parent? : Option Keyword.Id} {parentPath? : Option String} (forest : Forest)
    (hr : r.Ready above parent? parentPath?) : ∀ d : KeywordDecl, d.Proper →
    PathsDistinct forest.dsl (r.entries ++
      (d.tree forest r.separator above r.nextId).entries forest.dsl parent?) →
    Registers (decl forest parent? parentPath? d) r
      ((d.tree forest r.separator above r.nextId).entries forest.dsl parent?)
  | .mk name nameMode body span, ⟨hname, _, hbody⟩, hpaths => by
    rw [KeywordDecl.tree, KeywordTree.entries] at hpaths ⊢
    intro registered
    obtain ⟨t, hrun⟩ := run_decl_top forest hr (.mk name nameMode body span)
      (ne_empty_of_isKeywordName hname) (hpaths.sublist (List.Sublist.append_left
        (List.singleton_sublist.2 List.mem_cons_self) _)) registered
    have hready := hr.below ((KeywordDecl.mk name nameMode body span).keyword forest ⟨r.nextId⟩)
      forest.dsl rfl
    have hbelow := registers_grammar forest (hready.withBindings t) body hbody
      (by rw [entries_withBindings, entries_grow, List.append_assoc]; exact hpaths)
    obtain ⟨t', registered', hrun'⟩ := hbelow (registered ++ [⟨r.nextId⟩])
    refine ⟨t', registered', hrun.trans (hrun'.trans ?_)⟩
    rw [withBindings_grow, grow_grow, withBindings_withBindings]
    rfl

theorem registers_grammar [BindingTable.Lenient τ] {r : Registry τ} {above : List String}
    {parent? : Option Keyword.Id} {parentPath? : Option String} (forest : Forest)
    (hr : r.Ready above parent? parentPath?) : ∀ g : Grammar, g.Proper →
    PathsDistinct forest.dsl (r.entries ++
      entriesAll forest.dsl parent? (g.trees forest r.separator above r.nextId)) →
    Registers (grammar forest parent? parentPath? g) r
      (entriesAll forest.dsl parent? (g.trees forest r.separator above r.nextId))
  | .keywords ds _, hproper, hpaths => by
    rw [Grammar.trees] at hpaths ⊢
    unfold Build.grammar
    exact registers_decls forest hr ds hproper hpaths
  | .properties _ _, _, _ => by
    rw [Grammar.trees, entriesAll]
    unfold Build.grammar
    exact Registers.nil

theorem registers_decls [BindingTable.Lenient τ] {r : Registry τ} {above : List String}
    {parent? : Option Keyword.Id} {parentPath? : Option String} (forest : Forest)
    (hr : r.Ready above parent? parentPath?) : ∀ ds : List KeywordDecl, Grammar.AllProper ds →
    PathsDistinct forest.dsl (r.entries ++ entriesAll forest.dsl parent?
      (Grammar.treesAll forest r.separator above r.nextId ds)) →
    Registers (decls forest parent? parentPath? ds) r (entriesAll forest.dsl parent?
      (Grammar.treesAll forest r.separator above r.nextId ds))
  | [], _, _ => by
    rw [Grammar.treesAll, entriesAll]
    unfold Build.decls
    exact Registers.nil
  | first :: rest, ⟨hfirst, _, hrest⟩, hpaths => by
    rw [Grammar.treesAll, entriesAll, ← List.append_assoc] at hpaths
    rw [Grammar.treesAll, entriesAll]
    unfold Build.decls
    have hregisters := registers_decl forest hr first hfirst
      (hpaths.sublist (List.sublist_append_left _ _))
    refine hregisters.append fun t => ?_
    have hready :=
      hregisters.ready (lasting_issued.steady.keeps_decl forest parent? parentPath? first) hr
    rw [← first.length_entries forest r.separator above r.nextId forest.dsl parent?] at hpaths ⊢
    exact registers_decls forest (hready.withBindings t) rest hrest hpaths

end

end Build

/-- A whole grammar is registered while no scope is entered. -/
theorem registers_language [BindingTable τ] [BindingTable.Lenient τ] (forest : Forest) {g : Grammar}
    (hg : g.Proper) (hr : r.Issued) (hscope : r.scope = [])
    (hpaths : PathsDistinct forest.dsl (r.entries ++
      entriesAll forest.dsl none (g.trees forest r.separator [] r.nextId))) :
    Build.Registers (Build.grammar forest none none g) r
      (entriesAll forest.dsl none (g.trees forest r.separator [] r.nextId)) :=
  Build.registers_grammar forest (hr.ready hscope) g hg hpaths

/-- Nothing is registered if the former keywords of the language cannot be removed. -/
theorem run_declare_unremoved [BindingTable τ] {s : Registry τ} {output : OutputConfig}
    {findType : String → Option HostType} {dsl : String} {tree : Script.Block}
    {module? : Option String} {g : Grammar} {e : KeywordError}
    (hcheck : Grammar.check (r.rules output dsl) findType none tree = .ok g)
    (hremove : (removeDsl dsl).run r = (.error e, s)) :
    (declare output findType dsl tree module?).run r = (.error e, s) := by
  rw [declare, run_bind_ok (run_get r), hcheck]
  exact run_bind_error (run_discard_error hremove)

/-- An accepted grammar is registered once the former keywords of its language are removed. If that
fails, no keyword is left. -/
theorem run_declare_build [BindingTable τ] {s : Registry τ} {output : OutputConfig}
    {findType : String → Option HostType} {dsl : String} {tree : Script.Block}
    {module? : Option String} {g : Grammar} {removed : Nat}
    (hcheck : Grammar.check (r.rules output dsl) findType none tree = .ok g)
    (hremove : (removeDsl dsl).run r = (.ok removed, s)) :
    (declare output findType dsl tree module?).run r =
      match (Build.grammar { dsl, module? } none none g).run (s, []) with
      | (.ok _, (t, _)) => (.ok (t.roots dsl), t)
      | (.error e, (t, _)) => (.error e, ((removeDsl dsl).run t).2) := by
  have hlift := run_lift (ε := KeywordError) (build { dsl, module? } none none g) s
  have hbuild : (build { dsl, module? } none none g).run s =
      ((((Build.grammar { dsl, module? } none none g).run (s, [])).1.map fun _ => g.propertyList,
        ((Build.grammar { dsl, module? } none none g).run (s, [])).2.2),
          ((Build.grammar { dsl, module? } none none g).run (s, [])).2.1) := rfl
  rw [hbuild] at hlift
  rw [declare, run_bind_ok (run_get r), hcheck]
  simp only
  rw [run_bind_ok (run_discard_ok hremove), run_bind_ok hlift]
  rcases (Build.grammar { dsl, module? } none none g).run (s, []) with ⟨e | _, t, registered⟩
  · have hrollback : (discard (attempt (removeDsl dsl))).run t =
        (.ok ⟨⟩, ((removeDsl dsl).run t).2) := run_discard_ok (run_attempt _ t)
    exact (run_bind_ok hrollback).trans rfl
  · rfl

end Registry
end KeywordScope
