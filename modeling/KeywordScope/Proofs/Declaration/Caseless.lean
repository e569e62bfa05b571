import KeywordScope.Proofs.Declaration.Atomic
import KeywordScope.Proofs.Declaration.Tandem
import KeywordScope.Proofs.Grammar.Recased
import KeywordScope.Registry.Forest

/-!
# The case of letters does not matter

A language may be declared in any case: from sources, and under names, that differ in the case of
letters only, the same keywords come about.

* `KeywordTree.Like`: trees that differ in the spelling of names. `Registry.forest_like`: those of
  registries with entries that are alike.
* `Registry.declare_recased`: a tree is declared if one is that is the same up to case.
* `Session.declare_caseless`: a source is declared just if one is that is the same up to case.
-/

namespace KeywordScope

/-- The trees have one shape, with keywords that are alike at the same places. -/
inductive KeywordTree.Like (S : Spelling) (shift : Nat) : KeywordTree → KeywordTree → Prop
  | node {path path' : String} {keyword keyword' : Keyword} {children children' : List KeywordTree}
      (hpath : S.same path path') (hkeyword : keyword.Like S shift keyword')
      (hchildren : List.Forall₂ (KeywordTree.Like S shift) children children') :
      Like S shift (.node path keyword children) (.node path' keyword' children')

/-! ## Registries with entries that are alike -/

section Alike

variable {S : Spelling} {shift : Nat} {τ : Type} {r r' : Registry τ}

namespace Registry

theorem find?_like (h : List.Forall₂ (Entry.Like S shift) r.entries r'.entries)
    (id : Keyword.Id) : Option.Rel (Entry.Like S shift) (r.find? id) (r'.find? (id.later shift)) := by
  rw [find?, find?]
  generalize r.entries = entries, r'.entries = entries' at h
  induction h with
  | nil => exact .none
  | @cons entry entry' _ _ hentry _ ih =>
    have hid : entry'.id = entry.id.later shift := hentry.keyword.id
    rw [List.find?_cons, List.find?_cons, hid, Keyword.Id.later_beq]
    cases entry.id == id with
    | true => exact .some hentry
    | false => exact ih

theorem children_like (h : List.Forall₂ (Entry.Like S shift) r.entries r'.entries)
    (id : Keyword.Id) : List.Forall₂ (fun own own' : Keyword.Id => own' = own.later shift)
      (r.children id) (r'.children (id.later shift)) := by
  rw [children, children, idsWhere, idsWhere, List.forall₂_map_left_iff, List.forall₂_map_right_iff]
  refine (List.rel_filter (fun entry entry' hentry => ?_) h).imp fun _ _ hentry => hentry.keyword.id
  have hparent : ∀ {place place' : Membership}, place.Like S shift place' →
      (place.parent? == some id) = (place'.parent? == some (id.later shift)) := by
    intro place place' hplace
    rw [hplace.parent?]
    cases place.parent? with
    | none => rfl
    | some parent => exact (Keyword.Id.later_beq parent id shift).symm
  exact Bool.eq_iff_iff.1 (rel_any hentry.membership? hparent)

theorem tree?_like (h : List.Forall₂ (Entry.Like S shift) r.entries r'.entries) (height : Nat)
    (id : Keyword.Id) :
    Option.Rel (KeywordTree.Like S shift) (r.tree? height id) (r'.tree? height (id.later shift)) := by
  induction height generalizing id with
  | zero => exact .none
  | succ height ih =>
    have hfind := find?_like h id
    have hchildren := List.rel_filterMap (P := KeywordTree.Like S shift)
      (fun own own' hown => hown ▸ ih own) (children_like h id)
    rw [tree?, tree?]
    generalize r.find? id = entry?, r'.find? (id.later shift) = entry?' at hfind
    cases hfind with
    | none => exact .none
    | some hentry => exact .some (.node hentry.path hentry.keyword hchildren)

/-- The forests of a language in registries with entries that are alike are alike. -/
theorem forest_like (h : List.Forall₂ (Entry.Like S shift) r.entries r'.entries) {dsl dsl' : String}
    (hdsl : S.same dsl dsl') :
    List.Forall₂ (KeywordTree.Like S shift) (r.forest dsl) (r'.forest dsl') := by
  rw [forest, forest, h.length_eq]
  refine List.rel_filterMap (fun root root' hroot => ?_) (Entry.Like.roots h hdsl)
  rw [hroot.id]
  exact tree?_like h _ root.id

end Registry

theorem Entry.Like.refl (entry : Entry) : entry.Like S 0 entry where
  keyword := ⟨rfl, S.refl _, rfl, .refl _, rfl⟩
  visible := rfl
  membership? := by
    cases entry.membership? with
    | none => exact .none
    | some place => exact .some ⟨S.refl _, S.refl _, Option.map_id'.symm⟩
  onInvoking? := rfl
  onInvoked? := rfl

end Alike

/-! ## One language under two names -/

theorem isBlankText_recased {a b : String} (h : sameName a b = true) :
    isBlankText a = isBlankText b := by
  have hfold : ∀ text : String, isBlankText text = isBlankText (foldCase text) := fun text => by
    rw [isBlankText, isBlankText, toList_foldCase, List.all_map]
    exact List.all_congr rfl fun c => (isBlank_toLower c).symm
  rw [hfold, hfold b, sameName_iff.1 h]

theorem Entry.isIn_recased (entry : Entry) {dsl dsl' : String} (h : sameName dsl dsl' = true) :
    entry.isIn dsl = entry.isIn dsl' := by
  simp only [Entry.isIn, sameName_congr h]

namespace Registry

open Step

variable {τ : Type} [BindingTable τ] {r : Registry τ} {dsl dsl' : String}

theorem removeDsl_recased (h : sameName dsl dsl' = true) :
    removeDsl (τ := τ) dsl = removeDsl dsl' := by
  have hmembers : ∀ r : Registry τ, r.members dsl = r.members dsl' := fun r => by
    simp only [members, keywordsWhere, fun entry : Entry => entry.isIn_recased h]
  simp only [removeDsl, hmembers]

/-- A language is checked against the same bindings, whatever the case of its name. -/
theorem rules_recased [BindingTable.Stacked τ] (r : Registry τ) (output : OutputConfig)
    (dsl dsl' : String) : (r.rules output dsl).Recased (r.rules output dsl') where
  reserved := rfl
  bound {name name'} h hbound binding hbinding := by
    have hlookup : BindingTable.lookup r.bindings name = BindingTable.lookup r.bindings name' := by
      rw [BindingTable.Stacked.lookup_eq, BindingTable.Stacked.lookup_eq,
        BindingTable.Stacked.held_congr r.bindings h]
    refine hbound binding ?_
    show binding ∈ BindingTable.lookup r.bindings name
    rw [hlookup]
    exact hbinding

/-- One language under two names, the former keywords of which are removed. -/
def Tandem.recased (r : Registry τ) (h : sameName dsl dsl' = true) (module? : Option String) :
    Tandem where
  spelling := .anyCase
  shift := 0
  forest := { dsl, module? }
  forest' := { dsl := dsl', module? }
  dsl := h
  module? := rfl
  base := (r.without (·.isIn dsl)).entries
  base' := (r.without (·.isIn dsl)).entries
  lacks _ he := (mem_without.1 he).2
  lacks' entry he := entry.isIn_recased h ▸ (mem_without.1 he).2

variable [BindingTable.Stacked τ] [BindingTable.Lenient τ]

/-- If a tree is declared, then so is one that is the same up to case, under the name in any case.
What is registered is the same up to case. -/
theorem declare_recased (hr : r.Distinct) (output : OutputConfig) (types : TypeTable)
    (h : sameName dsl dsl' = true) {tree tree' : Script.Block} (hlike : tree.Like .recased tree')
    (module? : Option String) {roots : List Keyword} {s : Registry τ}
    (hrun : (declare output types.find? dsl tree module?).run r = (.ok roots, s)) :
    ∃ roots' s', (declare output types.find? dsl' tree' module?).run r = (.ok roots', s') ∧
      List.Forall₂ (Keyword.Like .anyCase 0) roots roots' ∧
      List.Forall₂ (Entry.Like .anyCase 0) s.entries s'.entries := by
  rcases hcheck : Grammar.check (r.rules output dsl) types.find? none tree with e | g
  · rw [run_declare_rejected _ _ _ _ _ hcheck] at hrun
    cases hrun
  obtain ⟨g', hcheck', hgrammar⟩ :=
    Grammar.check_recased (r.rules_recased output dsl dsl') types hlike hcheck
  rcases hremove : (removeDsl dsl).run r with ⟨e | removed, s₀⟩
  · rw [run_declare_unremoved hcheck hremove] at hrun
    cases hrun
  have hremove' : (removeDsl dsl').run r = (.ok removed, s₀) := by
    rw [← removeDsl_recased h, hremove]
  obtain ⟨t, hs₀⟩ := run_removeDsl hr dsl
  rw [hremove] at hs₀
  obtain rfl : s₀ = _ := hs₀
  have hstart : (Tandem.recased r h module?).Holds []
      ((r.without (·.isIn dsl)).withBindings t) ((r.without (·.isIn dsl)).withBindings t) :=
    { spare := fun _ _ => ⟨rfl, .inl rfl⟩
      grown := ⟨[], [], (List.append_nil _).symm, (List.append_nil _).symm, .nil⟩
      nextId := rfl
      scope := rfl
      separator := rfl
      members := nofun }
  have hends : (Tandem.recased r h module?).Outcomes
      ((declare output types.find? dsl tree module?).run r)
      ((declare output types.find? dsl' tree' module?).run r) :=
    Tandem.outcomes_declare hcheck hcheck' hgrammar hremove hremove' hstart
  rw [hrun] at hends
  generalize (declare output types.find? dsl' tree' module?).run r = p' at hends ⊢
  cases hends with
  | ok hroots hholds =>
    obtain ⟨new, new', hentries, hentries', hnew⟩ := hholds.grown
    refine ⟨_, _, rfl, hroots, ?_⟩
    rw [hentries, hentries']
    exact List.rel_append (List.forall₂_same.2 fun entry _ => .refl entry) hnew

end Registry

/-! ## Sources -/

namespace Session

variable {τ ω : Type} [BindingTable τ]

theorem run_declare_answers (session : Session τ ω) (held : Hold) (dsl source : String)
    (module? : Option String) (state : State τ ω) : ∃ answer after,
    (session.declare held dsl source module?).run state = some (answer, after) := by
  unfold declare
  split
  next e _ => exact ⟨.error e, state, rfl⟩
  · cases held with
    | free =>
      simp only [change, Run.run_onRegistry]
      exact ⟨_, _, rfl⟩
    | shared | exclusive => exact ⟨.error (.invalidState .inUse), state, rfl⟩

variable {session : Session τ ω} {held : Hold} {dsl source : String} {module? : Option String}
  {state : State τ ω}

/-- A declaration succeeds if the source has a tree, the language a name, and the tree can be declared
in the registry, which is not held. -/
theorem run_declare_eq_ok {roots : List Keyword} {after : State τ ω} :
    (session.declare held dsl source module?).run state = some (.ok roots, after) ↔
      held = .free ∧ isBlankText dsl = false ∧ ∃ tree r, Script.parse source = .ok tree ∧
        (Registry.declare session.config.output session.findType dsl tree module?).run
          state.registry = (.ok roots, r) ∧ after = { state with registry := r } := by
  have hrejected : ∀ {e : KeywordError}, session.Rejected held dsl source state.registry e →
      (session.declare held dsl source module?).run state ≠ some (.ok roots, after) := by
    intro e h hrun
    cases (h.run_declare module?).symm.trans hrun
  constructor
  · intro hrun
    rcases hparse : Script.parse source with e | tree
    · exact absurd hrun (hrejected (.unreadable hparse))
    rcases hname : isBlankText dsl with _ | _
    · have hheld : held = .free := Decidable.byContradiction fun hheld =>
        hrejected (.inUse hparse hname hheld) hrun
      subst hheld
      unfold declare at hrun
      simp only [readDeclaration_eq_ok hparse hname, change] at hrun
      rw [Run.run_onRegistry, Registry.run_locatedIn] at hrun
      rcases hdeclare : (Registry.declare session.config.output session.findType dsl tree
        module?).run state.registry with ⟨e | own, r⟩
      · rw [hdeclare] at hrun
        cases hrun
      · rw [hdeclare] at hrun
        cases hrun
        exact ⟨rfl, rfl, tree, r, rfl, hdeclare, rfl⟩
    · exact absurd hrun (hrejected (.nameless hparse hname))
  · rintro ⟨rfl, hname, tree, r, hparse, hrun, rfl⟩
    unfold declare
    simp only [readDeclaration_eq_ok hparse hname, change]
    rw [Run.run_onRegistry, Registry.run_locatedIn, hrun]
    rfl

variable [BindingTable.Stacked τ] [BindingTable.Lenient τ] {types : TypeTable} {dsl' source' : String}

/-- If a source is declared, then so is one in another case, under the name in any case. -/
theorem run_declare_recased (htypes : session.findType = types.find?)
    (hstate : state.registry.Edited) (hdsl : sameName dsl dsl' = true)
    (hsource : sameName source source' = true) {roots : List Keyword} {after : State τ ω}
    (hrun : (session.declare held dsl source module?).run state = some (.ok roots, after)) :
    ∃ roots' after',
      (session.declare held dsl' source' module?).run state = some (.ok roots', after') ∧
        List.Forall₂ (Keyword.Like .anyCase 0) roots roots' ∧
        List.Forall₂ (Entry.Like .anyCase 0) after.registry.entries after'.registry.entries := by
  obtain ⟨hheld, hname, tree, r, hparse, hdeclare, rfl⟩ := run_declare_eq_ok.1 hrun
  obtain ⟨tree', hparse', hlike⟩ := Script.parse_recased hsource hparse
  rw [htypes] at hdeclare
  obtain ⟨roots', r', hdeclare', hroots, hentries⟩ := Registry.declare_recased hstate.sound.distinct
    session.config.output types hdsl hlike module? hdeclare
  rw [← htypes] at hdeclare'
  rw [isBlankText_recased hdsl] at hname
  exact ⟨roots', { state with registry := r' },
    run_declare_eq_ok.2 ⟨hheld, hname, tree', r', hparse', hdeclare', rfl⟩, hroots, hentries⟩

/-- A source is declared just if one is that differs from it in the case of letters only, under names
that differ in no more. Then the answers, all entries, and so the forests of the language are alike:
they differ in the case of names and paths only. The types of the host are those of a table. -/
theorem declare_caseless (session : Session τ ω) (types : TypeTable)
    (htypes : session.findType = types.find?) {state : State τ ω} (hstate : state.registry.Edited)
    {dsl dsl' source source' : String} (hdsl : sameName dsl dsl' = true)
    (hsource : sameName source source' = true) (held : Hold) (module? : Option String) :
    ∃ answer answer' after after',
      (session.declare held dsl source module?).run state = some (answer, after) ∧
      (session.declare held dsl' source' module?).run state = some (answer', after') ∧
      answer.isOk = answer'.isOk ∧
      ∀ roots roots', answer = .ok roots → answer' = .ok roots' →
        List.Forall₂ (Keyword.Like .anyCase 0) roots roots' ∧
        List.Forall₂ (Entry.Like .anyCase 0) after.registry.entries after'.registry.entries ∧
        List.Forall₂ (KeywordTree.Like .anyCase 0) (after.registry.forest dsl)
          (after'.registry.forest dsl') := by
  obtain ⟨answer, after, hrun⟩ := run_declare_answers session held dsl source module? state
  obtain ⟨answer', after', hrun'⟩ := run_declare_answers session held dsl' source' module? state
  refine ⟨answer, answer', after, after', hrun, hrun', ?_, ?_⟩
  · cases answer with
    | ok roots =>
      obtain ⟨_, _, hdeclared, -⟩ := run_declare_recased htypes hstate hdsl hsource hrun
      cases hrun'.symm.trans hdeclared
      rfl
    | error e =>
      cases answer' with
      | ok roots' =>
        rw [sameName_comm] at hdsl hsource
        obtain ⟨_, _, hdeclared, -⟩ := run_declare_recased htypes hstate hdsl hsource hrun'
        cases hrun.symm.trans hdeclared
      | error e' => rfl
  · rintro roots roots' rfl rfl
    obtain ⟨_, _, hdeclared, hroots, hentries⟩ :=
      run_declare_recased htypes hstate hdsl hsource hrun
    cases hrun'.symm.trans hdeclared
    exact ⟨hroots, hentries, Registry.forest_like hentries hdsl⟩

theorem declare_caseless_sample :
    let session : Session LayeredTable Unit := { host := ({} : NativeHost LayeredTable Unit).toHost }
    let state : State LayeredTable Unit := session.start {}
    let source := "Page [Name] \x7b string Title \x7d; Feed \x7b Item \x7b [int] [Count] \x7d \x7d"
    let source' := "PAGE [NAME] \x7b STRING title \x7d; feed \x7b ITEM \x7b [Int] [count] \x7d \x7d"
    sameName "web" "Web" = true ∧ sameName source source' = true ∧
      ∃ roots roots' after after',
        (session.declare .free "web" source none).run state = some (.ok roots, after) ∧
        (session.declare .free "Web" source' none).run state = some (.ok roots', after') ∧
        roots.length = 2 ∧
        List.Forall₂ (KeywordTree.Like .anyCase 0) (after.registry.forest "web")
          (after'.registry.forest "Web") := by
  intro session state source source'
  have hstate : state.registry.Edited := .empty _ _
  have hdsl : sameName "web" "Web" = true := by decide +kernel
  have hsource : sameName source source' = true := by decide +kernel
  obtain ⟨answer, answer', after, after', hrun, hrun', hok, hlike⟩ :=
    session.declare_caseless {} (findType_native {} {}) hstate hdsl hsource .free none
  have hroots : ((session.declare .free "web" source none).run state).map
      (fun result => result.1.toOption.map List.length) = some (some 2) := by decide +kernel
  rw [hrun, Option.map_some, Option.some.injEq] at hroots
  cases answer with
  | error e => cases hroots
  | ok roots =>
    cases answer' with
    | error e => cases hok
    | ok roots' =>
      exact ⟨hdsl, hsource, roots, roots', after, after', hrun, hrun', Option.some.inj hroots,
        (hlike roots roots' rfl rfl).2.2⟩

end Session

end KeywordScope
