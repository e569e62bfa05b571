import KeywordScope.Proofs.Grammar.Proper
import KeywordScope.Proofs.Registry.Building
import KeywordScope.Registry.Scope
import KeywordScope.Session

/-!
# Composite steps

Languages are declared and removed, and scopes entered and left, by steps on one keyword each. What
these keep, the whole keeps.

* `keeps_registerMember_of`, `keeps_removeDsl_of`: members, from what is known of single entries.
* `keeps_openScope`, `keeps_leaveScope`, `keeps_enterScope`: scopes, from what is known of the
  keywords that are shown.
* `meets_enterScope_of`: a scope is entered or left again, with one condition for each part.
* `keeps_declare_of`: languages are declared, from what is known of their removal and of the
  registration of a grammar.
* `AddingBelow`: the invariant is kept while keywords are registered below others.
* `Build.meets_root`: a root is registered, with all below it.
* `Adding`: the invariant is kept by the steps that register one keyword. If it is kept by the
  removal of languages, too, then by their declaration (`Adding.keeps_declare`).
* `Steady`: the invariant is kept by all steps on one keyword.
* `Steady.keeps_removeDsl`, `Steady.keeps_declare`, …: then it is kept by all composite steps.
-/

namespace KeywordScope

theorem Step.Keeps.locatedIn {τ α : Type} {I : Registry τ → Prop} {action : Registry.Action τ α}
    (h : Keeps I action) (source : String) : Keeps I (Registry.locatedIn source action) := by
  refine Keeps.tryCatch h fun e => ?_
  split <;> exact Keeps.throw _

namespace Registry

open Step

variable {τ : Type} {I : Registry τ → Prop}

theorem keeps_getEntry (id : Keyword.Id) : Keeps I (getEntry id) := by
  refine Keeps.get.bind fun r => ?_
  cases r.find? id with
  | none => exact Keeps.throw _
  | some entry => exact Keeps.pure _

/-- The identity has been given out. -/
def Given (I : Registry τ → Prop) (id : Keyword.Id) (r : Registry τ) : Prop :=
  I r ∧ id.number < r.nextId

/-! ## Members -/

section Members

variable [BindingTable τ]

theorem keeps_registerMember_of (dsl : String) (keyword : Keyword) (parent? : Option Keyword.Id)
    (path : String) (hinsert : ∀ entry : Entry, entry.isMember = true → Keeps I (insert entry)) :
    Keeps I (registerMember dsl keyword parent? path) := by
  refine Keeps.get.bind fun r => ?_
  have hrest : Keeps I (do
      if (r.entryAt? dsl path).isSome then
        throw (.invalidState (.pathTaken path dsl))
      insert
        { keyword
          visible := parent?.isNone && r.scope.isEmpty
          membership? := some { dsl, path, parent? } }
      return keyword) :=
    Keeps.ite (Keeps.throw _) ((hinsert _ rfl).bind fun _ => Keeps.pure _)
  cases parent? with
  | none => exact hrest
  | some parent => exact Keeps.ite hrest (Keeps.throw _)

theorem keeps_forM_unregister (keywords : List Keyword)
    (hunregister : ∀ id, Keeps I (unregister id)) :
    Keeps I (keywords.forM fun keyword => discard (unregister keyword.id)) :=
  Keeps.forM fun keyword => (hunregister keyword.id).discard

theorem keeps_removeDsl_of (dsl : String) (hunregister : ∀ id, Keeps I (unregister id))
    (hrebind : Keeps I rebindStandalones) : Keeps I (removeDsl dsl) :=
  Keeps.get.bind fun r => (keeps_forM_unregister (r.members dsl) hunregister).bind fun _ =>
    Keeps.ite (Keeps.pure _) (hrebind.bind fun _ => Keeps.pure _)

end Members

/-! ## Scopes -/

section Scope

variable [BindingTable τ]

/-- A scope is entered, or left again if that fails. From `outside` the stack is changed to `pushed`
and the members are shown and hidden to `within`. -/
theorem meets_enterScope_of {outside pushed within : Registry τ → Prop} {id : Keyword.Id}
    (hpush : ∀ r, outside r → pushed { r with scope := id :: r.scope })
    (hopen : Meets pushed (openScope id) (fun _ => within) fun _ => within)
    (hleave : Meets within leaveScope (fun _ => outside) fun _ => outside) :
    Meets outside (enterScope id) (fun _ => within) fun _ => outside := by
  refine Meets.bind (keeps_getEntry id) fun entry =>
    Meets.ite (fun _ => ?_) fun _ => Meets.throw fun _ hr => hr
  refine Meets.bind (Meets.modify hpush) fun _ => ?_
  refine Meets.bind (Meets.attempt hopen (R := fun _ => within) (fun _ _ hr => hr)
    fun _ _ hr => hr) fun answer => ?_
  cases answer with
  | ok _ => exact Meets.pure fun _ hr => hr
  | error e =>
    have hback : Meets within (attempt leaveScope) (fun _ => outside) fun _ => outside :=
      hleave.attempt (fun _ _ hr => hr) fun _ _ hr => hr
    exact hback.discard.bind fun _ => Meets.throw fun _ hr => hr

variable (hhide : ∀ id, Keeps I (hide id))

include hhide

theorem keeps_openScope {id : Keyword.Id}
    (hreveal : ∀ r, I r → ∀ child ∈ r.children id, Keeps I (reveal child)) :
    Keeps I (openScope id) := by
  refine Keeps.get.bind fun _ => (Keeps.forM hhide).bind fun _ => ?_
  exact Meets.get_bind fun r hr => (Keeps.forM_of_mem (hreveal r hr)).startingAt hr

theorem keeps_leaveScope
    (hpop : ∀ r id outer, I r → r.scope = id :: outer → I { r with scope := outer })
    (hreveal : ∀ r id outer, I r → r.scope = id :: outer →
      ∀ s, I s → ∀ sibling ∈ s.siblings id, Keeps I (reveal sibling))
    (hrebind : Keeps I rebindStandalones) : Keeps I leaveScope := by
  refine Meets.get_bind fun r hr => ?_
  split
  · exact Meets.throw fun _ hs => hs ▸ hr
  next id outer hscope =>
    have hend : Keeps I (do rebindStandalones; return id : Action τ Keyword.Id) :=
      hrebind.bind fun _ => Keeps.pure _
    have hpopped : Meets (· = r) (modify ({ · with scope := outer }) : Action τ PUnit)
        (fun _ => I) fun _ => I :=
      Meets.modify fun _ hs => hs ▸ hpop r id outer hr hscope
    refine Meets.bind hpopped fun _ => ?_
    refine Keeps.get.bind fun _ => Keeps.ite ?_ hend
    refine Keeps.get.bind fun _ => (Keeps.forM hhide).bind fun _ => ?_
    have hshow : Keeps I (do ((← get).siblings id).forM reveal : Action τ PUnit) :=
      Meets.get_bind fun s hs =>
        (Keeps.forM_of_mem (hreveal r id outer hr hscope s hs)).startingAt hs
    exact hshow.bind fun _ => hend

/-- A scope is entered, or left again if that fails. -/
theorem keeps_enterScope {id : Keyword.Id} (hpush : ∀ r, I r → I { r with scope := id :: r.scope })
    (hreveal : ∀ r, I r → ∀ child ∈ r.children id, Keeps I (reveal child))
    (hleave : Keeps I leaveScope) : Keeps I (enterScope id) :=
  meets_enterScope_of hpush (keeps_openScope hhide hreveal) hleave

end Scope

/-! ## Declaring a language -/

section Declaring

variable [BindingTable τ] {output : OutputConfig} {findType : String → Option HostType}
  {dsl : String} {module? : Option String}

/-- The declaration of an accepted grammar: the language is removed, the grammar is registered, and
if that fails, the language is removed again. -/
theorem meets_declare_of {P Q R E : Registry τ → Prop} {r : Registry τ} {tree : Script.Block}
    {g : Grammar} (hcheck : Grammar.check (r.rules output dsl) findType none tree = .ok g)
    (hremove : Meets (· = r) (removeDsl dsl) (fun _ => P) fun _ => E)
    (hbuild : Meets (fun s => P s.1) (Build.grammar { dsl, module? } none none g)
      (fun _ s => Q s.1) fun _ s => R s.1)
    (hrollback : Meets R (removeDsl dsl) (fun _ => E) fun _ => E) :
    Meets (· = r) (declare output findType dsl tree module?) (fun _ => Q) fun _ => E := by
  refine Meets.get_bind ?_
  rintro _ rfl
  simp only [hcheck]
  refine hremove.discard.bind fun _ => ?_
  refine Meets.bind (R := fun answer s =>
    match answer.1 with
    | .ok _ => Q s
    | .error _ => R s) (fun s hs => ?_) fun answer => ?_
  · have h := hbuild (s, []) hs
    have hrun : (build { dsl, module? } none none g).run s =
        ((((Build.grammar { dsl, module? } none none g).run (s, [])).1.map fun _ => g.propertyList,
          ((Build.grammar { dsl, module? } none none g).run (s, [])).2.2),
            ((Build.grammar { dsl, module? } none none g).run (s, [])).2.1) := rfl
    rw [run_lift, hrun]
    rcases hgrammar : (Build.grammar { dsl, module? } none none g).run (s, []) with ⟨_ | _, _⟩ <;>
      rw [hgrammar] at h <;> exact h
  · rcases answer with ⟨_ | _, _⟩
    · exact (hrollback.attempt (fun _ _ hs => hs) fun _ _ hs => hs).discard.bind fun _ =>
        Meets.throw fun _ hs => hs
    · exact Meets.get.bind fun _ => Meets.pure fun _ hs => hs

/-- What is kept by the removal of a language and by the registration of a proper grammar is kept
by a declaration. -/
theorem keeps_declare_of (hremove : Keeps I (removeDsl dsl))
    (hbuild : ∀ g : Grammar, g.Proper →
      Keeps (fun s => I s.1) (Build.grammar { dsl, module? } none none g))
    (tree : Script.Block) : Keeps I (declare output findType dsl tree module?) := by
  intro r hr
  rcases hcheck : Grammar.check (r.rules output dsl) findType none tree with e | g
  · rw [declare, run_bind_ok (run_get r), hcheck]
    exact hr
  · exact meets_declare_of hcheck (hremove.startingAt hr)
      (hbuild g (Grammar.check_accepted hcheck).1) hremove r rfl

/-- A source is read before anything is declared. -/
theorem keeps_declareSource_of
    (h : ∀ tree, Keeps I (declare output findType dsl tree module?)) (source : String) :
    Keeps I (declareSource output findType dsl source module?) := by
  unfold declareSource
  split
  · exact Keeps.throw _
  · exact (h _).locatedIn source

end Declaring

/-! ## Registering grammars -/

/-- The invariant is kept while keywords are registered below others. -/
structure AddingBelow [BindingTable τ] (I : Registry τ → Prop) : Prop where
  nextId : ∀ r, I r → I { r with nextId := r.nextId + 1 }
  /-- A member is registered with an identity that has been given out. -/
  register : ∀ (dsl : String) (keyword : Keyword) (parent : Keyword.Id) (path : String),
    Meets (Given I keyword.id) (registerMember dsl keyword (some parent) path) (fun _ => I)
      fun _ => I

theorem meets_allocate (hI : ∀ r, I r → I { r with nextId := r.nextId + 1 }) :
    Meets I allocate (Given I) fun _ => I :=
  fun r hr => ⟨hI r hr, Nat.lt_succ_self r.nextId⟩

namespace AddingBelow

variable [BindingTable τ]

mutual

theorem keeps_decl (hI : AddingBelow I) (forest : Forest) (parent : Keyword.Id)
    (parentPath? : Option String) :
    ∀ d : KeywordDecl, Keeps (fun s => I s.1) (Build.decl forest (some parent) parentPath? d)
  | .mk name nameMode body _ => by
    unfold Build.decl
    refine Meets.bind (Build.meets_onRegistry (meets_allocate hI.nextId)) fun id => ?_
    refine Meets.bind Meets.get fun s => ?_
    -- The path may be any text here.
    dsimp only
    generalize (parentPath?.map fun parentPath =>
      parentPath ++ s.1.separator ++ name).getD name = path
    have hregister := hI.register forest.dsl
      { id, name, nameMode, body := body.toBody, module? := forest.module? } parent path
    refine Meets.bind (Meets.discard (Build.meets_onRegistry hregister)) fun _ => ?_
    refine Meets.bind (Meets.modify (R := fun s => I s.1) fun _ hs => hs) fun _ => ?_
    exact keeps_grammar hI forest id (some path) body

theorem keeps_grammar (hI : AddingBelow I) (forest : Forest) (parent : Keyword.Id)
    (parentPath? : Option String) :
    ∀ g : Grammar, Keeps (fun s => I s.1) (Build.grammar forest (some parent) parentPath? g)
  | .keywords ds _ => by
    unfold Build.grammar
    exact keeps_decls hI forest parent parentPath? ds
  | .properties _ _ => by
    unfold Build.grammar
    exact Keeps.pure _

theorem keeps_decls (hI : AddingBelow I) (forest : Forest) (parent : Keyword.Id)
    (parentPath? : Option String) :
    ∀ ds : List KeywordDecl,
      Keeps (fun s => I s.1) (Build.decls forest (some parent) parentPath? ds)
  | [] => by
    unfold Build.decls
    exact Keeps.pure _
  | first :: rest => by
    unfold Build.decls
    exact (keeps_decl hI forest parent parentPath? first).bind fun _ =>
      keeps_decls hI forest parent parentPath? rest

end

end AddingBelow

/-- A root is registered and published; what holds then is kept below it. -/
theorem Build.meets_root [BindingTable τ] {P Q E : Registry τ → Prop} {forest : Forest}
    (parentPath? : Option String) (d : KeywordDecl)
    (hnextId : ∀ r, P r → P { r with nextId := r.nextId + 1 })
    (hregister : ∀ keyword path, keyword.name = d.name →
      Meets (Given P keyword.id) (registerMember forest.dsl keyword none path) (fun _ => Q)
        fun _ => E)
    (hpublish : ∀ module, Meets Q (publish module d.name) (fun _ => Q) fun _ => E)
    (hbelow : AddingBelow Q) (hP : ∀ r, P r → E r) (hQ : ∀ r, Q r → E r) :
    Meets (fun s => P s.1) (Build.decl forest none parentPath? d) (fun _ s => Q s.1)
      fun _ s => E s.1 := by
  obtain ⟨name, nameMode, body, span⟩ := d
  unfold Build.decl
  have hallocate : Meets P allocate (Given P) fun _ => E :=
    (meets_allocate hnextId).conseq (fun _ hr => hr) (fun _ _ hr => hr) fun _ r hr => hP r hr
  refine Meets.bind (Build.meets_onRegistry hallocate) fun id => ?_
  refine Meets.bind Meets.get fun s => ?_
  -- The path may be any text here.
  dsimp only
  generalize (parentPath?.map fun parentPath =>
    parentPath ++ s.1.separator ++ name).getD name = path
  have hgrammar : Meets (fun s => Q s.1) (Build.grammar forest (some id) (some path) body)
      (fun _ s => Q s.1) fun _ s => E s.1 :=
    (hbelow.keeps_grammar forest id (some path) body).conseq (fun _ hs => hs) (fun _ _ hs => hs)
      fun _ s hs => hQ s.1 hs
  refine Meets.bind (Meets.discard (Build.meets_onRegistry (hregister
    { id, name, nameMode, body := body.toBody, module? := forest.module? } path rfl))) fun _ => ?_
  refine Meets.bind (Meets.modify (R := fun s => Q s.1) fun _ hs => hs) fun _ => ?_
  split
  · exact Meets.bind (Build.meets_onRegistry (hpublish _)) fun _ => hgrammar
  · exact hgrammar

/-- The invariant is kept while keywords are registered. -/
structure Adding [BindingTable τ] (I : Registry τ → Prop) : Prop where
  nextId : ∀ r, I r → I { r with nextId := r.nextId + 1 }
  /-- A member is registered with an identity that has been given out. -/
  register : ∀ (dsl : String) (keyword : Keyword) (parent? : Option Keyword.Id) (path : String),
    Meets (Given I keyword.id) (registerMember dsl keyword parent? path) (fun _ => I) fun _ => I
  publish : ∀ module name, Keeps I (publish module name)

namespace Adding

variable [BindingTable τ]

/-- Two invariants are kept at once. -/
theorem and {J : Registry τ → Prop} (hI : Adding I) (hJ : Adding J) :
    Adding fun r => I r ∧ J r where
  nextId r hr := ⟨hI.nextId r hr.1, hJ.nextId r hr.2⟩
  register dsl keyword parent? path :=
    ((hI.register dsl keyword parent? path).and (hJ.register dsl keyword parent? path)).conseq
      (fun _ hr => ⟨⟨hr.1.1, hr.2⟩, hr.1.2, hr.2⟩) (fun _ _ hr => hr) fun _ _ hr => hr
  publish module name := (hI.publish module name).and (hJ.publish module name)

theorem below (hI : Adding I) : AddingBelow I where
  nextId := hI.nextId
  register dsl keyword parent path := hI.register dsl keyword (some parent) path

theorem keeps_decl (hI : Adding I) (forest : Forest) (parent? : Option Keyword.Id)
    (parentPath? : Option String) (d : KeywordDecl) :
    Keeps (fun s => I s.1) (Build.decl forest parent? parentPath? d) := by
  cases parent? with
  | none =>
    exact Build.meets_root parentPath? d hI.nextId
      (fun keyword path _ => hI.register forest.dsl keyword none path)
      (fun module => hI.publish module d.name) hI.below (fun _ hr => hr) fun _ hr => hr
  | some parent => exact hI.below.keeps_decl forest parent parentPath? d

theorem keeps_decls (hI : Adding I) (forest : Forest) (parent? : Option Keyword.Id)
    (parentPath? : Option String) (ds : List KeywordDecl) :
    Keeps (fun s => I s.1) (Build.decls forest parent? parentPath? ds) := by
  induction ds with
  | nil =>
    unfold Build.decls
    exact Keeps.pure _
  | cons first rest ih =>
    unfold Build.decls
    exact (hI.keeps_decl forest parent? parentPath? first).bind fun _ => ih

theorem keeps_grammar (hI : Adding I) (forest : Forest) (parent? : Option Keyword.Id)
    (parentPath? : Option String) (g : Grammar) :
    Keeps (fun s => I s.1) (Build.grammar forest parent? parentPath? g) := by
  unfold Build.grammar
  cases g with
  | keywords ds _ => exact hI.keeps_decls forest parent? parentPath? ds
  | properties _ _ => exact Keeps.pure _

theorem keeps_declare (hI : Adding I) (hremove : ∀ dsl, Keeps I (removeDsl dsl))
    (output : OutputConfig) (findType : String → Option HostType) (dsl : String)
    (tree : Script.Block) (module? : Option String) :
    Keeps I (declare output findType dsl tree module?) :=
  keeps_declare_of (hremove dsl) (fun g _ => hI.keeps_grammar { dsl, module? } none none g) tree

theorem keeps_declareSource (hI : Adding I) (hremove : ∀ dsl, Keeps I (removeDsl dsl))
    (output : OutputConfig) (findType : String → Option HostType) (dsl source : String)
    (module? : Option String) : Keeps I (declareSource output findType dsl source module?) :=
  keeps_declareSource_of (hI.keeps_declare hremove output findType dsl · module?) source

end Adding

/-! ## Steady invariants -/

/-- The invariant is kept by the steps on one keyword. -/
structure Steady [BindingTable τ] (I : Registry τ → Prop) : Prop extends Adding I where
  unregister : ∀ id, Keeps I (unregister id)
  rebind : Keeps I rebindStandalones
  reveal : ∀ id, Keeps I (reveal id)
  hide : ∀ id, Keeps I (hide id)

namespace Steady

variable [BindingTable τ]

theorem keeps_removeDsl (hI : Steady I) (dsl : String) : Keeps I (removeDsl dsl) :=
  keeps_removeDsl_of dsl hI.unregister hI.rebind

theorem keeps_removeStandalone (hI : Steady I) (name : String) :
    Keeps I (removeStandalone name) := by
  refine Keeps.get.bind fun r => ?_
  cases r.standalone? name with
  | none => exact Keeps.pure _
  | some keyword => exact (hI.unregister keyword.id).discard.bind fun _ => Keeps.pure _

theorem keeps_declare (hI : Steady I) (output : OutputConfig)
    (findType : String → Option HostType) (dsl : String) (tree : Script.Block)
    (module? : Option String) : Keeps I (declare output findType dsl tree module?) :=
  hI.toAdding.keeps_declare hI.keeps_removeDsl output findType dsl tree module?

theorem keeps_declareSource (hI : Steady I) (output : OutputConfig)
    (findType : String → Option HostType) (dsl source : String) (module? : Option String) :
    Keeps I (declareSource output findType dsl source module?) :=
  hI.toAdding.keeps_declareSource hI.keeps_removeDsl output findType dsl source module?

/-! ### Entering and leaving -/

theorem keeps_leaveScope (hI : Steady I) (hscope : ∀ r scope, I r → I { r with scope }) :
    Keeps I leaveScope :=
  Registry.keeps_leaveScope hI.hide (fun r _ outer hr _ => hscope r outer hr)
    (fun _ _ _ _ _ _ _ sibling _ => hI.reveal sibling) hI.rebind

theorem keeps_openScope (hI : Steady I) (id : Keyword.Id) : Keeps I (openScope id) :=
  Registry.keeps_openScope hI.hide fun _ _ child _ => hI.reveal child

theorem keeps_enterScope (hI : Steady I) (hscope : ∀ r scope, I r → I { r with scope })
    (id : Keyword.Id) : Keeps I (enterScope id) :=
  Registry.keeps_enterScope hI.hide (fun r hr => hscope r _ hr) (fun _ _ child _ => hI.reveal child)
    (hI.keeps_leaveScope hscope)

end Steady

end Registry
end KeywordScope
