import KeywordScope.Proofs.Grammar.Proper
import KeywordScope.Proofs.Registry.Lasting

/-!
# Growing languages

The keywords of a grammar are registered on the way down and back up. What holds on the way depends
on the keywords that stand above the next one.

* `Way`: the keywords above, with their paths.
* `Grows`: the invariant of the ways is kept if one more keyword is registered.
* `Grows.keeps_grammar`: then it is kept by the registration of a grammar.
* `Grows.keeps_declare`: and by the declaration of a language, if removing one keeps it, too.
-/

namespace KeywordScope
namespace Registry

open Step

variable {τ : Type}

/-- The keywords above, the innermost one first, with their paths. -/
abbrev Way := List (Keyword.Id × String)

namespace Way

/-- The keyword right above. -/
def parent? (way : Way) : Option Keyword.Id :=
  way.head?.map (·.1)

/-- The path of the keyword right above. -/
def parentPath? (way : Way) : Option String :=
  way.head?.map (·.2)

/-- The path of a keyword below. -/
def path (way : Way) (separator name : String) : String :=
  (way.parentPath?.map fun parentPath => parentPath ++ separator ++ name).getD name

end Way

/-- The entry of a member that is registered at the end of a way. -/
def nextEntry (r : Registry τ) (dsl : String) (way : Way) (keyword : Keyword) : Entry :=
  (memberEntry dsl keyword way.parent? (way.path r.separator keyword.name)).withVisible
    (way.parent?.isNone && r.scope.isEmpty)

/-- The invariant is kept while a language grows. -/
structure Grows (dsl : String) (I : Way → Registry τ → Prop) : Prop where
  bindings : ∀ way, BindingFree (I way)
  /-- What holds below a keyword holds next to it. -/
  up : ∀ place way r, I (place :: way) r → I way r
  nextId : ∀ way r, I way r → I way { r with nextId := r.nextId + 1 }
  /-- The next keyword has the next identity, and a path that is free. -/
  add : ∀ (way : Way) (keyword : Keyword) r, I way r → keyword.id = ⟨r.nextId⟩ →
    isKeywordName keyword.name = true → r.find? keyword.id = none →
    (∀ parent, way.parent? = some parent → r.isMember parent = true) →
    r.entryAt? dsl (way.path r.separator keyword.name) = none →
    I ((keyword.id, way.path r.separator keyword.name) :: way)
      (concat { r with nextId := r.nextId + 1 } (r.nextEntry dsl way keyword))

namespace Grows

/-- Two invariants are kept at once. -/
theorem and {dsl : String} {I J : Way → Registry τ → Prop} (hI : Grows dsl I) (hJ : Grows dsl J) :
    Grows dsl fun way r => I way r ∧ J way r where
  bindings way r bindings hr := ⟨hI.bindings way r bindings hr.1, hJ.bindings way r bindings hr.2⟩
  up place way r hr := ⟨hI.up place way r hr.1, hJ.up place way r hr.2⟩
  nextId way r hr := ⟨hI.nextId way r hr.1, hJ.nextId way r hr.2⟩
  add way keyword r hr hid hname hfresh hparent hfree :=
    ⟨hI.add way keyword r hr.1 hid hname hfresh hparent hfree,
      hJ.add way keyword r hr.2 hid hname hfresh hparent hfree⟩

variable [BindingTable τ] {forest : Forest} {I : Way → Registry τ → Prop}

/-- The next keyword is registered, or nothing but the bindings changes. -/
theorem meets_registerMember (hI : Grows forest.dsl I) {way : Way} {r : Registry τ}
    (hr : I way r) (keyword : Keyword)
    (hid : keyword.id = ⟨r.nextId⟩) (hname : isKeywordName keyword.name = true) :
    Meets (· = { r with nextId := r.nextId + 1 })
      (registerMember forest.dsl keyword way.parent? (way.path r.separator keyword.name))
      (fun _ => I ((keyword.id, way.path r.separator keyword.name) :: way)) fun _ => I way := by
  refine Meets.conseq (Registry.meets_registerMember
    (bindingFree_withBindings { r with nextId := r.nextId + 1 }) forest.dsl keyword way.parent?
      (way.path r.separator keyword.name)) ?_ ?_ ?_
  · rintro _ rfl
    exact ⟨r.bindings, rfl⟩
  · rintro _ _ ⟨_, ⟨t, rfl⟩, hfresh, hparent, hfree, rfl⟩
    exact hI.add way keyword (r.withBindings t) (hI.bindings way r t hr) hid hname hfresh hparent
      hfree
  · rintro _ _ ⟨t, rfl⟩
    exact hI.bindings way _ t (hI.nextId way r hr)

mutual

theorem keeps_decl (hI : Grows forest.dsl I) (way : Way) :
    ∀ d : KeywordDecl, d.Proper → Keeps (fun s : Registry τ × List Keyword.Id => I way s.1)
      (Build.decl forest way.parent? way.parentPath? d)
  | .mk name nameMode body _, ⟨hname, _, hbody⟩ => by
    unfold Build.decl
    have hallocate : Meets (I way) allocate
        (fun id s => ∃ r, I way r ∧ id = ⟨r.nextId⟩ ∧ s = { r with nextId := r.nextId + 1 })
        fun _ => I way :=
      fun r hr => ⟨r, hr, rfl, rfl⟩
    refine (Build.meets_onRegistry hallocate).bind fun id => Meets.get_bind ?_
    rintro ⟨_, registered⟩ ⟨r, hr, rfl, rfl⟩
    -- From here on the keyword and its path are known.
    let keyword : Keyword :=
      { id := ⟨r.nextId⟩, name, nameMode, body := body.toBody, module? := forest.module? }
    let place : Keyword.Id × String := (keyword.id, way.path r.separator name)
    have hregister : Meets (· = ({ r with nextId := r.nextId + 1 }, registered))
        (Build.onRegistry (registerMember forest.dsl keyword way.parent?
          (way.path r.separator name)))
        (fun _ s => I (place :: way) s.1) fun _ s => I way s.1 :=
      (Build.meets_onRegistry (hI.meets_registerMember hr keyword rfl hname)).conseq
        (fun _ hs => congrArg Prod.fst hs) (fun _ _ hs => hs) fun _ _ hs => hs
    have hbelow : Meets (fun s : Registry τ × List Keyword.Id => I (place :: way) s.1)
        (Build.grammar forest (some keyword.id) (some place.2) body) (fun _ s => I way s.1)
        fun _ s => I way s.1 :=
      (keeps_grammar hI (place :: way) body hbody).conseq (fun _ hs => hs)
        (fun _ s hs => hI.up place way s.1 hs) fun _ s hs => hI.up place way s.1 hs
    have hpublish : ∀ module, Meets (fun s : Registry τ × List Keyword.Id => I (place :: way) s.1)
        (Build.onRegistry (publish module name)) (fun _ s => I (place :: way) s.1)
        fun _ s => I way s.1 := fun module =>
      (Build.meets_onRegistry (keeps_publish (hI.bindings (place :: way)) module name)).conseq
        (fun _ hs => hs) (fun _ _ hs => hs) fun _ s hs => hI.up place way s.1 hs
    refine hregister.discard.bind fun _ => ?_
    refine Meets.bind (Meets.modify (R := fun s => I (place :: way) s.1) fun _ hs => hs) fun _ => ?_
    split
    · exact (hpublish _).bind fun _ => hbelow
    · exact hbelow

theorem keeps_grammar (hI : Grows forest.dsl I) (way : Way) :
    ∀ g : Grammar, g.Proper → Keeps (fun s : Registry τ × List Keyword.Id => I way s.1)
      (Build.grammar forest way.parent? way.parentPath? g)
  | .keywords ds _, h => by
    unfold Build.grammar
    exact keeps_decls hI way ds h
  | .properties _ _, _ => by
    unfold Build.grammar
    exact Keeps.pure _

theorem keeps_decls (hI : Grows forest.dsl I) (way : Way) :
    ∀ ds : List KeywordDecl, Grammar.AllProper ds →
      Keeps (fun s : Registry τ × List Keyword.Id => I way s.1)
        (Build.decls forest way.parent? way.parentPath? ds)
  | [], _ => by
    unfold Build.decls
    exact Keeps.pure _
  | first :: rest, ⟨hfirst, _, hrest⟩ => by
    unfold Build.decls
    exact (keeps_decl hI way first hfirst).bind fun _ => keeps_decls hI way rest hrest

end

theorem keeps_declare {dsl : String} (hI : Grows dsl I) (hremove : Keeps (I []) (removeDsl dsl))
    (output : OutputConfig) (findType : String → Option HostType) (tree : Script.Block)
    (module? : Option String) : Keeps (I []) (declare output findType dsl tree module?) := by
  have hforest : Grows ({ dsl, module? } : Forest).dsl I := hI
  exact keeps_declare_of hremove (fun g hg => hforest.keeps_grammar [] g hg) tree

end Grows
end Registry
end KeywordScope
