import KeywordScope.Proofs.Registry.Lasting
import KeywordScope.Proofs.Registry.Runs

/-!
# Roots and the table

While a grammar is registered, the table changes only for its roots: the names of these are bound,
if no scope is entered, and published. Below a root nothing is bound.

* `Tabular`: the condition is one on the table, the command and the scope stack.
* `ByRoots`: the condition goes along with the roots that have been registered so far.
* `ByRoots.meets_language`: what holds once all roots are registered, or some of them.
-/

namespace KeywordScope
namespace Registry

open Step

variable {τ : Type}

/-- The condition does not depend on the keywords. -/
def Tabular (I : Registry τ → Prop) : Prop :=
  ∀ r entries nextId, I r → I { r with entries, nextId }

section Partly

variable {J : List String → Registry τ → Prop} {names : List String} {r : Registry τ}

/-- What holds if the registration of roots of these names is given up on the way. -/
def Partly (J : List String → Registry τ → Prop) (names : List String) (r : Registry τ) : Prop :=
  ∃ done, done <+: names ∧ J done r

theorem Partly.all (h : J names r) : Partly J names r :=
  ⟨names, List.prefix_rfl, h⟩

theorem Partly.append (h : Partly J names r) (more : List String) :
    Partly J (names ++ more) r := by
  obtain ⟨done, hprefix, hdone⟩ := h
  exact ⟨done, hprefix.trans (List.prefix_append names more), hdone⟩

end Partly

variable [BindingTable τ]

section Hidden

variable {I : Registry τ → Prop} (hI : Tabular I)

include hI

/-- Nothing is bound for a hidden keyword. -/
theorem keeps_insert_hidden {entry : Entry} (h : entry.visible = false) :
    Keeps I (insert entry) := by
  have hadd : Keeps I (modify fun registry =>
      { registry with entries := registry.entries ++ [entry] } : Action τ PUnit) :=
    Keeps.modify fun r hr => hI r _ _ hr
  refine Keeps.get.bind fun r => Keeps.ite (Keeps.throw _) ?_
  simp only [h, Bool.false_eq_true, ↓reduceIte]
  exact hadd

theorem Tabular.below : AddingBelow I where
  nextId r hr := hI r _ _ hr
  register dsl keyword parent path := by
    have hkeeps : Keeps I (registerMember dsl keyword (some parent) path) :=
      Keeps.get.bind fun _ => Keeps.ite (Keeps.ite (Keeps.throw _)
        ((keeps_insert_hidden hI rfl).bind fun _ => Keeps.pure _)) (Keeps.throw _)
    exact hkeeps.conseq (fun _ hr => hr.1) (fun _ _ hr => hr) fun _ _ hr => hr

end Hidden

/-- What holds once roots of these names have been registered. -/
structure ByRoots (J : List String → Registry τ → Prop) : Prop where
  tabular : ∀ done, Tabular (J done)
  publish : ∀ done r module name, J done r →
    J done (r.withBindings (BindingTable.publish r.bindings module name).2)
  /-- The name of the next root is bound. -/
  bind : ∀ done r keyword, J done r → r.scope = [] → (r.bindName keyword).1 = .ok () →
    J (done ++ [keyword.name]) (r.withBindings (r.bindName keyword).2)
  refused : ∀ done r keyword, J done r → (r.bindName keyword).1 ≠ .ok () →
    J done (r.withBindings (r.bindName keyword).2)
  /-- The next root is hidden. -/
  hidden : ∀ done r name, J done r → r.scope ≠ [] → J (done ++ [name]) r

namespace ByRoots

variable {J : List String → Registry τ → Prop} (hJ : ByRoots J)

include hJ

theorem meets_insert {done : List String} {r : Registry τ} (hr : J done r) {entry : Entry}
    (hv : entry.visible = r.scope.isEmpty) :
    Meets (· = r) (insert entry) (fun _ => J (done ++ [entry.keyword.name]))
      fun _ => Partly J (done ++ [entry.keyword.name]) := by
  have hdone : ∀ s, J done s → Partly J (done ++ [entry.keyword.name]) s :=
    fun _ hs => (Partly.all hs).append _
  refine Meets.get_bind fun s hs => Meets.ite (fun _ => Meets.throw ?_) fun _ => ?_
  · rintro _ rfl
    exact hdone _ (hs ▸ hr)
  obtain rfl : r = s := hs.symm
  have hadd : Meets (J (done ++ [entry.keyword.name])) (modify fun registry =>
      { registry with entries := registry.entries ++ [entry] } : Action τ PUnit)
      (fun _ => J (done ++ [entry.keyword.name]))
      fun _ => Partly J (done ++ [entry.keyword.name]) :=
    Meets.modify fun s hs => hJ.tabular _ s _ _ hs
  by_cases hscope : r.scope = []
  · have hbind : Meets (· = r) (bindKeyword entry.keyword)
        (fun _ => J (done ++ [entry.keyword.name]))
        fun _ => Partly J (done ++ [entry.keyword.name]) := by
      intro s hs
      rw [hs, run_bindKeyword]
      cases hok : (r.bindName entry.keyword).1 with
      | ok => exact hJ.bind done r entry.keyword hr hscope hok
      | error e => exact hdone _ (hJ.refused done r entry.keyword hr (by simp [hok]))
    simp only [hv, hscope, List.isEmpty_nil, ↓reduceIte]
    exact hbind.bind fun _ => hadd
  · have hhidden : r.scope.isEmpty = false := by simpa using hscope
    simp only [hv, hhidden, Bool.false_eq_true, ↓reduceIte]
    exact hadd.conseq (fun s hs => hs ▸ hJ.hidden done r entry.keyword.name hr hscope)
      (fun _ _ hs => hs) fun _ _ hs => hs

theorem meets_registerMember (done : List String) (dsl : String) (keyword : Keyword)
    (path : String) :
    Meets (J done) (registerMember dsl keyword none path) (fun _ => J (done ++ [keyword.name]))
      fun _ => Partly J (done ++ [keyword.name]) := by
  refine Meets.get_bind fun r hr => Meets.ite (fun _ => Meets.throw ?_) fun _ => ?_
  · rintro _ rfl
    exact (Partly.all hr).append _
  · exact (hJ.meets_insert hr (Bool.true_and _)).bind fun _ => Meets.pure fun _ hs => hs

theorem keeps_publish (done : List String) (module name : String) :
    Keeps (J done) (Registry.publish (τ := τ) module name) :=
  Keeps.of_run fun r hr => by
    rw [Registry.publish, run_changeBindings]
    exact hJ.publish done r module name hr

theorem meets_decls (forest : Forest) (parentPath? : Option String) (ds : List KeywordDecl)
    (done : List String) :
    Meets (fun s => J done s.1) (Build.decls forest none parentPath? ds)
      (fun _ s => J (done ++ ds.map (·.name)) s.1)
      fun _ s => Partly J (done ++ ds.map (·.name)) s.1 := by
  induction ds generalizing done with
  | nil =>
    unfold Build.decls
    exact Meets.pure fun s hs => by rwa [List.map_nil, List.append_nil]
  | cons first rest ih =>
    have hnames : done ++ (first :: rest).map (·.name) =
        (done ++ [first.name]) ++ rest.map (·.name) := by simp
    have hfirst : Meets (fun s => J done s.1) (Build.decl forest none parentPath? first)
        (fun _ s => J (done ++ [first.name]) s.1)
        fun _ s => Partly J (done ++ [first.name]) s.1 := by
      refine Build.meets_root parentPath? first (fun r hr => hJ.tabular done r _ _ hr)
        (fun keyword path hname => ?_) (fun module => ?_) (hJ.tabular _).below
        (fun _ hr => (Partly.all hr).append _) fun _ hr => .all hr
      · rw [← hname]
        exact (hJ.meets_registerMember done forest.dsl keyword path).conseq (fun _ hr => hr.1)
          (fun _ _ hr => hr) fun _ _ hr => hr
      · exact (hJ.keeps_publish _ module first.name).conseq (fun _ hr => hr) (fun _ _ hr => hr)
          fun _ _ hr => .all hr
    unfold Build.decls
    rw [hnames]
    exact (hfirst.conseq (fun _ hs => hs) (fun _ _ hs => hs) fun _ _ hs => hs.append _).bind
      fun _ => ih (done ++ [first.name])

/-- All roots of a grammar are registered, or some of them. -/
theorem meets_language (forest : Forest) (g : Grammar) :
    Meets (fun s => J [] s.1) (Build.grammar forest none none g)
      (fun _ s => J (g.keywordDecls.map (·.name)) s.1)
      fun _ s => Partly J (g.keywordDecls.map (·.name)) s.1 := by
  unfold Build.grammar
  cases g with
  | keywords ds _ => exact hJ.meets_decls forest none ds []
  | properties _ _ => exact Meets.pure fun _ hs => hs

end ByRoots

end Registry
end KeywordScope
