import KeywordScope.Proofs.Scope.Registration
import KeywordScope.Proofs.Scope.Runs
import Mathlib.Logic.Relation

/-!
# Scopes are entered and left like a stack

Scopes of several languages may interleave. Whatever is entered and left, the entered members of
each language are a path from one of its roots downwards, and of its members just those are visible
that stand right below the end of that path.

* `Registry.Reached`: the registries that come about if languages are declared and removed while no
  scope is entered, and visible members only are entered.
* `ScopeStep`: entering a visible member, or leaving the innermost one.
* `Reached.nested`: the entries of these registries are nested.
* `scopes_nested`: what holds at every point of a run of such steps.
-/

namespace KeywordScope
namespace Registry

open Step

variable {τ : Type}

variable [BindingTable τ]

/-- A visible member is entered, or the innermost scope is left. -/
inductive ScopeStep : Registry τ → Registry τ → Prop where
  | enter (r : Registry τ) (id : Keyword.Id) (hm : r.isMember id = true)
      (hv : r.isVisible id = true) : ScopeStep r ((enterScope id).run r).2
  | leave (r : Registry τ) (hs : r.scope ≠ []) : ScopeStep r (leaveScope.run r).2

/-- The registries that come about if languages are declared and removed while no scope is entered,
and visible members only are entered. A step counts whether it succeeds or not. -/
inductive Reached : Registry τ → Prop where
  | empty (config : Config) (bindings : τ) : Reached (.ofConfig config bindings)
  | declare {r : Registry τ} (h : Reached r) (hs : r.scope = []) (output : OutputConfig)
      (findType : String → Option HostType) (dsl : String) (tree : Script.Block)
      (module? : Option String) : Reached ((declare output findType dsl tree module?).run r).2
  | declareSource {r : Registry τ} (h : Reached r) (hs : r.scope = []) (output : OutputConfig)
      (findType : String → Option HostType) (dsl source : String) (module? : Option String) :
      Reached ((declareSource output findType dsl source module?).run r).2
  | removeDsl {r : Registry τ} (h : Reached r) (hs : r.scope = []) (dsl : String) :
      Reached ((removeDsl dsl).run r).2
  | allocate {r : Registry τ} (h : Reached r) : Reached (allocate.run r).2
  | registerStandalone {r : Registry τ} (h : Reached r) (keyword : Keyword) :
      Reached ((registerStandalone keyword).run r).2
  | removeStandalone {r : Registry τ} (h : Reached r) (name : String) :
      Reached ((removeStandalone name).run r).2
  | subscribe {r : Registry τ} (h : Reached r) (dsl path : String) (event : Event)
      (handler : ScriptBlock) : Reached ((Session.subscribe dsl path event handler).run r).2
  /-- The host may change the bindings at any time. -/
  | rebind {r : Registry τ} (h : Reached r) (bindings : τ) : Reached (r.withBindings bindings)
  | scope {r r' : Registry τ} (h : Reached r) (hstep : ScopeStep r r') : Reached r'

variable [BindingTable.Lenient τ] {r r' : Registry τ}

/-- A step keeps what is nested, and registers and removes nothing. -/
theorem Nested.scopeStep (hn : r.Nested) (h : ScopeStep r r') :
    r'.Nested ∧ r'.outline = r.outline := by
  cases h with
  | enter id hm hv =>
    obtain ⟨entry, he, rfl, own, hown⟩ := mem_of_isMember hm
    have hvis : entry.visible = true := (hn.distinct.isVisible_eq he).symm.trans hv
    rw [hn.run_enterScope he hown hvis]
    refine ⟨bindingFree_nested _ _ (hn.enter he hown hvis), ?_⟩
    exact outline_showBelow own.dsl (some entry.id)
  | leave hs =>
    obtain ⟨id, outer, hscope⟩ := List.exists_cons_of_ne_nil hs
    obtain ⟨entry, he, rfl, own, hown⟩ := hn.innermost hscope
    obtain ⟨t, hr⟩ := hn.run_leaveScope he hown hscope
    rw [hr]
    refine ⟨bindingFree_nested _ t (hn.leave he hown hscope), ?_⟩
    exact outline_showBelow own.dsl entry.parent?

theorem Reached.nested (h : r.Reached) : r.Nested := by
  induction h with
  | empty config bindings => exact (settled_ofConfig config bindings).nested
  | declare _ hs output findType dsl tree module? ih =>
    exact ((keeps_declare output findType dsl tree module?).run (ih.settled hs)).nested
  | declareSource _ hs output findType dsl source module? ih =>
    exact ((keeps_declareSource output findType dsl source module?).run (ih.settled hs)).nested
  | removeDsl _ hs dsl ih => exact ((keeps_removeDsl dsl).run (ih.settled hs)).nested
  | allocate _ ih => exact keeps_allocate.run ih
  | registerStandalone _ keyword ih => exact (keeps_registerStandalone keyword).run ih
  | removeStandalone _ name ih => exact (keeps_removeStandalone name).run ih
  | subscribe _ dsl path event handler ih =>
    exact (keeps_subscribe dsl path event handler).run ih
  | rebind _ bindings ih => exact bindingFree_nested _ bindings ih
  | scope _ hstep ih => exact (ih.scopeStep hstep).1

/-- A run of steps keeps what is nested, and registers and removes nothing. -/
theorem Nested.scopeSteps (hn : r.Nested) (run : Relation.ReflTransGen ScopeStep r r') :
    r'.Nested ∧ r'.outline = r.outline := by
  induction run with
  | refl => exact ⟨hn, rfl⟩
  | tail _ hstep ih =>
    obtain ⟨hn', ho⟩ := ih.1.scopeStep hstep
    exact ⟨hn', ho.trans ih.2⟩

/-- At every point of a run of steps, the entered members of a language are a path from a root
downwards, without repetition, and its visible members are those right below the end of the path,
or the roots. Standalone keywords are visible. Once no scope is entered again, the same keywords are
visible as at the start. -/
theorem scopes_nested (h : r.Reached) (hs : r.scope = [])
    (run : Relation.ReflTransGen ScopeStep r r') :
    (∀ dsl, r'.IsPath (r'.enteredIn dsl) ∧ (r'.enteredIn dsl).Nodup ∧
      r'.idsWhere (fun entry => entry.isIn dsl && entry.visible) =
        match (r'.enteredIn dsl).head? with
        | none => (r'.roots dsl).map Keyword.id
        | some id => r'.children id) ∧
    (∀ entry ∈ r'.entries, entry.isMember = false → entry.visible = true) ∧
    (r'.scope = [] → r'.visibility = r.visibility) := by
  obtain ⟨hn, ho⟩ := h.nested.scopeSteps run
  refine ⟨fun dsl => ⟨hn.path dsl, hn.nodup_enteredIn dsl, hn.visible_eq dsl⟩,
    hn.standalone_visible, ?_⟩
  intro hs'
  exact (hn.settled hs').visibility_congr (h.nested.settled hs) ho

/-- The script `Site \x7b Page \x7b string Title } Feed \x7b string Title } }`. -/
def sampleTree : Script.Block :=
  let word (text : String) : Script.Element := .bareword text ⟨0, 0⟩
  let block (statements : List Script.Statement) : Script.Block :=
    .mk none none (.mk .finish true statements ⟨0, 0⟩) "" ⟨0, 0⟩
  let command (elements : List Script.Element) : Script.Statement :=
    .pipeline [.command elements ⟨0, 0⟩] ⟨0, 0⟩
  let titled : Script.Block := block [command [word "string", word "Title"]]
  block [command [word "Site", .script <| block
    [command [word "Page", .script titled], command [word "Feed", .script titled]]]]

/-- The registry with this language only. -/
def sample : Registry LayeredTable :=
  ((declare {} (fun token => some ⟨token⟩) "web" sampleTree none).run (.ofConfig {} {})).2

theorem sample_reached : sample.Reached :=
  (Reached.empty {} ({} : LayeredTable)).declare rfl {} (fun token => some ⟨token⟩) "web" sampleTree
    none

/-- The registry once the root of this language is entered. -/
def sampleEntered : Registry LayeredTable :=
  ((enterScope ⟨1⟩).run sample).2

theorem scopes_nested_sample :
    sample.Reached ∧ sample.scope = [] ∧ Relation.ReflTransGen ScopeStep sample sampleEntered ∧
      sampleEntered.enteredIn "web" = [⟨1⟩] ∧ sampleEntered.IsPath [⟨1⟩] ∧
      sampleEntered.idsWhere (fun entry => entry.isIn "web" && entry.visible) =
        sampleEntered.children ⟨1⟩ := by
  have hs : sample.scope = [] := by decide +kernel
  have hrun : Relation.ReflTransGen ScopeStep sample sampleEntered :=
    .single (.enter sample ⟨1⟩ (by decide +kernel) (by decide +kernel))
  have hentered : sampleEntered.enteredIn "web" = [⟨1⟩] := by decide +kernel
  obtain ⟨hpath, -, hvisible⟩ := (scopes_nested sample_reached hs hrun).1 "web"
  rw [hentered] at hpath hvisible
  exact ⟨sample_reached, hs, hrun, hentered, hpath, hvisible⟩

end Registry
end KeywordScope
