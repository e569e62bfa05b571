import KeywordScope.Proofs.Declaration.Atomic
import KeywordScope.Proofs.Declaration.Tandem
import KeywordScope.Proofs.Grammar.Conflicts
import KeywordScope.Proofs.Registry.Tidy

/-!
# Verdicts do not depend on each other

Languages that are declared one after the other in one registry have the outcomes that each of them
has alone, whatever their order, and though they may replace each other or fail.

* `Rules.Same.check_eq`: a check depends on the bindings only through the names that are bound
  to other commands.
* `Registry.Serving`: what a registry is like while languages are declared in it and nothing else
  happens. Each declaration keeps it, also one that fails (`Serving.keeps_declareSource`).
* `Serving.outcome_eq`: a declaration in such a registry has the outcome that it has in a fresh one.
* `Registry.declareEach_independent`: the same for any languages one after the other.
-/

namespace KeywordScope

open Script Step

/-! ## Checks with other bindings -/

/-- The same names are bound to other commands, and all else is the same. -/
structure Rules.Same (rules rules' : Rules) : Prop where
  dsl : rules'.dsl = rules.dsl
  reserved : rules'.reserved = rules.reserved
  conflict : ∀ name,
    ((rules'.lookup name).any fun binding => !binding.pointsTo rules'.dispatcher) =
      (rules.lookup name).any fun binding => !binding.pointsTo rules.dispatcher

theorem Rules.Same.check_eq {rules rules' : Rules} (h : rules.Same rules')
    (findType : String → Option HostType) (parent? : Option String) (block : Block) :
    Grammar.check rules' findType parent? block = Grammar.check rules findType parent? block :=
  Agree.check_eq ⟨h.dsl, h.reserved, fun _ => h.conflict⟩ findType block

/-! ## Identities aside -/

/-- The keyword with an identity that is never given out. -/
def Keyword.anonymous (keyword : Keyword) : Keyword :=
  { keyword with id := ⟨0⟩ }

theorem Property.Like.eq_of_exact {property property' : Property}
    (h : property.Like .exact property') : property' = property := by
  obtain ⟨_, _, _⟩ := property
  obtain ⟨_, _, _⟩ := property'
  obtain ⟨rfl, rfl, rfl⟩ := h
  rfl

theorem Keyword.Body.Like.eq_of_exact {body body' : Keyword.Body} (h : body.Like .exact body') :
    body' = body := by
  cases h with
  | map h =>
    have hsame := h.imp fun _ _ hproperty => hproperty.eq_of_exact.symm
    rw [List.forall₂_eq_eq_eq] at hsame
    rw [hsame]
  | executable => rfl

theorem Keyword.Like.anonymous_eq {shift : Nat} {keyword keyword' : Keyword}
    (h : keyword.Like .exact shift keyword') : keyword'.anonymous = keyword.anonymous := by
  obtain ⟨_, _, _, _, _⟩ := keyword
  obtain ⟨_, _, _, _, _⟩ := keyword'
  obtain ⟨-, rfl, rfl, hbody, rfl⟩ := h
  obtain rfl := hbody.eq_of_exact
  rfl

theorem Keyword.anonymous_all {shift : Nat} {roots roots' : List Keyword}
    (h : List.Forall₂ (Keyword.Like .exact shift) roots roots') :
    roots'.map anonymous = roots.map anonymous := by
  have hsame : List.Forall₂ Eq (roots'.map anonymous) (roots.map anonymous) := by
    rw [List.forall₂_map_left_iff, List.forall₂_map_right_iff]
    exact (h.imp fun _ _ hroot => hroot.anonymous_eq).flip
  rwa [List.forall₂_eq_eq_eq] at hsame

namespace Registry

/-- A language that is declared in a fresh registry, and in another one. -/
def Tandem.fresh {τ : Type} (r : Registry τ) (dsl : String) : Tandem where
  spelling := .exact
  shift := r.nextId - 1
  forest := { dsl }
  forest' := { dsl }
  dsl := rfl
  module? := rfl
  base := []
  base' := (r.without (·.isIn dsl)).entries
  lacks := nofun
  lacks' _ he := (mem_without.1 he).2

variable {τ : Type} [BindingTable τ]

/-- Nothing has happened in the registry but declarations of languages. -/
structure Serving [BindingTable.Stacked τ] (config : Config) (r : Registry τ) : Prop where
  issued : r.Issued
  tidy : r.Tidy
  scope_nil : r.scope = []
  separator_eq : r.separator = config.grammar.pathSeparator
  one_le_nextId : 1 ≤ r.nextId

namespace Serving

variable [BindingTable.Stacked τ] {config : Config} {r : Registry τ}

theorem parts : r.Serving config ↔ (r.Issued ∧ r.Tidy) ∧
    r.scope = [] ∧ r.separator = config.grammar.pathSeparator ∧ 1 ≤ r.nextId :=
  ⟨fun h => ⟨⟨h.issued, h.tidy⟩, h.scope_nil, h.separator_eq, h.one_le_nextId⟩,
    fun h => ⟨h.1.1, h.1.2, h.2.1, h.2.2.1, h.2.2.2⟩⟩

theorem ofConfig (config : Config) {bindings : τ}
    (hempty : ∀ name, BindingTable.lookup bindings name = none) :
    Serving config (.ofConfig config bindings) :=
  ⟨(Built.empty config bindings).issued, (OwnsTable.empty config hempty).tidy, rfl, rfl,
    Nat.le_refl 1⟩

/-- A declaration goes on with such a registry, whether it succeeds or not. -/
theorem keeps_declareSource (config : Config) (output : OutputConfig)
    (findType : String → Option HostType) (dsl source : String) (module? : Option String) :
    Keeps (Serving (τ := τ) config) (declareSource output findType dsl source module?) := by
  have hplain : Lasting (τ := τ) fun r =>
      r.scope = [] ∧ r.separator = config.grammar.pathSeparator ∧ 1 ≤ r.nextId :=
    { bindings := fun _ _ h => h
      entries := fun _ _ _ h => h
      without := fun _ _ h => h
      nextId := fun _ h => ⟨h.1, h.2.1, Nat.le_succ_of_le h.2.2⟩
      concat := fun _ _ h _ _ _ => h }
  have hkeeps := ((lasting_issued.steady.keeps_declareSource output findType dsl source module?).and
    (Tidy.steady.keeps_declareSource output findType dsl source module?)).and
    (hplain.steady.keeps_declareSource output findType dsl source module?)
  exact hkeeps.conseq (fun _ h => parts.1 h) (fun _ _ h => parts.2 h) fun _ _ h => parts.2 h

/-- No name is bound to another command. -/
theorem same_rules {s : Registry τ} (hr : r.Serving config) (hs : s.Serving config)
    (output : OutputConfig) (dsl : String) : (r.rules output dsl).Same (s.rules output dsl) := by
  have hnone : ∀ {r : Registry τ} (name : String), r.Serving config →
      ((BindingTable.lookup r.bindings name).any fun binding => !binding.pointsTo r.target) =
        false := by
    intro r name hr
    rw [Option.any_eq_false]
    intro binding hbinding
    rw [BindingTable.Stacked.lookup_eq] at hbinding
    simp [hr.tidy.held_target name binding (List.mem_of_mem_head? hbinding)]
  exact ⟨rfl, rfl, fun name => (hnone name hs).trans (hnone name hr).symm⟩

/-- Once the former keywords of a language are removed, it can be declared side by side with a fresh
registry. -/
theorem start (hr : r.Serving config) (bindings : τ) (dsl : String) (t t' : τ) :
    (Tandem.fresh r dsl).Holds []
      (((Registry.ofConfig config bindings).without (·.isIn dsl)).withBindings t)
      ((r.without (·.isIn dsl)).withBindings t') where
  spare id hid := by
    have hissued : ((Registry.ofConfig config bindings).without (·.isIn dsl)).Issued :=
      lasting_issued.without _ _ (Built.empty config bindings).issued
    have hissued' : (r.without (·.isIn dsl)).Issued := lasting_issued.without _ _ hr.issued
    have hone : 1 ≤ id.number := hid
    have hlater : r.nextId ≤ (id.later (r.nextId - 1)).number := by
      show r.nextId ≤ id.number + (r.nextId - 1)
      omega
    have hnone := hissued.find?_unissued hone
    have hnone' := hissued'.find?_unissued hlater
    exact ⟨(congrArg Option.isSome hnone').trans (congrArg Option.isSome hnone).symm, .inr hnone⟩
  grown := ⟨[], [], rfl, (List.append_nil _).symm, .nil⟩
  nextId := (Nat.add_sub_cancel' hr.one_le_nextId).symm
  scope := by
    show r.scope.isEmpty = true
    rw [hr.scope_nil, List.isEmpty_nil]
  separator := hr.separator_eq
  members := nofun

variable [BindingTable.Lenient τ]

theorem run_removeDsl (hr : r.Serving config) (dsl : String) :
    (removeDsl dsl).run r = (.ok (r.members dsl).length,
      (r.without (·.isIn dsl)).withBindings (r.removedTable dsl)) := by
  refine run_removeDsl_ok hr.issued.distinct dsl fun keyword hk => ?_
  obtain ⟨entry, he, rfl⟩ := List.mem_map.1 hk
  obtain ⟨he, hstand⟩ := List.mem_filter.1 he
  exact BindingTable.Lenient.accepts _ (hr.tidy.standalone_named entry he (by simpa using hstand))

/-- A declaration has the outcome that it has in a fresh registry. -/
theorem outcome_eq {bindings : τ} (hempty : ∀ name, BindingTable.lookup bindings name = none)
    (hr : r.Serving config) (output : OutputConfig) (findType : String → Option HostType)
    (dsl source : String) :
    ((declareSource output findType dsl source none).run r).1.map (List.map Keyword.anonymous) =
      ((declareSource output findType dsl source none).run (.ofConfig config bindings)).1.map
        (List.map Keyword.anonymous) := by
  have hs := ofConfig config hempty
  unfold declareSource
  cases readDeclaration dsl source with
  | error e => rfl
  | ok tree =>
    simp only
    rw [run_locatedIn, run_locatedIn]
    have hstart := hr.start bindings dsl
    generalize Registry.ofConfig config bindings = s at hs hstart
    have hsame := (hs.same_rules hr output dsl).check_eq findType none tree
    cases hcheck : Grammar.check (s.rules output dsl) findType none tree with
    | error e =>
      rw [run_declare_rejected _ _ _ _ _ hcheck,
        run_declare_rejected _ _ _ _ _ (hsame.trans hcheck)]
    | ok g =>
      have hends : (Tandem.fresh r dsl).Outcomes ((declare output findType dsl tree none).run s)
          ((declare output findType dsl tree none).run r) :=
        Tandem.outcomes_declare hcheck (hsame.trans hcheck) (Grammar.Like.refl g)
          (hs.run_removeDsl dsl) (hr.run_removeDsl dsl) (hstart _ _)
      generalize (declare output findType dsl tree none).run s = p,
        (declare output findType dsl tree none).run r = p' at hends
      cases hends with
      | ok hroots _ => exact congrArg Except.ok (Keyword.anonymous_all hroots)
      | error herrors =>
        cases herrors with
        | idTaken => rfl
        | pathTaken hpath =>
          obtain rfl : _ = _ := hpath
          rfl

end Serving

/-! ## Languages one after the other -/

theorem run_declareEach_cons (output : OutputConfig) (findType : String → Option HostType)
    (dsl source : String) (languages : List (String × String)) (r : Registry τ) :
    ((declareEach output findType ((dsl, source) :: languages)).run r).1 =
      ((declareSource output findType dsl source none).run r).1 ::
        ((declareEach output findType languages).run
          ((declareSource output findType dsl source none).run r).2).1 := by
  rw [declareEach, List.mapM_cons]
  rfl

/-- Each language has the outcome that it has alone in a fresh registry, up to identities: the same
roots with the same modes, bodies and properties in the same order, or the same error. -/
theorem declareEach_independent (config : Config) (findType : String → Option HostType)
    (languages : List (String × String)) :
    ((declareEach config.output findType languages).run
        (.ofConfig config ({} : LayeredTable))).1.map (·.map (List.map Keyword.anonymous)) =
      languages.map fun (dsl, source) =>
        ((declareSource config.output findType dsl source none).run
          (.ofConfig config ({} : LayeredTable))).1.map (List.map Keyword.anonymous) := by
  have hempty : ∀ name, BindingTable.lookup ({} : LayeredTable) name = none := fun _ => rfl
  suffices h : ∀ r : Registry LayeredTable, r.Serving config →
      ((declareEach config.output findType languages).run r).1.map
          (·.map (List.map Keyword.anonymous)) =
        languages.map fun (dsl, source) =>
          ((declareSource config.output findType dsl source none).run
            (.ofConfig config ({} : LayeredTable))).1.map (List.map Keyword.anonymous) from
    h _ (.ofConfig config hempty)
  induction languages with
  | nil => exact fun _ _ => rfl
  | cons language languages ih =>
    obtain ⟨dsl, source⟩ := language
    intro r hr
    have hnext := (Serving.keeps_declareSource config config.output findType dsl source none).run hr
    rw [run_declareEach_cons, List.map_cons, List.map_cons, ih _ hnext,
      hr.outcome_eq hempty config.output findType dsl source]

end Registry
end KeywordScope
