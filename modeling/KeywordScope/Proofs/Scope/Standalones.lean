import KeywordScope.Proofs.Registry.Binds
import KeywordScope.Proofs.Scope.Registration
import KeywordScope.Proofs.Scope.Runs

/-!
# Standalone keywords stay bound

To hide a member purges its name, and so takes the binding away from a standalone keyword of the
same name. While scopes are entered such a name may be unbound. It is bound again when the scope is
left, and while no scope is entered nothing but the removal of a language purges names, which binds
the standalone keywords again, too.

* `Named`: all keywords have names, so that a lenient table refuses none of them.
* `Turn`: an operation of a session on its registry.
* `Bound`: while no scope is entered, all standalone keywords are bound. `BoundWhere` is the same
  for other conditions; it is kept while members are registered (`adding_boundWhere`).
* `Mendable.served_leaveScope`: when a scope is left, whatever is missing is repaired.
* `Served`: what holds between the operations, and `Turn.served`: each operation keeps it.
* `standalones_bound`: the standalone keywords are bound after any run that leaves all scopes.
-/

namespace KeywordScope
namespace Registry

open BindingTable (Stacked)
open BindingTable.Stacked (held)
open Step

variable {τ : Type} {r r' : Registry τ}

/-! ## Names -/

/-- All keywords have names. -/
def Named (r : Registry τ) : Prop :=
  ∀ entry ∈ r.entries, entry.keyword.name ≠ ""

theorem Named.concat (hr : r.Named) {entry : Entry} (h : entry.keyword.name ≠ "") :
    (r.concat entry).Named := by
  intro other ho
  rcases mem_concat.1 ho with ho | rfl
  · exact hr other ho
  · exact h

theorem outlined_named : Outlined (τ := τ) Named where
  bindings _ _ hr := hr
  entries r entries ho hr entry he := by
    obtain ⟨found, hf, same⟩ := exists_mem_of_outline (r := { r with entries }) ho he
    rw [← Entry.keyword_congr same]
    exact hr found hf

theorem grows_named (dsl : String) : Grows (τ := τ) dsl fun _ => Named where
  bindings _ _ _ hr := hr
  up _ _ _ hr := hr
  nextId _ _ hr := hr
  add _ _ _ hr _ hname _ _ _ := Named.concat hr (ne_empty_of_isKeywordName hname)

/-- Names are bound to this command. -/
theorem lasting_target (target : String) : Lasting (τ := τ) fun r => r.target = target where
  bindings _ _ h := h
  entries _ _ _ h := h
  without _ _ h := h
  nextId _ h := h
  concat _ _ h _ _ _ := h

section Table

variable [BindingTable τ]

theorem keeps_removeDsl_named (dsl : String) : Keeps (Named (τ := τ)) (removeDsl dsl) := by
  refine keeps_removeDsl_of dsl (fun id => Keeps.of_run fun r hr entry he => ?_)
    (keeps_rebindStandalones outlined_named.bindings)
  rw [entries_unregister] at he
  exact hr entry (mem_without.1 he).1

/-- A visible keyword is bound and registered, or nothing but the bindings changes. -/
theorem insert_cases (r : Registry τ) {entry : Entry} (hv : entry.visible = true) :
    ((insert entry).run r).2 = r ∨
      ((insert entry).run r).2 = r.withBindings (r.bindName entry.keyword).2 ∨
      ((r.bindName entry.keyword).1 = .ok () ∧ ((insert entry).run r).2 =
        (r.withBindings (r.bindName entry.keyword).2).concat entry) := by
  rw [insert, run_bind_ok (run_get r)]
  rcases r.find? entry.id with _ | taken
  · right
    simp only [Option.isSome_none, hv, Bool.false_eq_true, ↓reduceIte]
    rw [run_bind, run_bindKeyword]
    rcases (r.bindName entry.keyword).1 with e | ⟨⟩
    · exact .inl rfl
    · exact .inr ⟨rfl, rfl⟩
  · exact .inl rfl

/-! ## Operations -/

/-- An operation by which keywords and languages come, languages go, and scopes are entered and
left. It counts whether it succeeds or not. -/
inductive Turn : Registry τ → Registry τ → Prop where
  | allocate (r : Registry τ) : Turn r (allocate.run r).2
  | registerStandalone (r : Registry τ) (keyword : Keyword) :
      Turn r ((registerStandalone keyword).run r).2
  | declare (r : Registry τ) (output : OutputConfig) (findType : String → Option HostType)
      (dsl : String) (tree : Script.Block) (module? : Option String) :
      Turn r ((declare output findType dsl tree module?).run r).2
  | declareSource (r : Registry τ) (output : OutputConfig) (findType : String → Option HostType)
      (dsl source : String) (module? : Option String) :
      Turn r ((declareSource output findType dsl source module?).run r).2
  | removeDsl (r : Registry τ) (dsl : String) : Turn r ((removeDsl dsl).run r).2
  | enterScope (r : Registry τ) (id : Keyword.Id) : Turn r ((enterScope id).run r).2
  | leaveScope (r : Registry τ) : Turn r (leaveScope.run r).2

/-- Names are bound to one and the same command all the time. -/
theorem Turn.target_eq (h : Turn r r') : r'.target = r.target := by
  have hI := lasting_target (τ := τ) r.target
  have hscope : ∀ (s : Registry τ) scope, s.target = r.target →
      ({ s with scope } : Registry τ).target = r.target := fun _ _ h => h
  cases h with
  | allocate => rfl
  | registerStandalone keyword =>
    refine (Keeps.bind ((meets_insert hI.bindings _).conseq (fun _ h => h) ?_ fun _ _ h => h)
      fun _ => Keeps.pure _).run rfl
    rintro _ _ ⟨s, hs, -, rfl⟩
    exact hs
  | declare output findType dsl tree module? =>
    exact (hI.steady.keeps_declare output findType dsl tree module?).run rfl
  | declareSource output findType dsl source module? =>
    exact (hI.steady.keeps_declareSource output findType dsl source module?).run rfl
  | removeDsl dsl => exact (hI.steady.keeps_removeDsl dsl).run rfl
  | enterScope id => exact (hI.steady.keeps_enterScope hscope id).run rfl
  | leaveScope => exact (hI.steady.keeps_leaveScope hscope).run rfl

/-! ## Bindings -/

/-- While no scope is entered, all standalone keywords are bound. -/
def Bound (r : Registry τ) : Prop :=
  r.scope = [] → ∀ keyword ∈ r.standalones, r.Binds keyword.name

/-- Of the standalone keywords those are bound of which the condition holds. -/
def BoundWhere (p : List Keyword.Id → Keyword → Prop) (r : Registry τ) : Prop :=
  ∀ keyword ∈ r.standalones, p r.scope keyword → r.Binds keyword.name

theorem bound_eq : Bound (τ := τ) = BoundWhere fun scope _ => scope = [] :=
  funext fun _ => propext
    ⟨fun h keyword hk hs => h hs keyword hk, fun h hs keyword hk => h keyword hk hs⟩

variable [Stacked τ]

/-- A name that is bound stays so when a keyword is bound, also if that is refused. -/
theorem Binds.bindName {name : String} (h : r.Binds name) (keyword : Keyword) :
    (r.withBindings (r.bindName keyword).2).Binds name := by
  rw [Binds, Stacked.isBoundTo_eq] at h ⊢
  show (held (r.bindName keyword).2 name).head?.any _ = true
  rcases r.held_bindName keyword name with heq | ⟨-, -, -, top, htop, heq⟩
  · rwa [heq]
  · rw [heq]
    exact htop

theorem Binds.publish {name : String} (h : r.Binds name) (module published : String) :
    (r.withBindings (BindingTable.publish r.bindings module published).2).Binds name := by
  rw [Binds, Stacked.isBoundTo_eq] at h ⊢
  show (held (BindingTable.publish r.bindings module published).2 name).head?.any _ = true
  rwa [Stacked.held_publish]

variable {p : List Keyword.Id → Keyword → Prop}

theorem keeps_bindKeyword_boundWhere (keyword : Keyword) :
    Keeps (BoundWhere (τ := τ) p) (bindKeyword keyword) :=
  Keeps.of_run fun r hr => by
    rw [run_bindKeyword]
    exact fun other ho hp => (hr other ho hp).bindName keyword

/-- Members are registered without any change to standalone keywords. -/
theorem keeps_insert_boundWhere {entry : Entry} (hm : entry.isMember = true) :
    Keeps (BoundWhere (τ := τ) p) (insert entry) := by
  have hstand : ∀ r : Registry τ, (r.concat entry).standalones = r.standalones := by
    intro r
    simp [standalones, keywordsWhere, concat, hm]
  have hadd : Keeps (BoundWhere (τ := τ) p) (modify fun registry =>
      { registry with entries := registry.entries ++ [entry] } : Action τ PUnit) :=
    Keeps.modify fun r hr keyword hk => hr keyword (hstand r ▸ hk)
  refine Keeps.get.bind fun r => Keeps.ite (Keeps.throw _) ?_
  exact Keeps.ite ((keeps_bindKeyword_boundWhere entry.keyword).bind fun _ => hadd) hadd

theorem adding_boundWhere : Adding (BoundWhere (τ := τ) p) where
  nextId _ hr := hr
  register dsl keyword parent? path :=
    (keeps_registerMember_of dsl keyword parent? path fun _ => keeps_insert_boundWhere).conseq
      (fun _ hr => hr.1) (fun _ _ hr => hr) fun _ _ hr => hr
  publish module name := Keeps.of_run fun r hr => by
    rw [publish, run_changeBindings]
    exact fun keyword hk hp => (hr keyword hk hp).publish module name

theorem adding_bound : Adding (Bound (τ := τ)) :=
  bound_eq (τ := τ) ▸ adding_boundWhere

/-! ## Repairs -/

/-- The standalone keywords can be bound again: the table is tidy, and all keywords have names. -/
structure Mendable (r : Registry τ) : Prop extends r.Tidy where
  named : r.Named

/-- What holds between operations. -/
structure Served (r : Registry τ) : Prop extends r.Mendable where
  bound : r.Bound

namespace Mendable

theorem withScope (hr : r.Mendable) (scope : List Keyword.Id) :
    Mendable { r with scope } :=
  ⟨hr.toTidy.withScope, hr.named⟩

/-- While a scope is entered, nothing need be bound. -/
theorem served (hr : r.Mendable) (hs : r.scope ≠ []) : r.Served :=
  ⟨hr, fun h => absurd h hs⟩

theorem keeps_of {α : Type} {step : Action τ α} (htidy : Keeps Tidy step)
    (hnamed : Keeps Named step) : Keeps (Mendable (τ := τ)) step :=
  (htidy.and hnamed).conseq (fun _ hr => ⟨hr.toTidy, hr.named⟩) (fun _ _ hr => ⟨hr.1, hr.2⟩)
    fun _ _ hr => ⟨hr.1, hr.2⟩

theorem keeps_hide (id : Keyword.Id) : Keeps (Mendable (τ := τ)) (hide id) :=
  keeps_of (Tidy.keeps_hide id) (outlined_named.keeps_hide id)

theorem keeps_reveal (id : Keyword.Id) : Keeps (Mendable (τ := τ)) (reveal id) :=
  keeps_of (Tidy.keeps_reveal id) (outlined_named.keeps_reveal id)

variable [BindingTable.Lenient τ]

/-- Binding standalone keywords again repairs whatever is missing. -/
theorem served_rebind (hr : r.Mendable) (id : Keyword.Id) :
    ((do rebindStandalones; return id : Action τ Keyword.Id).run r).2.Served := by
  have htidy := Tidy.keeps_rebindStandalones.run hr.toTidy
  rw [run_bind_ok hr.toTidy.run_rebindStandalones]
  rw [hr.toTidy.run_rebindStandalones] at htidy
  refine ⟨⟨htidy, hr.named⟩, fun _ keyword hk => (hr.toTidy.binds_rebound keyword.name).2 (.inl ?_)⟩
  exact List.any_eq_true.2 ⟨keyword, hk, sameName_refl _⟩

/-- When a scope is left, all standalone keywords are bound again. -/
theorem served_leaveScope (hr : r.Mendable) (hs : r.scope ≠ []) :
    (leaveScope.run r).2.Served := by
  obtain ⟨id, outer, hscope⟩ := List.exists_cons_of_ne_nil hs
  let back : Registry τ := { r with scope := outer }
  have hback : back.Mendable := hr.withScope outer
  rw [leaveScope, run_bind_ok (run_get r)]
  simp only [hscope]
  rw [run_bind_ok (run_modify _ r), run_bind_ok (run_get back)]
  by_cases hm : back.isMember id = true
  · have hgrants := grantsSiblings_of_named hback.distinct
      (fun entry he _ => hback.named entry he) id
    have hswitch := fun {α : Type} (next : Action τ α) =>
      run_switch_siblings hback.distinct hgrants next
    have hshown : Keeps (Mendable (τ := τ)) (do
        (back.children id).forM hide
        ((← get).siblings id).forM reveal
        return PUnit.unit : Action τ PUnit) :=
      (Keeps.forM keeps_hide).bind fun _ => Keeps.get.bind fun _ =>
        (Keeps.forM keeps_reveal).bind fun _ => Keeps.pure _
    have h : Mendable _ := hshown.run hback
    rw [hswitch] at h
    simp only [hm, ↓reduceIte]
    rw [run_bind_ok (run_get back), hswitch]
    exact h.served_rebind id
  · simp only [hm, Bool.false_eq_true, ↓reduceIte]
    exact hback.served_rebind id

end Mendable

/-! ## What the operations keep -/

namespace Served

theorem keeps_of {α : Type} {step : Action τ α}
    (hbound : Keeps (fun r : Registry τ => r.Tidy ∧ r.Bound) step) (hnamed : Keeps Named step) :
    Keeps (Served (τ := τ)) step :=
  (hbound.and hnamed).conseq (fun _ hr => ⟨⟨hr.toTidy, hr.bound⟩, hr.named⟩)
    (fun _ _ hr => ⟨⟨hr.1.1, hr.2⟩, hr.1.2⟩) fun _ _ hr => ⟨⟨hr.1.1, hr.2⟩, hr.1.2⟩

theorem keeps_registerStandalone (keyword : Keyword) :
    Keeps (Served (τ := τ)) (registerStandalone keyword) := by
  refine Keeps.bind (Keeps.of_run fun r hr => ?_) fun _ => Keeps.pure _
  have htidy : ((insert { keyword, visible := true }).run r).2.Tidy :=
    (Tidy.keeps_insert fun _ => rfl).run hr.toTidy
  have hbound : ∀ other ∈ r.standalones, r.scope = [] →
      (r.withBindings (r.bindName keyword).2).Binds other.name :=
    fun other ho hs => (hr.bound hs other ho).bindName keyword
  have hvisible : ({ keyword, visible := true } : Entry).visible = true := rfl
  rcases r.insert_cases hvisible with hrun | hrun | ⟨hok, hrun⟩
  · rwa [hrun]
  · rw [hrun] at htidy ⊢
    exact ⟨⟨htidy, hr.named⟩, fun hs other ho => hbound other ho hs⟩
  · rw [hrun] at htidy ⊢
    refine ⟨⟨htidy, Named.concat hr.named (hr.ne_empty_of_bindName hok)⟩, fun hs other ho => ?_⟩
    have hstand : other ∈ r.standalones ∨ other = keyword := by
      simpa [standalones, keywordsWhere, concat, Entry.isMember] using ho
    rcases hstand with ho | rfl
    · exact hbound other ho hs
    · exact isBoundTo_bindName hok

end Served

section Lenient

variable [BindingTable.Lenient τ]

/-- If a language goes, the standalone keywords of its names are bound again. -/
theorem keeps_removeDsl_bound (dsl : String) :
    Keeps (fun r : Registry τ => r.Tidy ∧ r.Bound) (removeDsl dsl) :=
  Keeps.of_run fun r hr => by
    have htidy := (Tidy.steady.keeps_removeDsl dsl).run hr.1
    have hbinds := fun name => hr.1.binds_removeDsl dsl name
    obtain ⟨t, hrun⟩ := run_removeDsl hr.1.distinct dsl
    rw [hrun] at htidy hbinds ⊢
    refine ⟨htidy, fun hs keyword hk => (hbinds keyword.name).2 ?_⟩
    have hk : keyword ∈ r.standalones := r.standalones_without_dsl dsl ▸ hk
    cases hempty : (r.members dsl).isEmpty with
    | true =>
      have hnone : (r.members dsl).any (·.isNamed keyword.name) = false := by
        rw [List.isEmpty_iff.1 hempty, List.any_nil]
      exact .inr ⟨hr.2 hs keyword hk, hnone⟩
    | false => exact .inl ⟨rfl, List.any_eq_true.2 ⟨keyword, hk, sameName_refl _⟩⟩

namespace Served

theorem keeps_removeDsl (dsl : String) : Keeps (Served (τ := τ)) (removeDsl dsl) :=
  keeps_of (keeps_removeDsl_bound dsl) (keeps_removeDsl_named dsl)

theorem keeps_declare (output : OutputConfig) (findType : String → Option HostType) (dsl : String)
    (tree : Script.Block) (module? : Option String) :
    Keeps (Served (τ := τ)) (declare output findType dsl tree module?) :=
  keeps_of ((Tidy.steady.toAdding.and adding_bound).keeps_declare keeps_removeDsl_bound output
      findType dsl tree module?)
    ((grows_named dsl).keeps_declare (keeps_removeDsl_named dsl) output findType tree module?)

theorem keeps_declareSource (output : OutputConfig) (findType : String → Option HostType)
    (dsl source : String) (module? : Option String) :
    Keeps (Served (τ := τ)) (declareSource output findType dsl source module?) :=
  keeps_declareSource_of (keeps_declare output findType dsl · module?) source

theorem keeps_leaveScope : Keeps (Served (τ := τ)) leaveScope :=
  Keeps.of_run fun r hr => by
    by_cases hs : r.scope = []
    · rw [leaveScope, run_bind_ok (run_get r), hs]
      exact hr
    · exact hr.toMendable.served_leaveScope hs

/-- A scope is entered, or left again and repaired thereby. -/
theorem keeps_enterScope (id : Keyword.Id) : Keeps (Served (τ := τ)) (enterScope id) := by
  let within : Registry τ → Prop := fun r => r.Mendable ∧ r.scope ≠ []
  have hscope : Outlined (τ := τ) fun r => r.scope ≠ [] := ⟨fun _ _ hr => hr, fun _ _ _ hr => hr⟩
  have hopen : Keeps within (openScope id) :=
    keeps_openScope (fun id => (Mendable.keeps_hide id).and (hscope.keeps_hide id))
      fun _ _ child _ => (Mendable.keeps_reveal child).and (hscope.keeps_reveal child)
  have hleave : Meets within leaveScope (fun _ => Served) fun _ => Served :=
    Meets.of_run fun r hr => hr.1.served_leaveScope hr.2
  have hpush : ∀ r : Registry τ, r.Served → within { r with scope := id :: r.scope } :=
    fun r hr => ⟨hr.withScope _, List.cons_ne_nil _ _⟩
  exact (meets_enterScope_of hpush hopen hleave).conseq (fun _ hr => hr)
    (fun _ _ hr => hr.1.served hr.2) fun _ _ hr => hr

end Served

end Lenient

/-! ## Whole runs -/

theorem Served.ofConfig (config : Config) {bindings : τ}
    (h : ∀ name, BindingTable.lookup bindings name = none) :
    Served (.ofConfig config bindings) where
  toTidy := (OwnsTable.empty config h).tidy
  named _ he := absurd he List.not_mem_nil
  bound _ _ hk := absurd hk List.not_mem_nil

variable [BindingTable.Lenient τ]

theorem Turn.served (h : Turn r r') (hr : r.Served) : r'.Served := by
  cases h with
  | allocate => exact ⟨⟨Tidy.steady.nextId r hr.toTidy, hr.named⟩, hr.bound⟩
  | registerStandalone keyword => exact (Served.keeps_registerStandalone keyword).run hr
  | declare output findType dsl tree module? =>
    exact (Served.keeps_declare output findType dsl tree module?).run hr
  | declareSource output findType dsl source module? =>
    exact (Served.keeps_declareSource output findType dsl source module?).run hr
  | removeDsl dsl => exact (Served.keeps_removeDsl dsl).run hr
  | enterScope id => exact (Served.keeps_enterScope id).run hr
  | leaveScope => exact Served.keeps_leaveScope.run hr

theorem Served.runs (hr : r.Served) (run : Relation.ReflTransGen Turn r r') :
    r'.Served ∧ r'.target = r.target := by
  induction run with
  | refl => exact ⟨hr, rfl⟩
  | tail _ hstep ih => exact ⟨hstep.served ih.1, hstep.target_eq.trans ih.2⟩

/-- Whatever is declared, removed, registered, entered and left, in any order, and whether it
succeeds or not: once no scope is entered, all standalone keywords are bound to the command. -/
theorem standalones_bound {config : Config} {bindings : τ}
    (hempty : ∀ name, BindingTable.lookup bindings name = none)
    (run : Relation.ReflTransGen Turn (.ofConfig config bindings) r) (hs : r.scope = []) :
    ∀ keyword ∈ r.standalones,
      BindingTable.isBoundTo r.bindings keyword.name config.dispatcher.command = true := by
  obtain ⟨hr, htarget⟩ := (Served.ofConfig config hempty).runs run
  intro keyword hk
  have h := hr.bound hs keyword hk
  rwa [Binds, htarget] at h

/-- Over layers: the standalone keyword `Tool`, and a language with a member of this name. -/
def sampleShadowed : Registry LayeredTable :=
  let tool := ((registerStandalone { id := ⟨1⟩, name := "Tool" }).run
    (allocate.run (.ofConfig {} {})).2).2
  ((declareSource {} (fun token => some ⟨token⟩) "web" "Site \x7b Tool \x7b string Title \x7d \x7d"
    none).run tool).2

theorem standalones_bound_sample :
    let r := (leaveScope.run ((enterScope ⟨2⟩).run sampleShadowed).2).2
    r.scope = [] ∧ r.standalones.map Keyword.name = ["Tool"] ∧
      (r.members "web").map Keyword.name = ["Site", "Tool"] ∧ (∀ keyword ∈ r.standalones,
      BindingTable.isBoundTo r.bindings keyword.name ({} : Config).dispatcher.command = true) := by
  intro r
  have hs : r.scope = [] := by decide +kernel
  have run : Relation.ReflTransGen Turn (.ofConfig {} ({} : LayeredTable)) r :=
    ((((Relation.ReflTransGen.single (.allocate _)).tail (.registerStandalone ..)).tail
      (.declareSource ..)).tail (.enterScope _ ⟨2⟩)).tail (.leaveScope _)
  exact ⟨hs, by decide +kernel, by decide +kernel, standalones_bound (fun _ => rfl) run hs⟩

end Table
end Registry
end KeywordScope
