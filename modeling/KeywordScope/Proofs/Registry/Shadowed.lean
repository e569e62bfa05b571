import KeywordScope.Proofs.Binding.Places
import KeywordScope.Proofs.Registry.Binds
import KeywordScope.Proofs.Registry.Roots

/-!
# Shadowed bindings

A table of layers may hold bindings of one name to several commands, one behind the other. What a
registry does to the ones that lead to other commands depends on what lies in front of them.

* `foreign`: the binding of a name in a layer, if it leads to another command.
* `bindName_layered`, `foreign_bindName`: only the binding in front of all others may give way to
  that of a keyword.
* `keeps_removeDsl_foreign`: the removal of a language leaves all of them.
* `Covered`: there is a binding further in. While that is so, keywords may be bound.
* `Tops`: the binding in front. The removal of a language may leave one that leads to another
  command (`tops_removeDsl`), and it gives way to the next keyword of the name (`Tops.bindName`).
-/

namespace KeywordScope
namespace Registry

open Step
open BindingTable (Stacked)

/-- The spelling and the binding of a name in a layer, if it leads to another command. -/
def foreign (r : Registry LayeredTable) (i : Nat) (name : String) : Option (String × Binding) :=
  r.bindings.foreign r.target i name

variable {r : Registry LayeredTable} {name : String} {i : Nat}

/-! ## Binding a keyword -/

/-- A keyword is bound in the layer that is next, or its name is bound already or refused. -/
theorem bindName_layered (r : Registry LayeredTable) (keyword : Keyword) :
    ((r.bindName keyword).2 = r.bindings ∧
        ((r.bindName keyword).1 = .ok () → r.Binds keyword.name)) ∨
      ((r.bindName keyword).1 = .ok () ∧ ¬ r.Binds keyword.name ∧
        ∃ i entry, r.bindings.Hosts keyword.name i ∧ entry.2.pointsTo r.target = true ∧
          ∀ j other, (r.bindName keyword).2.slot? j other =
            if j = i ∧ keyword.isNamed other = true then some entry
            else r.bindings.slot? j other) := by
  by_cases hbound : BindingTable.isBoundTo r.bindings keyword.name r.target = true
  · have hrun : r.bindName keyword = (.ok (), r.bindings) := if_pos hbound
    rw [hrun]
    exact .inl ⟨rfl, fun _ => hbound⟩
  let binding : Binding :=
    { target := r.target, description := r.description, module? := keyword.module? }
  have hrun : r.bindName keyword = r.bindings.bind keyword.name binding := if_neg hbound
  rw [hrun]
  by_cases hname : keyword.name = ""
  · rw [LayeredTable.bind, if_pos hname]
    exact .inl ⟨rfl, nofun⟩
  · obtain ⟨i, hhosts⟩ := r.bindings.exists_hosts keyword.name
    exact .inr ⟨BindingTable.Lenient.accepts _ hname r.bindings binding, hbound, i,
      (keyword.name, binding), hhosts, sameName_refl r.target,
      LayeredTable.slot?_bind hhosts hname binding⟩

/-- A binding to another command gives way only to that of a keyword of its name, and only if it is
in front of all others. -/
theorem foreign_bindName (r : Registry LayeredTable) (keyword : Keyword) (i : Nat) (name : String) :
    (r.withBindings (r.bindName keyword).2).foreign i name = r.foreign i name ∨
      (keyword.isNamed name = true ∧ r.bindings.Hosts name i ∧ ¬ r.Binds name ∧
        (r.withBindings (r.bindName keyword).2).foreign i name = none) := by
  rcases r.bindName_layered keyword with ⟨hsame, -⟩ | ⟨-, hfree, k, entry, hhosts, hto, hentry⟩
  · exact .inl (by rw [hsame]; rfl)
  by_cases hthere : i = k ∧ keyword.isNamed name = true
  · obtain ⟨rfl, hnamed⟩ := hthere
    refine .inr ⟨hnamed, hhosts.congr hnamed, fun hbound => hfree ((binds_congr hnamed).2 hbound),
      LayeredTable.foreign_of_pointsTo ((hentry i name).trans (if_pos ⟨rfl, hnamed⟩)) hto⟩
  · left
    show (r.bindName keyword).2.foreign r.target i name = r.bindings.foreign r.target i name
    rw [LayeredTable.foreign, hentry, if_neg hthere, LayeredTable.foreign]

/-- A name that stands for no other command may be bound. -/
theorem foreign_bindName_of_clear {keyword : Keyword}
    (h : ∀ binding ∈ r.bindings.lookup keyword.name, binding.pointsTo r.target = true) (i : Nat)
    (name : String) :
    (r.withBindings (r.bindName keyword).2).foreign i name = r.foreign i name := by
  rcases r.foreign_bindName keyword i name with heq | ⟨hnamed, hhosts, hfree, hnone⟩
  · exact heq
  rw [hnone, eq_comm]
  cases hentry : r.bindings.slot? i name with
  | none => exact LayeredTable.foreign_eq_none hentry
  | some entry =>
    have same : sameName name keyword.name = true := by
      rw [sameName_comm]
      exact hnamed
    have hlookup := (hhosts.congr same).lookup_eq
    rw [LayeredTable.slot?_congr _ i hnamed, hentry] at hlookup
    refine absurd ((binds_congr hnamed).1 ?_) hfree
    exact (Option.any_eq_true _ _).2 ⟨entry.2, hlookup, h entry.2 hlookup⟩

/-! ## Removing a language -/

/-- The bindings to other commands are those of `before`. -/
def SameForeign (before r : Registry LayeredTable) : Prop :=
  ∀ i name, r.foreign i name = before.foreign i name

theorem foreign_purgeNames (r : Registry LayeredTable) (keywords : List Keyword) :
    SameForeign r (r.withBindings (r.purgeNames keywords)) := by
  induction keywords generalizing r with
  | nil => exact fun _ _ => rfl
  | cons keyword keywords ih =>
    intro i name
    exact (ih (r.withBindings (BindingTable.purge r.bindings keyword.name r.target)) i name).trans
      (LayeredTable.foreign_purge r.bindings keyword.name r.target i name)

/-- The names that are not purged keep all their bindings. -/
theorem slot?_purgeNames (r : Registry LayeredTable) {keywords : List Keyword} {name : String}
    (h : keywords.any (·.isNamed name) = false) (i : Nat) :
    (r.purgeNames keywords).slot? i name = r.bindings.slot? i name := by
  induction keywords generalizing r with
  | nil => rfl
  | cons keyword keywords ih =>
    obtain ⟨hfirst, hrest⟩ := Bool.or_eq_false_iff.1 (List.any_cons ▸ h)
    exact (ih (r.withBindings (BindingTable.purge r.bindings keyword.name r.target)) hrest).trans
      (LayeredTable.slot?_purge_of_ne _ _ i hfirst)

/-- Only names that are not bound at all are bound again. -/
theorem keeps_rebindStandalones_foreign (before : Registry LayeredTable) :
    Keeps (SameForeign before) rebindStandalones := by
  refine Meets.get_bind fun r hr => ?_
  let unbound := r.standalones.filter fun keyword =>
    (BindingTable.lookup r.bindings keyword.name).isNone
  -- On the way, these names come to be bound, but not to other commands.
  have hclear : ∀ keyword ∈ unbound, Keeps (fun s : Registry LayeredTable => SameForeign before s ∧
      ∀ other ∈ unbound, ∀ binding ∈ s.bindings.lookup other.name,
        binding.pointsTo s.target = true) (bindKeyword keyword) := by
    intro keyword hk
    refine Keeps.of_run fun s hs => ?_
    rw [run_bindKeyword]
    refine ⟨fun i name => (foreign_bindName_of_clear (hs.2 keyword hk) i name).trans (hs.1 i name),
      fun other ho binding hbinding => ?_⟩
    have hlookup : binding ∈ BindingTable.lookup (s.bindName keyword).2 other.name := hbinding
    rw [Stacked.lookup_eq] at hlookup
    rcases s.held_bindName keyword other.name with heq | ⟨-, -, -, new, hto, heq⟩
    · rw [heq, ← Stacked.lookup_eq] at hlookup
      exact hs.2 other ho binding hlookup
    · rw [heq] at hlookup
      obtain rfl := Option.some.inj hlookup
      exact hto
  have hstart : ∀ other ∈ unbound, ∀ binding ∈ r.bindings.lookup other.name,
      binding.pointsTo r.target = true := by
    intro other ho binding hbinding
    have hnone := (List.mem_filter.1 ho).2
    rw [show BindingTable.lookup r.bindings other.name = some binding from hbinding] at hnone
    cases hnone
  exact ((Keeps.forM_of_mem hclear).startingAt ⟨hr, hstart⟩).conseq (fun _ hs => hs)
    (fun _ _ hs => hs.1) fun _ _ hs => hs.1

/-- The removal of a language leaves all bindings to other commands, also if it fails. -/
theorem keeps_removeDsl_foreign (before : Registry LayeredTable) (dsl : String) :
    Keeps (SameForeign before) (removeDsl dsl) := by
  refine keeps_removeDsl_of dsl (fun id => Keeps.of_run fun r hr => ?_)
    (keeps_rebindStandalones_foreign before)
  rcases r.unregister_cases id with ⟨-, hrun⟩ | ⟨entry, -, -, hrun⟩
  · rwa [hrun]
  · rw [hrun]
    exact fun i name => (LayeredTable.foreign_purge _ _ _ i name).trans (hr i name)

/-! ## Covered bindings -/

/-- A layer further in holds the name. -/
def Covered (i : Nat) (name : String) (r : Registry LayeredTable) : Prop :=
  ∃ j < i, r.bindings.slot? j name ≠ none

theorem Covered.bindName (h : r.Covered i name) (keyword : Keyword) :
    (r.withBindings (r.bindName keyword).2).Covered i name := by
  obtain ⟨j, hj, hheld⟩ := h
  refine ⟨j, hj, ?_⟩
  show (r.bindName keyword).2.slot? j name ≠ none
  rcases r.bindName_layered keyword with ⟨hsame, -⟩ | ⟨-, -, k, entry, -, -, hentry⟩
  · rwa [hsame]
  · rw [hentry]
    split
    · exact Option.some_ne_none entry
    · exact hheld

/-- Behind another binding nothing changes when a keyword is bound. -/
theorem Covered.foreign_bindName (h : r.Covered i name) (keyword : Keyword) :
    (r.withBindings (r.bindName keyword).2).foreign i name = r.foreign i name := by
  rcases r.foreign_bindName keyword i name with heq | ⟨-, hhosts, -, -⟩
  · exact heq
  · obtain ⟨j, hj, hheld⟩ := h
    exact absurd (hhosts.inner j hj) hheld

/-- The removal of a language that has no member of the name does not uncover its bindings. -/
theorem Covered.removeDsl (h : r.Covered i name) (hd : r.Distinct) {dsl : String}
    (hno : (r.members dsl).any (·.isNamed name) = false) :
    ((removeDsl dsl).run r).2.Covered i name := by
  refine run_removeDsl_of_purged (I := Covered i name) hd dsl ?_ ?_
  · obtain ⟨j, hj, hheld⟩ := h
    exact ⟨j, hj, (r.slot?_purgeNames hno j).symm ▸ hheld⟩
  · refine Keeps.get.bind fun s => Keeps.forM fun keyword => Keeps.of_run fun s hs => ?_
    rw [run_bindKeyword]
    exact hs.bindName keyword

/-! ## Bindings in front -/

/-- The binding of the name that is in front of all others is in this layer, and leads to the
command or not. -/
def Tops (i : Nat) (name : String) (own : Bool) (r : Registry LayeredTable) : Prop :=
  r.bindings.Hosts name i ∧
    ∃ entry, r.bindings.slot? i name = some entry ∧ entry.2.pointsTo r.target = own

theorem Tops.lookup {own : Bool} (h : r.Tops i name own) :
    ∃ binding, BindingTable.lookup r.bindings name = some binding ∧
      binding.pointsTo r.target = own := by
  obtain ⟨hhosts, entry, hentry, hown⟩ := h
  refine ⟨entry.2, ?_, hown⟩
  show r.bindings.lookup name = _
  rw [hhosts.lookup_eq, hentry]
  rfl

theorem Tops.binds_iff {own : Bool} (h : r.Tops i name own) : r.Binds name ↔ own = true := by
  obtain ⟨binding, hlookup, rfl⟩ := h.lookup
  rw [Binds, BindingTable.isBoundTo, hlookup]
  rfl

/-- Keywords of other names may be bound. -/
theorem Tops.bindName_of_ne {own : Bool} (h : r.Tops i name own) {keyword : Keyword}
    (hne : keyword.isNamed name = false) :
    (r.withBindings (r.bindName keyword).2).Tops i name own := by
  have hentry : ∀ j, (r.bindName keyword).2.slot? j name = r.bindings.slot? j name := by
    intro j
    rcases r.bindName_layered keyword with ⟨hsame, -⟩ | ⟨-, -, k, entry, -, -, hentry⟩
    · rw [hsame]
    · rw [hentry, if_neg (by simp [hne])]
  obtain ⟨hhosts, entry, htop, hown⟩ := h
  exact ⟨.of_some ((hentry i).trans htop) fun j hj => (hentry j).trans (hhosts.inner j hj), entry,
    (hentry i).trans htop, hown⟩

/-- The binding in front gives way to that of a keyword of the name. -/
theorem Tops.bindName {own : Bool} (h : r.Tops i name own) {keyword : Keyword}
    (hnamed : keyword.isNamed name = true) (hok : (r.bindName keyword).1 = .ok ()) :
    (r.withBindings (r.bindName keyword).2).Tops i name true := by
  rcases r.bindName_layered keyword with ⟨hsame, hbound⟩ | ⟨-, -, k, entry, hhosts, hto, hentry⟩
  · have hown := h.binds_iff.1 ((binds_congr hnamed).1 (hbound hok))
    rw [hsame]
    exact hown ▸ h
  · obtain rfl := (hhosts.congr hnamed).unique h.1
    have htop := (hentry k name).trans (if_pos ⟨rfl, hnamed⟩)
    refine ⟨.of_some htop fun j hj => ?_, entry, htop, hto⟩
    show (r.bindName keyword).2.slot? j name = none
    rw [hentry, if_neg fun hthere => Nat.ne_of_lt hj hthere.1]
    exact h.1.inner j hj

/-- A name that is bound is not bound again. -/
theorem keeps_rebindStandalones_tops (own : Bool) :
    Keeps (Tops i name own) rebindStandalones := by
  refine Meets.get_bind fun r hr => (Keeps.forM_of_mem fun keyword hk => Keeps.of_run
    fun s hs => ?_).startingAt hr
  rw [run_bindKeyword]
  refine hs.bindName_of_ne (Bool.eq_false_iff.2 fun hnamed => ?_)
  have hnone := (List.mem_filter.1 hk).2
  obtain ⟨binding, hlookup, -⟩ := hr.lookup
  rw [Stacked.lookup_eq, Stacked.held_congr _ hnamed, ← Stacked.lookup_eq, hlookup] at hnone
  cases hnone

/-- The removal of a language uncovers the first binding to another command if a member of the
language has the name. -/
theorem tops_removeDsl (hd : r.Distinct) {dsl : String}
    (hmember : (r.members dsl).any (·.isNamed name) = true) (hforeign : r.foreign i name ≠ none)
    (hfirst : ∀ j < i, r.foreign j name = none) :
    ((removeDsl dsl).run r).2.Tops i name false := by
  refine run_removeDsl_of_purged (I := Tops i name false) hd dsl ?_
    (keeps_rebindStandalones_tops false)
  generalize hs : (r.without (·.isIn dsl)).withBindings (r.purgeNames (r.members dsl)) = s
  have hsame : ∀ j, s.foreign j name = r.foreign j name := fun j =>
    hs ▸ r.foreign_purgeNames (r.members dsl) j name
  have hfree : ¬ s.Binds name := by
    intro hbound
    rw [← hs] at hbound
    have hpurged := ((binds_purgeNames r (r.members dsl) name).1 hbound).2
    rw [hmember] at hpurged
    cases hpurged
  obtain ⟨k, hhosts⟩ := s.bindings.exists_hosts name
  cases hentry : s.bindings.slot? k name with
  | none =>
    have hnone : s.foreign i name = none :=
      LayeredTable.foreign_eq_none ((hhosts.free hentry).2 i)
    exact absurd ((hsame i).symm.trans hnone) hforeign
  | some entry =>
    have htop : s.Tops k name (entry.2.pointsTo s.target) := ⟨hhosts, entry, hentry, rfl⟩
    have hto : entry.2.pointsTo s.target = false :=
      Bool.eq_false_iff.2 fun hto => hfree (htop.binds_iff.2 hto)
    rw [hto] at htop
    have hk : s.foreign k name = some entry :=
      LayeredTable.foreign_eq_some_iff.2 ⟨hentry, hto⟩
    -- Both are the first layer with a binding to another command.
    rcases Nat.lt_trichotomy k i with hlt | rfl | hlt
    · rw [hsame, hfirst k hlt] at hk
      cases hk
    · exact htop
    · have hnone : s.foreign i name = none := LayeredTable.foreign_eq_none (hhosts.inner i hlt)
      exact absurd ((hsame i).symm.trans hnone) hforeign

end Registry
end KeywordScope
