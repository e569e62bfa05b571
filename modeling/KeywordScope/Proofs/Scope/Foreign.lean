import KeywordScope.Proofs.Scope.Bindings

/-!
# Bindings to other commands

Showing a keyword binds its name, whatever it was bound to, and nothing brings a binding back that
gives way. So a run keeps the bindings of the names that it does not show.

* `Foreign`: a name is bound to another command, and the keywords that scopes show do not have it.
* `foreign_kept`: such a binding outlasts a run.
* `run_takes_foreign`: a binding that a run removes, since a keyword below a root has its name.
-/

namespace KeywordScope
namespace Registry

open BindingTable (Stacked)
open BindingTable.Stacked (held)
open Step

variable {τ : Type} {r r' : Registry τ} {name : String} {binding : Binding}

/-- Neither the member nor a sibling nor what stands right below it has the name. -/
def Quiet (r : Registry τ) (name : String) (id : Keyword.Id) : Prop :=
  ¬ r.Calls (r.siblings id) name ∧ ¬ r.Calls (r.children id) name

variable [BindingTable τ]

/-- The registry has the keywords of `r`, and a name has a binding to another command. No scope that
is entered shows a keyword of this name. -/
structure Foreign (r : Registry τ) (name : String) (binding : Binding) (s : Registry τ) : Prop where
  outline : s.outline = r.outline
  foreign : binding.pointsTo s.target = false
  lookup : BindingTable.lookup s.bindings name = some binding
  quiet : ∀ id ∈ s.scope, r.Quiet name id

variable [Stacked τ]

theorem lookup_bindName_of_ne {keyword : Keyword} (h : keyword.isNamed name = false) :
    BindingTable.lookup (r.bindName keyword).2 name = BindingTable.lookup r.bindings name := by
  rw [Stacked.lookup_eq, Stacked.lookup_eq]
  rcases r.held_bindName keyword name with heq | ⟨-, same, -⟩
  · rw [heq]
  · rw [Keyword.isNamed, same] at h
    cases h

namespace Foreign

theorem keeps_hide (id : Keyword.Id) : Keeps (Foreign r name binding) (hide id) :=
  Keeps.of_run fun s hs => by
    rcases s.hide_cases id with hrun | ⟨entry, -, -, -, hrun⟩
    · rwa [hrun]
    rw [hrun]
    exact ⟨(outline_setVisible s [id] false).trans hs.outline, hs.foreign,
      Stacked.lookup_purge_of_foreign s.bindings _ _ hs.lookup hs.foreign, hs.quiet⟩

theorem keeps_bindKeyword {keyword : Keyword} (h : keyword.isNamed name = false) :
    Keeps (Foreign r name binding) (bindKeyword keyword) :=
  Keeps.of_run fun s hs => by
    rw [run_bindKeyword]
    exact ⟨hs.outline, hs.foreign, (lookup_bindName_of_ne h).trans hs.lookup, hs.quiet⟩

/-- Keywords of other names may be shown. -/
theorem keeps_reveal {ids : List Keyword.Id} (h : ¬ r.Calls ids name) {id : Keyword.Id}
    (hid : id ∈ ids) : Keeps (Foreign r name binding) (reveal id) :=
  Keeps.of_run fun s hs => by
    rcases s.reveal_cases id with hrun | ⟨entry, he, rfl, hrun⟩
    · rwa [hrun]
    have hother : entry.keyword.isNamed name = false := by
      obtain ⟨found, hfound, same⟩ := exists_mem_of_outline hs.outline he
      refine Bool.eq_false_iff.2 fun hnamed => h ⟨found, hfound, ?_, ?_⟩
      · rwa [Entry.id_congr same]
      · rwa [Entry.keyword_congr same]
    rw [hrun]
    refine (keeps_bindKeyword hother).run ⟨?_, hs.foreign, hs.lookup, hs.quiet⟩
    exact (outline_setVisible s [entry.id] true).trans hs.outline

/-- The name is bound, so it is not that of a standalone keyword that gets its binding back. -/
theorem keeps_rebindStandalones : Keeps (Foreign r name binding) rebindStandalones := by
  refine Meets.get_bind fun s hs => ?_
  refine (Keeps.forM_of_mem fun keyword hk => keeps_bindKeyword ?_).startingAt hs
  have hfree := (List.mem_filter.1 hk).2
  refine Bool.eq_false_iff.2 fun hnamed => ?_
  rw [Stacked.lookup_eq, Stacked.held_congr s.bindings hnamed, ← Stacked.lookup_eq, hs.lookup]
    at hfree
  cases hfree

theorem keeps_leaveScope : Keeps (Foreign r name binding) leaveScope := by
  refine Registry.keeps_leaveScope keeps_hide (fun s id outer hs hscope => ?_)
    (fun s id outer hs hscope s' hs' sibling hsibling => ?_) keeps_rebindStandalones
  · exact ⟨hs.outline, hs.foreign, hs.lookup,
      fun other ho => hs.quiet other (hscope ▸ List.mem_cons_of_mem _ ho)⟩
  · rw [siblings_congr hs'.outline] at hsibling
    exact keeps_reveal (hs.quiet id (hscope ▸ List.mem_cons_self)).1 hsibling

theorem keeps_enterScope {id : Keyword.Id} (h : r.Quiet name id) :
    Keeps (Foreign r name binding) (enterScope id) := by
  refine Registry.keeps_enterScope keeps_hide (fun s hs => ?_) (fun s hs child hchild => ?_)
    keeps_leaveScope
  · refine ⟨hs.outline, hs.foreign, hs.lookup, fun other ho => ?_⟩
    rcases List.mem_cons.1 ho with rfl | ho
    · exact h
    · exact hs.quiet other ho
  · rw [children_congr hs.outline] at hchild
    exact keeps_reveal h.2 hchild

end Foreign

variable {ids : List Keyword.Id}

theorem ScopeRun.foreign (hr : Foreign r name binding r) (run : ScopeRun r ids r')
    (hquiet : ∀ id ∈ ids, r.Quiet name id) : Foreign r name binding r' := by
  induction run with
  | start => exact hr
  | enter run id hm hv ih =>
    exact (Foreign.keeps_enterScope (hquiet id List.mem_cons_self)).run
      (ih fun other ho => hquiet other (List.mem_cons_of_mem _ ho))
  | leave run hs ih => exact Foreign.keeps_leaveScope.run (ih hquiet)

/-- A binding to another command outlasts a run if neither a keyword that the run enters nor one
of its siblings or of the keywords right below it has the name. -/
theorem foreign_kept (hs : r.scope = []) (run : ScopeRun r ids r')
    (h : BindingTable.lookup r.bindings name = some binding)
    (hforeign : binding.pointsTo r.target = false)
    (hquiet : ∀ id ∈ ids, ¬ r.Calls (r.siblings id) name ∧ ¬ r.Calls (r.children id) name) :
    BindingTable.lookup r'.bindings name = some binding :=
  (run.foreign ⟨rfl, hforeign, h, fun _ hid => absurd (hs ▸ hid) List.not_mem_nil⟩ hquiet).lookup

/-- The language `web`, where the host has bound two of its names and another one to other
commands. -/
def sampleForeign : Registry LayeredTable :=
  let bind (name : String) (table : LayeredTable) : LayeredTable :=
    (table.bind name { target := "Get-" ++ name, module? := some "tools" }).2
  sample.withBindings (bind "Site" (bind "Page" (bind "Link" sample.bindings)))

/-- The registry once `Site` is entered and left. -/
def sampleForeignLeft : Registry LayeredTable :=
  (leaveScope.run ((enterScope ⟨1⟩).run sampleForeign).2).2

theorem sampleForeign_run : ScopeRun sampleForeign [⟨1⟩] sampleForeignLeft :=
  (ScopeRun.start.enter ⟨1⟩ (by decide +kernel) (by decide +kernel)).leave (by decide +kernel)

theorem foreign_kept_sample :
    sampleForeign.scope = [] ∧ ScopeRun sampleForeign [⟨1⟩] sampleForeignLeft ∧
      Binding.pointsTo { target := "Get-Link", module? := some "tools" } sampleForeign.target =
        false ∧
      BindingTable.lookup sampleForeign.bindings "Link" =
        some { target := "Get-Link", module? := some "tools" } ∧
      BindingTable.lookup sampleForeignLeft.bindings "Link" =
        some { target := "Get-Link", module? := some "tools" } := by
  have hs : sampleForeign.scope = [] := by decide +kernel
  have h : BindingTable.lookup sampleForeign.bindings "Link" =
      some { target := "Get-Link", module? := some "tools" } := by decide +kernel
  have hforeign : Binding.pointsTo { target := "Get-Link", module? := some "tools" }
      sampleForeign.target = false := by decide +kernel
  exact ⟨hs, sampleForeign_run, hforeign, h,
    foreign_kept hs sampleForeign_run h hforeign (by decide +kernel)⟩

/-- What the run shows loses its binding: `Page` is bound when `Site` is entered and purged when it
is left, and `Site` is bound once it is shown again. -/
theorem run_takes_foreign :
    sampleForeign.Reached ∧ sampleForeign.scope = [] ∧
      ScopeRun sampleForeign [⟨1⟩] sampleForeignLeft ∧ sampleForeignLeft.scope = [] ∧
      (BindingTable.lookup sampleForeign.bindings "Page").any
        (fun binding => !binding.pointsTo sampleForeign.target) = true ∧
      BindingTable.lookup sampleForeignLeft.bindings "Page" = none ∧
      (BindingTable.lookup sampleForeign.bindings "Site").any
        (fun binding => !binding.pointsTo sampleForeign.target) = true ∧
      BindingTable.isBoundTo sampleForeignLeft.bindings "Site" sampleForeign.target = true :=
  ⟨sample_reached.rebind _, by decide +kernel, sampleForeign_run, by decide +kernel,
    by decide +kernel, by decide +kernel, by decide +kernel, by decide +kernel⟩

end Registry
end KeywordScope
