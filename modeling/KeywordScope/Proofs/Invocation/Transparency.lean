import KeywordScope.Proofs.Invocation.Use
import KeywordScope.Proofs.Scope.Balance
import KeywordScope.Proofs.Scope.Lifo

/-!
# Uses of keywords leave no trace in the scopes

Where bodies and hooks do nothing to the registry but use keywords, a use changes the bindings at
most: the same keywords are entered and visible after it, whether it fails or not. This rests on the
nesting of the entries, since only for a visible member leaving undoes entering.

* `Operation.OnlyUses`: the operation is a use, or does not touch the registry.
* `Session.Inside`: the states within runs of nested uses.
* `Session.keeps_invoke`: a use changes the bindings at most.
* `Session.dispatch_transparent`: what this means for the scopes.
-/

namespace KeywordScope

variable {τ ω : Type}

/-- The operation uses a keyword, or it does not touch the registry. -/
def Operation.OnlyUses : Operation τ ω → Prop
  | .invoke _ | .resolveType _ | .configuration => True
  | .whileHeld _ operation => operation.OnlyUses
  | _ => False

namespace Registry

/-- The registry over some table of bindings. -/
def Rebound (r r' : Registry τ) : Prop :=
  ∃ bindings, r' = r.withBindings bindings

theorem Rebound.refl (r : Registry τ) : r.Rebound r := ⟨r.bindings, rfl⟩

variable [BindingTable τ] {r : Registry τ}

/-- The keyword that is found is registered and visible. -/
theorem meets_loadVisible (name : String) :
    Step.Meets r.Rebound (loadVisible name)
      (fun entry r' => (entry ∈ r.entries ∧ entry.visible = true) ∧ r.Rebound r')
      fun _ => r.Rebound := by
  refine Step.Meets.get_bind fun r' hr => ?_
  obtain ⟨t, rfl⟩ := hr
  rcases hc : choose name ((r.withBindings t).visibleNamed name) with e | entry
  · rintro _ rfl
    exact ⟨t, rfl⟩
  · obtain ⟨he, hlike⟩ := List.mem_filter.1 (mem_of_choose hc)
    have hfound : entry ∈ r.entries ∧ entry.visible = true :=
      ⟨he, (Bool.and_eq_true _ _ ▸ hlike : entry.visible = true ∧ _).1⟩
    have hbind : Step.Meets (· = r.withBindings t) (bindKeyword entry.keyword) (fun _ => r.Rebound)
        fun _ => r.Rebound := by
      rintro _ rfl
      exact keeps_bindKeyword (bindingFree_withBindings r) entry.keyword _ ⟨t, rfl⟩
    exact hbind.bind fun _ => Step.Meets.pure fun _ hr => ⟨hfound, hr⟩

/-- The registry within the scope of a keyword, which was entered in `r`. -/
def Within (r : Registry τ) (entry : Entry) (r' : Registry τ) : Prop :=
  ∃ own, entry.membership? = some own ∧
    Rebound { r.showBelow own.dsl (some entry.id) with scope := entry.id :: r.scope } r'

variable [BindingTable.Lenient τ] {entry : Entry}

theorem Nested.meets_enterScope (hn : r.Nested) (he : entry ∈ r.entries)
    (hm : entry.isMember = true) (hv : entry.visible = true) :
    Step.Meets r.Rebound (enterScope entry.id) (fun _ => r.Within entry) fun _ => r.Rebound := by
  obtain ⟨own, hown⟩ := Option.isSome_iff_exists.1 hm
  rintro _ ⟨t, rfl⟩
  rw [(bindingFree_nested r t hn).run_enterScope he hown hv]
  exact ⟨own, hown, _, rfl⟩

theorem Nested.meets_leaveScope (hn : r.Nested) (he : entry ∈ r.entries)
    (hv : entry.visible = true) :
    Step.Meets (r.Within entry) leaveScope (fun id r' => id = entry.id ∧ r.Rebound r')
      fun _ => r.Rebound := by
  rintro s ⟨own, hown, t, hs⟩
  have hentered : s.Nested := by
    rw [hs]
    exact bindingFree_nested _ t (hn.enter he hown hv)
  have he' : entry.showBelow own.dsl (some entry.id) ∈ s.entries := by
    rw [hs]
    exact List.mem_map_of_mem he
  have hm' := (Entry.membership?_showBelow own.dsl (some entry.id) entry).trans hown
  have hscope : s.scope = entry.id :: r.scope := by
    rw [hs]
    rfl
  obtain ⟨t', hr⟩ := hentered.run_leaveScope he' hm' (by rw [hscope, Entry.id_showBelow])
  -- To leave the scope of a visible member is to undo its entering.
  have hback : (leaveScope.run s).2 = r.withBindings t' := by
    rw [hr, hs, Entry.parent?_showBelow]
    conv => rhs; rw [← hn.showBelow_showBelow he hown hv (some entry.id)]
    rfl
  have hanswer := Registry.meets_leaveScope (S := r.scope) entry.id s hscope
  rcases hrun : leaveScope.run s with ⟨_ | left, s'⟩ <;> rw [hrun] at hback hanswer
  · exact ⟨t', hback⟩
  · exact ⟨hanswer.1, t', hback⟩

end Registry

/-- The registry at each stage of a use comes about as `Reached` allows. -/
def Moment.Regular [BindingTable τ] : Moment τ → Prop
  | .started _ r => r.Reached
  | .released _ => True

namespace Session

open Registry

variable [BindingTable τ]

/-- The states within runs of nested uses: those with which a run may begin, those after a use, and
those at each stage of a use. The journal of the session may change at any time. -/
inductive Inside (session : Session τ ω) : State τ ω → Prop where
  | start (state : State τ ω) (h : state.registry.Reached) : Inside session state
  | noted {state : State τ ω} (h : Inside session state) (journal : List (Observation τ ω)) :
      Inside session { state with journal }
  | used {state state' : State τ ω} (h : Inside session state) (depth : Nat) (request : Request)
      (outcome : Except KeywordError (List Value))
      (hrun : (session.invoke depth request).run state = some (outcome, state')) :
      Inside session state'
  | started {state state' : State τ ω} (h : Inside session state) (depth : Nat)
      (request : Request) (stage : Stage)
      (hmoment : .started stage state'.registry ∈ session.moments depth request state) :
      Inside session state'

variable (session : Session τ ω)

section Operations

variable {I : Registry τ → Prop} {invoke : Request → Run τ ω (List Value)}

/-- Where only uses are allowed, operations keep what uses keep. -/
theorem keeps_perform (hinvoke : ∀ request, Run.Keeps I (invoke request))
    (operation : Operation τ ω) (h : operation.OnlyUses) (held : Hold) :
    Run.Keeps I (session.performWith invoke held operation) := by
  induction operation generalizing held with
  | invoke request =>
    cases held with
    | free => exact (hinvoke request).map
    | shared => exact Run.Keeps.throw _
    | exclusive => exact Run.Keeps.throw _
  | resolveType token => exact Run.Keeps.pure _
  | configuration => exact Run.Keeps.pure _
  | whileHeld hold operation ih =>
    unfold performWith
    split
    · exact ih h held
    · exact Run.Keeps.throw _
    · exact ih h .shared
    · exact ih h .exclusive
    · exact Run.Keeps.throw _
  | _ => exact h.elim

/-- So do the blocks of a host. -/
theorem keeps_block (hhost : session.host.Asks Operation.OnlyUses)
    (hinvoke : ∀ request, Run.Keeps I (invoke request)) (block : ScriptBlock) (args : Fields) :
    Run.Keeps I (session.runBlock invoke block args) :=
  Program.keeps_run (fun operation h => session.keeps_perform hinvoke operation h .free) _
    (hhost block args)

end Operations

variable [BindingTable.Lenient τ]

/-- The parts of a use that begins with a given registry. -/
theorem parts_reached (hhost : session.host.Asks Operation.OnlyUses)
    {invoke : Request → Run τ ω (List Value)}
    (hinvoke : ∀ r : Registry τ, r.Reached → ∀ request, Run.Keeps r.Rebound (invoke request))
    {r : Registry τ} (h : r.Reached) :
    Invocation.Parts (session.runBlock invoke) Moment.Regular r.Rebound
      (fun entry => entry ∈ r.entries ∧ entry.visible = true) r.Within := by
  have hn := h.nested
  -- Within the scope of a keyword the registry is the one that is reached by entering it.
  have hwithin : ∀ entry ∈ r.entries, entry.visible = true → ∀ own,
      entry.membership? = some own →
      Reached { r.showBelow own.dsl (some entry.id) with scope := entry.id :: r.scope } := by
    intro entry he hv own hown
    have hr := hn.run_enterScope he hown hv
    have hstep : ScopeStep r ((enterScope entry.id).run r).2 := by
      refine .enter r entry.id ?_ ((hn.distinct.isVisible_eq he).trans hv)
      rw [hn.distinct.isMember_eq he, Entry.isMember, hown]
      rfl
    rw [hr] at hstep
    exact (h.scope hstep).rebind r.bindings
  have hrebound : ∀ {r r' : Registry τ}, r.Reached → r.Rebound r' → r'.Reached := by
    rintro r _ hr ⟨t, rfl⟩
    exact hr.rebind t
  exact {
    load := meets_loadVisible
    enter := fun entry hf hm => hn.meets_enterScope hf.1 hm hf.2
    leave := fun entry hf _ => Step.Meets.conseq (hn.meets_leaveScope hf.1 hf.2) (fun _ hr => hr)
      (fun _ _ hr => ⟨.inl hr.1, hr.2⟩) fun _ _ hr => ⟨trivial, hr⟩
    block := session.keeps_block hhost (hinvoke r h)
    body := by
      rintro entry hf - block state ⟨own, hown, hr⟩
      exact Run.Meets.conseq (session.keeps_block hhost
        (hinvoke _ (hwithin entry hf.1 hf.2 own hown)) block []) (fun _ h => h)
        (fun _ _ h => ⟨own, hown, h⟩) (fun _ _ h => ⟨own, hown, h⟩) state hr
    started_hook := fun _ hr => ⟨hrebound h hr, hrebound h hr⟩
    started_body := fun _ _ _ _ hr => hrebound h hr
    started_within := by
      rintro entry _ hf - ⟨own, hown, hr⟩
      exact hrebound (hwithin entry hf.1 hf.2 own hown) hr
    released := fun _ => trivial }

/-- A use changes the bindings at most. -/
theorem keeps_invoke (hhost : session.host.Asks Operation.OnlyUses) (depth : Nat)
    (r : Registry τ) (h : r.Reached) (request : Request) :
    Run.Keeps r.Rebound (session.invoke depth request) :=
  session.keeps_invoke_of_parts (ι := { r : Registry τ // r.Reached })
    (fun _ hinvoke r => session.parts_reached hhost (fun r hr => hinvoke ⟨r, hr⟩) r.2) depth ⟨r, h⟩
    request

theorem regular_moments (hhost : session.host.Asks Operation.OnlyUses) (depth : Nat)
    (request : Request) (state : State τ ω) (h : state.registry.Reached) :
    ∀ moment ∈ session.moments depth request state, moment.Regular :=
  session.moments_of_parts (ι := { r : Registry τ // r.Reached })
    (fun _ hinvoke r => session.parts_reached hhost (fun r hr => hinvoke ⟨r, hr⟩) r.2) depth request
    ⟨state.registry, h⟩ state (Rebound.refl _)

theorem rebound_of_invoke (hhost : session.host.Asks Operation.OnlyUses) {depth : Nat}
    {request : Request} {outcome : Except KeywordError (List Value)} {state state' : State τ ω}
    (h : state.registry.Reached)
    (hrun : (session.invoke depth request).run state = some (outcome, state')) :
    state.registry.Rebound state'.registry := by
  have hkeeps := session.keeps_invoke hhost depth _ h request state (Rebound.refl _)
  rw [hrun] at hkeeps
  cases outcome <;> exact hkeeps

theorem Inside.reached {session : Session τ ω} (hhost : session.host.Asks Operation.OnlyUses)
    {state : State τ ω} (h : session.Inside state) : state.registry.Reached := by
  induction h with
  | start _ h => exact h
  | noted _ _ ih => exact ih
  | used _ _ _ _ hrun ih =>
    obtain ⟨t, ht⟩ := session.rebound_of_invoke hhost ih hrun
    rw [ht]
    exact ih.rebind t
  | started _ depth request _ hmoment ih =>
    exact session.regular_moments hhost depth request _ ih _ hmoment

/-- A use within a run of nested uses leaves the same keywords entered and visible, whether it fails
or not. -/
theorem dispatch_transparent (hhost : session.host.Asks Operation.OnlyUses) {state : State τ ω}
    (h : session.Inside state) (depth : Nat) (request : Request)
    (outcome : Except KeywordError (List Value)) (state' : State τ ω)
    (hrun : (session.invoke depth request).run state = some (outcome, state')) :
    state'.registry.scope = state.registry.scope ∧
      state'.registry.visibility = state.registry.visibility := by
  obtain ⟨t, ht⟩ := session.rebound_of_invoke hhost (h.reached hhost) hrun
  rw [ht]
  exact ⟨rfl, rfl⟩

/-- A host whose bodies use the keyword `Page` and fail if that fails. -/
def pagingHost : Host LayeredTable Unit where
  resolveType token := .ok ⟨token⟩
  execute _ _ := .invoke (.ofKeyword "Page" (.map [])) fun
    | .ok items => .finish (.ok items)
    | .error e => .finish (.error (.keyword e))

theorem pagingHost_onlyUses : pagingHost.Asks Operation.OnlyUses := by
  refine fun _ _ => ⟨trivial, fun answer => ?_⟩
  rcases answer with e | reply
  · trivial
  · cases reply <;> trivial

theorem dispatch_transparent_sample :
    let session : Session LayeredTable Unit := { host := pagingHost }
    let request := Request.ofKeyword "Site" (.script ⟨""⟩)
    let state : State LayeredTable Unit := { registry := sample }
    session.host.Asks Operation.OnlyUses ∧ session.Inside state ∧
      ∃ outcome state', (session.invoke 2 request).run state = some (outcome, state') ∧
        state'.registry.scope = sample.scope ∧ state'.registry.visibility = sample.visibility := by
  intro session request state
  have hhost : session.host.Asks Operation.OnlyUses := pagingHost_onlyUses
  have hinside : session.Inside state := .start state sample_reached
  obtain ⟨⟨outcome, state'⟩, hrun⟩ :=
    Option.isSome_iff_exists.1 (show ((session.invoke 2 request).run state).isSome = true by
      decide +kernel)
  exact ⟨hhost, hinside, outcome, state', hrun,
    session.dispatch_transparent hhost hinside 2 request outcome state' hrun⟩

end Session
end KeywordScope
