import KeywordScope.Binding.Refusing
import KeywordScope.Proofs.Scope.Balance
import KeywordScope.Proofs.Scope.Lifo

/-!
# Guards over a run

Any number of guards may be on one registry at a time. They are released and dropped in any order,
and releases may be tried while the registry is in use, and again after the scope was left.

* `Guard.run_release_left`, `Guard.run_release_busy`, `Guard.run_release_free`: what a release does.
* `GuardAction`, `Guarded`, `Guarded.Step`: a registry with guards, and what their holders do.
* `Guarded.Step.cases`: a step adds an armed guard and its keyword, or takes an armed guard and the
  innermost keyword, or changes neither the armed guards nor the scopes.
* `Guarded.guards_pop_once`: what holds at every point of a run of such steps.
-/

namespace KeywordScope

open Registry

variable {τ : Type}

namespace Registry

variable [BindingTable τ]

/-- Leaving takes the innermost scope away, whatever its outcome. -/
theorem scope_leaveScope (r : Registry τ) : (leaveScope.run r).2.scope = r.scope.tail := by
  rcases hs : r.scope with _ | ⟨id, outer⟩
  · rw [leaveScope, Step.run_bind_ok (Step.run_get r), hs]
    exact hs
  · have hleft := meets_leaveScope id r hs
    rcases hrun : leaveScope.run r with ⟨_ | _, r'⟩ <;> rw [hrun] at hleft <;> exact hleft.2

end Registry

/-! ## Single guards -/

namespace Guard

variable [BindingTable τ] {guard : Guard} {r : Registry τ}

/-- What a guard answers once it left the innermost scope. -/
def answer (guard : Guard) : Except KeywordError Keyword.Id → Except KeywordError Keyword.Id
  | .error e => .error e
  | .ok popped =>
    if popped = guard.keyword then .ok popped
    else .error (.invalidState (.outOfOrder guard.keyword popped))

theorem run_release_left (h : guard.released = true) (inUse : Bool) :
    (guard.release inUse).run r =
      ((.error (.invalidOperation (.scopeLeft guard.keyword)), guard), r) := by
  rw [release, if_pos h]
  rfl

theorem run_release_busy (h : guard.released = false) :
    (guard.release true).run r = ((.error (.invalidState .inUse), guard), r) := by
  rw [release, if_neg (by simp [h]), if_pos rfl]
  rfl

/-- A free release leaves the innermost scope, and the guard is over also if that fails. -/
theorem run_release_free (h : guard.released = false) :
    (guard.release false).run r =
      ((guard.answer (leaveScope.run r).1, { guard with released := true }),
        (leaveScope.run r).2) := by
  have hbind : ∀ {α β : Type} (x : StateM (Registry τ) α) (f : α → StateM (Registry τ) β),
      (x >>= f) r = f (x r).1 (x r).2 := fun _ _ => rfl
  rw [release, if_neg (by simp [h]), if_neg (by simp)]
  show (leaveScope.run >>= _ : StateM (Registry τ) _) r = _
  rw [hbind]
  show (_ : StateM (Registry τ) _) (leaveScope.run r).2 = _
  rcases leaveScope.run r with ⟨_ | popped, s⟩
  · rfl
  · by_cases hp : popped = guard.keyword
    · simp only [hp, answer, ↓reduceIte]
      rfl
    · simp only [hp, answer, ↓reduceIte]
      rfl

theorem run_drop_left (h : guard.released = true) (inUse : Bool) :
    ((guard.drop inUse).run r).2 = r := by
  rw [drop, h]
  rfl

theorem run_drop_free (h : guard.released = false) :
    ((guard.drop false).run r).2 = (leaveScope.run r).2 := by
  rw [drop, h]
  rfl

/-- The keyword of a guard that is still to leave its scope. -/
def armed? (guard : Guard) : Option Keyword.Id :=
  if guard.released then none else some guard.keyword

@[simp] theorem armed?_of_left (h : guard.released = true) : guard.armed? = none := by
  rw [armed?, if_pos h]

@[simp] theorem armed?_of_armed (h : guard.released = false) :
    guard.armed? = some guard.keyword := by
  rw [armed?, if_neg (by simp [h])]

end Guard

/-! ## Steps -/

/-- What the holders of guards do. A guard goes by its place in the order of entry. -/
inductive GuardAction where
  | enter (id : Keyword.Id)
  | release (place : Nat) (inUse : Bool)
  | drop (place : Nat) (inUse : Bool)
  deriving DecidableEq

/-- The action is a free release of this guard, or drops it. -/
def GuardAction.disarms (place : Nat) : GuardAction → Bool
  | .enter _ => false
  | .release other inUse => other == place && !inUse
  | .drop other _ => other == place

/-- A registry with the guards on it, in the order of entry. Those that were dropped left their
places empty. -/
structure Guarded (τ : Type) where
  registry : Registry τ
  guards : List (Option Guard) := []

namespace Guarded

/-- The keywords of those of these guards that are still to leave their scopes. -/
def keywords (guards : List (Option Guard)) : List Keyword.Id :=
  guards.filterMap (·.bind Guard.armed?)

/-- The guards that neither a free release nor a drop is known of. -/
def armedPlaces (trace : List GuardAction) (s : Guarded τ) : List Nat :=
  (List.range s.guards.length).filter fun place => trace.all (!·.disarms place)

/-- The guard is armed, and no other armed one was made later. -/
structure Newest (s : Guarded τ) (place : Nat) (guard : Guard) : Prop where
  present : s.guards[place]? = some (some guard)
  armed : guard.released = false
  last : keywords (s.guards.drop (place + 1)) = []

/-- An armed guard is released or dropped only if it is the newest one. -/
def InOrder (s : Guarded τ) (action : GuardAction) : Prop :=
  ∀ place guard, action.disarms place = true → s.guards[place]? = some (some guard) →
    guard.released = false → s.Newest place guard

/-! ### Armed guards -/

variable {s : Guarded τ} {place : Nat} {guard : Guard}

/-- The keywords of the armed guards, by the guards before, at and after a place. -/
theorem keywords_eq (hp : s.guards[place]? = some (some guard)) :
    keywords s.guards = keywords (s.guards.take place) ++
      (guard.armed?.toList ++ keywords (s.guards.drop (place + 1))) := by
  obtain ⟨hlt, hg⟩ := List.getElem?_eq_some_iff.1 hp
  have hsplit : s.guards = s.guards.take place ++ some guard :: s.guards.drop (place + 1) := by
    rw [← hg, List.getElem_cons_drop, List.take_append_drop]
  conv_lhs => rw [hsplit, keywords, List.filterMap_append, List.filterMap_cons]
  simp only [Option.bind_some]
  cases guard.armed? <;> rfl

theorem keywords_set (hp : s.guards[place]? = some (some guard)) (guard? : Option Guard) :
    keywords (s.guards.set place guard?) = keywords (s.guards.take place) ++
      ((guard?.bind Guard.armed?).toList ++ keywords (s.guards.drop (place + 1))) := by
  obtain ⟨hlt, -⟩ := List.getElem?_eq_some_iff.1 hp
  rw [keywords, List.set_eq_take_append_cons_drop, if_pos hlt, List.filterMap_append,
    List.filterMap_cons]
  cases guard?.bind Guard.armed? <;> rfl

/-- A guard that stays as it is does not change what is armed. -/
theorem keywords_set_of_eq (hp : s.guards[place]? = some (some guard)) {guard? : Option Guard}
    (h : guard?.bind Guard.armed? = guard.armed?) :
    keywords (s.guards.set place guard?) = keywords s.guards := by
  rw [keywords_set hp, keywords_eq hp, h]

/-- A guard that is disarmed takes its keyword out, wherever it stands. -/
theorem keywords_disarm (hp : s.guards[place]? = some (some guard)) (hr : guard.released = false)
    (guard? : Option Guard) (h : guard?.bind Guard.armed? = none) :
    keywords s.guards =
        keywords (s.guards.take place) ++ guard.keyword :: keywords (s.guards.drop (place + 1)) ∧
      keywords (s.guards.set place guard?) =
        keywords (s.guards.take place) ++ keywords (s.guards.drop (place + 1)) := by
  rw [keywords_eq hp, keywords_set hp, h, Guard.armed?_of_armed hr]
  exact ⟨rfl, rfl⟩

/-- At this place there was a guard, and it is armed no longer. -/
def Spent (s : Guarded τ) (place : Nat) : Prop :=
  ∃ guard?, s.guards[place]? = some guard? ∧ guard?.bind Guard.armed? = none

theorem spent_at (hp : s.guards[place]? = some (some guard)) :
    s.Spent place ↔ guard.released = true := by
  simp [Spent, hp, Guard.armed?]

theorem spent_set (hp : s.guards[place]? = some (some guard)) (r : Registry τ)
    (guard? : Option Guard) (other : Nat) :
    Spent ⟨r, s.guards.set place guard?⟩ other ↔
      if other = place then guard?.bind Guard.armed? = none else s.Spent other := by
  obtain ⟨hlt, -⟩ := List.getElem?_eq_some_iff.1 hp
  unfold Spent
  split
  · next heq =>
    subst heq
    simp [List.getElem?_set_self hlt]
  · next hne => rw [List.getElem?_set_ne (Ne.symm hne)]

/-! ### Actions -/

variable [BindingTable τ]

/-- What an action changes. A busy registry refuses releases, and no armed guard is dropped then. -/
inductive Step : GuardAction → Guarded τ → Guarded τ → Prop where
  | enter {s : Guarded τ} {id : Keyword.Id} {guard : Guard} {r : Registry τ}
      (h : (Guard.enter id).run s.registry = (.ok guard, r)) :
      Step (.enter id) s ⟨r, s.guards ++ [some guard]⟩
  | refused {s : Guarded τ} {id : Keyword.Id} {e : KeywordError} {r : Registry τ}
      (h : (Guard.enter id).run s.registry = (.error e, r)) : Step (.enter id) s ⟨r, s.guards⟩
  | release {s : Guarded τ} {place : Nat} {guard : Guard} (inUse : Bool)
      (hp : s.guards[place]? = some (some guard)) :
      Step (.release place inUse) s
        ⟨((guard.release inUse).run s.registry).2,
          s.guards.set place (some ((guard.release inUse).run s.registry).1.2)⟩
  | drop {s : Guarded τ} {place : Nat} {guard : Guard} (inUse : Bool)
      (hp : s.guards[place]? = some (some guard)) (hu : inUse = true → guard.released = true) :
      Step (.drop place inUse) s
        ⟨((guard.drop inUse).run s.registry).2, s.guards.set place none⟩

/-- The steps from a registry without guards, as far as they are allowed, the last action at the
end. -/
inductive Reached (allowed : Guarded τ → GuardAction → Prop) (r : Registry τ) :
    List GuardAction → Guarded τ → Prop where
  | start : Reached allowed r [] ⟨r, []⟩
  | step {trace : List GuardAction} {action : GuardAction} {s s' : Guarded τ}
      (h : Reached allowed r trace s) (ha : allowed s action) (hstep : Step action s s') :
      Reached allowed r (trace ++ [action]) s'

/-! ## What a step does -/

variable {s' : Guarded τ} {action : GuardAction}

theorem run_enter (id : Keyword.Id) (r : Registry τ) :
    match (Guard.enter id).run r with
    | (.ok guard, r') => guard = { keyword := id } ∧ r'.scope = id :: r.scope
    | (.error _, r') => r'.scope = r.scope := by
  have h := meets_enterScope id r rfl
  rw [Guard.enter, Step.run_bind]
  rcases hrun : (enterScope id).run r with ⟨_ | _, r'⟩ <;> rw [hrun] at h
  · exact h
  · exact ⟨rfl, h⟩

/-- What a step is to the armed guards and to the scopes: it adds a guard and its keyword, it
changes neither, or it disarms a guard and takes the innermost scope away. -/
theorem Step.cases (h : Step action s s') :
    (∃ id, keywords s'.guards = keywords s.guards ++ [id] ∧
      s'.registry.scope = id :: s.registry.scope) ∨
    (keywords s'.guards = keywords s.guards ∧ s'.registry.scope = s.registry.scope) ∨
    ∃ place guard front, action.disarms place = true ∧
      s.guards[place]? = some (some guard) ∧ guard.released = false ∧
      keywords s.guards = front ++ guard.keyword :: keywords (s.guards.drop (place + 1)) ∧
      keywords s'.guards = front ++ keywords (s.guards.drop (place + 1)) ∧
      s'.registry.scope = s.registry.scope.tail := by
  cases h with
  | @enter _ id guard r h =>
    have hrun := run_enter id s.registry
    rw [h] at hrun
    obtain ⟨rfl, hscope⟩ := hrun
    exact .inl ⟨id, List.filterMap_append, hscope⟩
  | @refused _ id e r h =>
    have hrun := run_enter id s.registry
    rw [h] at hrun
    exact .inr (.inl ⟨rfl, hrun⟩)
  | @release _ place guard inUse hp =>
    cases hr : guard.released with
    | true =>
      rw [Guard.run_release_left hr]
      exact .inr (.inl ⟨keywords_set_of_eq hp rfl, rfl⟩)
    | false =>
      cases inUse with
      | true =>
        rw [Guard.run_release_busy hr]
        exact .inr (.inl ⟨keywords_set_of_eq hp rfl, rfl⟩)
      | false =>
        rw [Guard.run_release_free hr]
        obtain ⟨hk, hk'⟩ := keywords_disarm hp hr (some { guard with released := true }) rfl
        exact .inr (.inr ⟨place, guard, _, by simp [GuardAction.disarms], hp, hr, hk, hk',
          scope_leaveScope s.registry⟩)
  | @drop _ place guard inUse hp hu =>
    cases hr : guard.released with
    | true =>
      rw [Guard.run_drop_left hr]
      exact .inr (.inl ⟨keywords_set_of_eq hp (Guard.armed?_of_left hr).symm, rfl⟩)
    | false =>
      obtain rfl : inUse = false := by
        cases inUse with
        | false => rfl
        | true => exact (hu rfl).symm.trans hr
      rw [Guard.run_drop_free hr]
      obtain ⟨hk, hk'⟩ := keywords_disarm hp hr none rfl
      exact .inr (.inr ⟨place, guard, _, by simp [GuardAction.disarms], hp, hr, hk, hk',
        scope_leaveScope s.registry⟩)

/-- A guard is spent once an action disarmed it. -/
theorem Step.spent_iff (h : Step action s s') (other : Nat) :
    s'.Spent other ↔ s.Spent other ∨ action.disarms other = true := by
  cases h with
  | @enter _ id guard r h =>
    have hrun := run_enter id s.registry
    rw [h] at hrun
    obtain ⟨rfl, -⟩ := hrun
    simp only [Spent, GuardAction.disarms, Bool.false_eq_true, or_false]
    rcases Nat.lt_trichotomy other s.guards.length with hlt | heq | hgt
    · rw [List.getElem?_append_left hlt]
    · subst heq
      simp [Guard.armed?]
    · rw [List.getElem?_eq_none (by simp; omega), List.getElem?_eq_none (by omega)]
  | refused h => simp [Spent, GuardAction.disarms]
  | @release _ place guard inUse hp =>
    have hafter : (some ((guard.release inUse).run s.registry).1.2).bind Guard.armed? = none ↔
        guard.released = true ∨ inUse = false := by
      cases hr : guard.released with
      | true => simp [Guard.run_release_left hr, hr]
      | false =>
        cases inUse with
        | true => simp [Guard.run_release_busy hr, hr]
        | false => simp [Guard.run_release_free hr]
    rw [spent_set hp]
    split
    · next heq => rw [heq, hafter, spent_at hp]; simp [GuardAction.disarms]
    · next hne => simp [GuardAction.disarms, Ne.symm hne]
  | @drop _ place guard inUse hp hu =>
    rw [spent_set hp]
    split
    · next heq => simp [heq, GuardAction.disarms]
    · next hne => simp [GuardAction.disarms, Ne.symm hne]

/-! ## Runs -/

variable {allowed : Guarded τ → GuardAction → Prop} {r : Registry τ} {trace : List GuardAction}

/-- The guards that are spent are those that an action disarmed. -/
theorem Reached.spent_iff (h : Reached allowed r trace s) (place : Nat) :
    s.Spent place ↔ ∃ action ∈ trace, action.disarms place = true := by
  induction h with
  | start => simp [Spent]
  | step _ _ hstep ih => rw [hstep.spent_iff, ih]; simp

/-- On the stack from before there are as many keywords as there are armed guards. -/
theorem Reached.scope (h : Reached allowed r trace s) :
    ∃ ids, s.registry.scope = ids ++ r.scope ∧ ids.length = (keywords s.guards).length := by
  induction h with
  | start => exact ⟨[], rfl, rfl⟩
  | step _ _ hstep ih =>
    obtain ⟨ids, hscope, hlen⟩ := ih
    obtain ⟨id, hk, hs⟩ | ⟨hk, hs⟩ | ⟨_, _, front, -, -, -, hk, hk', hs⟩ := hstep.cases
    · exact ⟨id :: ids, by rw [hs, hscope]; rfl, by simp [hk, hlen]⟩
    · exact ⟨ids, hs.trans hscope, by rw [hk, hlen]⟩
    · rw [hk, List.length_append, List.length_cons] at hlen
      obtain ⟨id, ids, rfl⟩ := List.exists_cons_of_length_pos (l := ids) (by omega)
      refine ⟨ids, by rw [hs, hscope]; rfl, ?_⟩
      rw [List.length_cons] at hlen
      rw [hk', List.length_append]
      omega

/-- If the guards end in reverse order of entry, then the keywords on the stack are theirs. -/
theorem Reached.scope_inOrder (h : Reached allowed r trace s)
    (horder : ∀ s action, allowed s action → s.InOrder action) :
    s.registry.scope = (keywords s.guards).reverse ++ r.scope := by
  induction h with
  | start => rfl
  | step _ ha hstep ih =>
    obtain ⟨id, hk, hs⟩ | ⟨hk, hs⟩ | ⟨place, guard, front, hd, hp, hr, hk, hk', hs⟩ := hstep.cases
    · rw [hs, hk, ih, List.reverse_append]
      rfl
    · rw [hs, hk, ih]
    · have hlast := (horder _ _ ha place guard hd hp hr).last
      rw [hlast] at hk hk'
      rw [hs, hk', ih, hk, List.reverse_append, List.append_nil]
      rfl

/-- The guards that are armed, by what was done and by their flags. -/
theorem Reached.mem_armedPlaces (h : Reached allowed r trace s) (place : Nat) :
    place ∈ s.armedPlaces trace ↔ place < s.guards.length ∧ ¬ s.Spent place := by
  rw [h.spent_iff]
  simp [armedPlaces]

theorem Reached.length_armedPlaces (h : Reached allowed r trace s) :
    (s.armedPlaces trace).length = (keywords s.guards).length := by
  have hguards : s.guards = (List.range s.guards.length).map fun place => s.guards[place]?.join := by
    refine List.ext_getElem (by simp) fun place hlt _ => ?_
    simp [hlt]
  have hfilter : s.armedPlaces trace = (List.range s.guards.length).filter fun place =>
      (s.guards[place]?.join.bind Guard.armed?).isSome := by
    refine List.filter_congr fun place hplace => ?_
    have hlt := List.mem_range.1 hplace
    have hspent := h.spent_iff place
    rw [Spent, List.getElem?_eq_getElem hlt] at hspent
    rw [Bool.eq_iff_iff, List.getElem?_eq_getElem hlt, Option.join_some, ← Option.ne_none_iff_isSome]
    simp only [List.all_eq_true, Bool.not_eq_true', Option.some.injEq, exists_eq_left'] at hspent ⊢
    rw [ne_eq, hspent]
    simp
  rw [hfilter, ← List.countP_eq_length_filter, keywords, List.length_filterMap_eq_countP]
  conv_rhs => rw [hguards, List.countP_map]
  rfl

/-- At every point of a run, the stack from before is there, and above it as many keywords as there
are guards without a free release or a drop. Such a guard does nothing and stays as it is if it is
released while the registry is in use. A guard with a free release behind it answers any other
release with an error, and does nothing. If guards end in reverse order of entry, then the release
of the newest one takes its own keyword off the stack, and answers with it unless leaving the scope
failed. -/
theorem guards_pop_once (h : Reached allowed r trace s) :
    (∃ ids, s.registry.scope = ids ++ r.scope ∧ ids.length = (s.armedPlaces trace).length) ∧
    (∀ place guard, place ∈ s.armedPlaces trace → s.guards[place]? = some (some guard) →
      (guard.release true).run s.registry = ((.error (.invalidState .inUse), guard), s.registry)) ∧
    (∀ place guard inUse, .release place false ∈ trace → s.guards[place]? = some (some guard) →
      (guard.release inUse).run s.registry =
        ((.error (.invalidOperation (.scopeLeft guard.keyword)), guard), s.registry)) ∧
    ((∀ s action, allowed s action → s.InOrder action) → ∀ place guard, s.Newest place guard →
      ∃ answer left, (guard.release false).run s.registry =
          ((answer, { guard with released := true }), left) ∧
        s.registry.scope = guard.keyword :: left.scope ∧
        (answer = .ok guard.keyword ∨
          ∃ e, answer = .error e ∧ leaveScope.run s.registry = (.error e, left))) := by
  refine ⟨?_, ?_, ?_, ?_⟩
  · obtain ⟨ids, hscope, hlen⟩ := h.scope
    exact ⟨ids, hscope, hlen.trans h.length_armedPlaces.symm⟩
  · intro place guard harmed hp
    have hspent := ((h.mem_armedPlaces place).1 harmed).2
    rw [spent_at hp, Bool.not_eq_true] at hspent
    exact Guard.run_release_busy hspent
  · intro place guard inUse hmem hp
    have hspent := (h.spent_iff place).2 ⟨_, hmem, by simp [GuardAction.disarms]⟩
    exact Guard.run_release_left ((spent_at hp).1 hspent) inUse
  · intro horder place guard hnew
    have hscope := h.scope_inOrder horder
    rw [(keywords_disarm hnew.present hnew.armed none rfl).1, hnew.last,
      List.reverse_append] at hscope
    have hscope : s.registry.scope = guard.keyword :: _ := hscope
    refine ⟨_, _, Guard.run_release_free hnew.armed, ?_, ?_⟩
    · rw [scope_leaveScope, hscope]
      rfl
    · have hleft := meets_leaveScope guard.keyword s.registry hscope
      rcases hrun : leaveScope.run s.registry with ⟨e | id, left⟩ <;> rw [hrun] at hleft
      · exact .inr ⟨e, rfl, rfl⟩
      · obtain ⟨rfl, -⟩ := hleft
        exact .inl (if_pos rfl)

/-- A registry whose table has come to refuse the name of the root of a language. -/
def sampleRefusing : Registry (RefusingTable LayeredTable) :=
  let r := ((declare {} (fun token => some ⟨token⟩) "web" sampleTree none).run
    (.ofConfig {} (⟨{}, [], [], []⟩ : RefusingTable LayeredTable))).2
  { r with bindings := ⟨r.bindings.table, ["Site"], [], []⟩ }

/-- The registry with a guard on the root. -/
def sampleGuarded : Guarded (RefusingTable LayeredTable) where
  registry := ((enterScope ⟨1⟩).run sampleRefusing).2
  guards := [some { keyword := ⟨1⟩ }]

theorem guards_pop_once_sample :
    Reached InOrder sampleRefusing [.enter ⟨1⟩, .release 0 true] sampleGuarded ∧
      sampleGuarded.registry.scope = [⟨1⟩] ∧
      ∃ e left, (Guard.release { keyword := ⟨1⟩ } false).run sampleGuarded.registry =
          ((.error e, { keyword := ⟨1⟩, released := true }), left) ∧ left.scope = [] := by
  have henter : (Guard.enter ⟨1⟩).run sampleRefusing =
      (.ok { keyword := ⟨1⟩ }, sampleGuarded.registry) := by
    have hentered : (enterScope ⟨1⟩).run sampleRefusing = (.ok (), sampleGuarded.registry) :=
      Step.run_of_toOption (by decide +kernel)
    rw [Guard.enter, Step.run_bind_ok hentered]
    rfl
  have hbusy : Step (.release 0 true) sampleGuarded sampleGuarded := by
    have hstep := Step.release (s := sampleGuarded) true (show sampleGuarded.guards[0]? = _ from rfl)
    rwa [Guard.run_release_busy rfl] at hstep
  have hrun : Reached InOrder sampleRefusing ([.enter ⟨1⟩] ++ [.release 0 true]) sampleGuarded :=
    (Reached.start.step (fun _ _ h => nomatch h) (.enter henter)).step
      (fun _ _ h => by simp [GuardAction.disarms] at h) hbusy
  have hscope : sampleGuarded.registry.scope = [⟨1⟩] := by decide +kernel
  obtain ⟨answer, left, hrelease, hleft, hanswer⟩ :=
    (guards_pop_once hrun).2.2.2 (fun _ _ h => h) 0 { keyword := ⟨1⟩ } ⟨rfl, rfl, rfl⟩
  rw [hscope] at hleft
  have hrefused : (((Guard.release { keyword := ⟨1⟩ } false).run
      sampleGuarded.registry).1.1).toOption = none := by decide +kernel
  rw [hrelease] at hrefused
  obtain rfl | ⟨e, rfl, -⟩ := hanswer
  · cases hrefused
  · exact ⟨hrun, hscope, e, left, hrelease, (List.cons.inj hleft).2.symm⟩

end Guarded
end KeywordScope
