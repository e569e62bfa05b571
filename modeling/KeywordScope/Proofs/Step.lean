/-!
# Steps that may fail

A step takes a state to an outcome and a next state, which is there also if the step fails
(`ExceptT ε (StateM σ)`).

* `run_pure`, `run_bind`, `run_bind_ok`, …: the run of a step from those of its parts.
* `Meets P step Q E`: what holds after the step from a state that satisfies `P`, by its outcome.
* `Keeps I step`: the step keeps the invariant `I` of the state, whether it fails or not. An
  invariant is kept by a step if its parts keep it (`Keeps.bind`, `Keeps.forM`, …).
* `Fails F step`: the step fails with errors that satisfy `F` only.
-/

namespace KeywordScope
namespace Step

variable {ε σ α β : Type}

/-! ## Runs -/

theorem run_pure (a : α) (s : σ) :
    (pure a : ExceptT ε (StateM σ) α).run s = (.ok a, s) := rfl

theorem run_get (s : σ) : (get : ExceptT ε (StateM σ) σ).run s = (.ok s, s) := rfl

theorem run_set (s s' : σ) :
    (set s' : ExceptT ε (StateM σ) PUnit).run s = (.ok ⟨⟩, s') := rfl

theorem run_modify (f : σ → σ) (s : σ) :
    (modify f : ExceptT ε (StateM σ) PUnit).run s = (.ok ⟨⟩, f s) := rfl

theorem run_bind (x : ExceptT ε (StateM σ) α) (f : α → ExceptT ε (StateM σ) β) (s : σ) :
    (x >>= f).run s =
      match x.run s with
      | (.ok a, s') => (f a).run s'
      | (.error e, s') => (.error e, s') := by
  show (match x.run s with | (r, s') => (ExceptT.bindCont f r).run s') = _
  rcases x.run s with ⟨_ | _, _⟩ <;> rfl

/-- A step that begins with one that succeeds goes on from the state that it reaches. -/
theorem run_bind_ok {x : ExceptT ε (StateM σ) α} {f : α → ExceptT ε (StateM σ) β} {s s' : σ}
    {a : α} (h : x.run s = (.ok a, s')) : (x >>= f).run s = (f a).run s' := by
  rw [run_bind, h]

/-- A step that begins with one that fails goes no further. -/
theorem run_bind_error {x : ExceptT ε (StateM σ) α} {f : α → ExceptT ε (StateM σ) β} {s s' : σ}
    {e : ε} (h : x.run s = (.error e, s')) : (x >>= f).run s = (.error e, s') := by
  rw [run_bind, h]

theorem run_map (f : α → β) (x : ExceptT ε (StateM σ) α) (s : σ) :
    (f <$> x).run s = ((x.run s).1.map f, (x.run s).2) := by
  rw [map_eq_pure_bind, run_bind]
  rcases x.run s with ⟨_ | _, _⟩ <;> rfl

theorem run_tryCatch (x : ExceptT ε (StateM σ) α) (f : ε → ExceptT ε (StateM σ) α) (s : σ) :
    (tryCatch x f).run s =
      match x.run s with
      | (.ok a, s') => (.ok a, s')
      | (.error e, s') => (f e).run s' := by
  have e : (tryCatch x f).run s =
      (match (x.run s).1 with
        | .ok a => pure (.ok a)
        | .error e => (f e).run : StateM σ (Except ε α)).run (x.run s).2 := rfl
  rw [e]
  rcases x.run s with ⟨_ | _, _⟩ <;> rfl

theorem run_lift (x : StateM σ α) (s : σ) :
    (liftM x : ExceptT ε (StateM σ) α).run s = (.ok (x.run s).1, (x.run s).2) := rfl

/-- Giving the answer up changes nothing else. -/
theorem run_discard_ok {x : ExceptT ε (StateM σ) α} {s s' : σ} {a : α}
    (h : x.run s = (.ok a, s')) : (discard x).run s = (.ok ⟨⟩, s') := by
  show (Function.const α PUnit.unit <$> x).run s = _
  rw [map_eq_pure_bind, run_bind_ok h, run_pure, Function.const]

theorem run_discard_error {x : ExceptT ε (StateM σ) α} {s s' : σ} {e : ε}
    (h : x.run s = (.error e, s')) : (discard x).run s = (.error e, s') := by
  show (Function.const α PUnit.unit <$> x).run s = _
  rw [map_eq_pure_bind, run_bind_error h]

/-- A step answers if its outcome is known to be an answer. -/
theorem run_of_toOption {x : ExceptT ε (StateM σ) α} {s : σ} {a : α}
    (h : (x.run s).1.toOption = some a) : x.run s = (.ok a, (x.run s).2) := by
  rcases hrun : x.run s with ⟨_ | b, s'⟩ <;> rw [hrun] at h
  · cases h
  · cases h
    rfl

/-- A step fails if its outcome is known to be no answer. -/
theorem run_of_toOption_eq_none {x : ExceptT ε (StateM σ) α} {s : σ}
    (h : (x.run s).1.toOption = none) : ∃ e, x.run s = (.error e, (x.run s).2) := by
  rcases hrun : x.run s with ⟨e | a, s'⟩ <;> rw [hrun] at h
  · exact ⟨e, rfl⟩
  · cases h

/-! ## Conditions -/

/-- From a state that satisfies `P`, the step answers and ends as `Q` says, or fails as `E` says. -/
def Meets (P : σ → Prop) (x : ExceptT ε (StateM σ) α) (Q : α → σ → Prop) (E : ε → σ → Prop) :
    Prop :=
  ∀ s, P s →
    match x.run s with
    | (.ok a, s') => Q a s'
    | (.error e, s') => E e s'

namespace Meets

variable {P : σ → Prop} {Q : α → σ → Prop} {E : ε → σ → Prop}

theorem pure {a : α} (h : ∀ s, P s → Q a s) :
    Meets P (pure a : ExceptT ε (StateM σ) α) Q E := h

theorem throw {e : ε} (h : ∀ s, P s → E e s) :
    Meets P (throw e : ExceptT ε (StateM σ) α) Q E := h

theorem bind {R : β → σ → Prop} {x : ExceptT ε (StateM σ) β} {f : β → ExceptT ε (StateM σ) α}
    (hx : Meets P x R E) (hf : ∀ b, Meets (R b) (f b) Q E) : Meets P (x >>= f) Q E := by
  intro s hs
  have h := hx s hs
  rw [run_bind]
  rcases hr : x.run s with ⟨_ | b, s'⟩ <;> rw [hr] at h
  · exact h
  · exact hf b s' h

theorem get : Meets P (get : ExceptT ε (StateM σ) σ) (fun _ => P) E := fun _ h => h

theorem modify {f : σ → σ} {R : σ → Prop} (h : ∀ s, P s → R (f s)) :
    Meets P (modify f : ExceptT ε (StateM σ) PUnit) (fun _ => R) E := h

/-- A step that reads the state first goes on from a state that is known. -/
theorem get_bind {f : σ → ExceptT ε (StateM σ) α} (h : ∀ s, P s → Meets (· = s) (f s) Q E) :
    Meets P (MonadState.get >>= f : ExceptT ε (StateM σ) α) Q E :=
  fun s hs => h s hs s rfl

theorem discard {R : σ → Prop} {x : ExceptT ε (StateM σ) β} (hx : Meets P x (fun _ => R) E) :
    Meets P (discard x) (fun _ => R) E := by
  show Meets P (Function.const β PUnit.unit <$> x) _ E
  rw [map_eq_pure_bind]
  exact hx.bind fun _ => Meets.pure fun _ hs => hs

theorem conseq {P' : σ → Prop} {Q' : α → σ → Prop} {E' : ε → σ → Prop}
    {x : ExceptT ε (StateM σ) α} (hx : Meets P x Q E) (hP : ∀ s, P' s → P s)
    (hQ : ∀ a s, Q a s → Q' a s) (hE : ∀ e s, E e s → E' e s) : Meets P' x Q' E' := by
  intro s hs
  have h := hx s (hP s hs)
  rcases hr : x.run s with ⟨_ | a, s'⟩ <;> rw [hr] at h
  · exact hE _ s' h
  · exact hQ a s' h

/-- What holds of the next state, whether the step fails or not. -/
theorem of_run {R : σ → Prop} {x : ExceptT ε (StateM σ) α} (h : ∀ s, P s → R (x.run s).2) :
    Meets P x (fun _ => R) fun _ => R := by
  intro s hs
  have h := h s hs
  rcases hr : x.run s with ⟨_ | _, _⟩ <;> rw [hr] at h <;> exact h

/-- What does not depend on the state is known for all of the step. -/
theorem of_imp {p : Prop} {x : ExceptT ε (StateM σ) α} (h : p → Meets (fun _ => True) x Q E) :
    Meets (fun _ => p) x Q E :=
  fun s hs => h hs s trivial

/-- What is known besides the condition need not be carried along. -/
theorem and_imp {p : Prop} {x : ExceptT ε (StateM σ) α} (h : p → Meets P x Q E) :
    Meets (fun s => P s ∧ p) x Q E :=
  fun s hs => h hs.2 s hs.1

/-- Two conditions at once. -/
theorem and {P' : σ → Prop} {Q' : α → σ → Prop} {E' : ε → σ → Prop} {x : ExceptT ε (StateM σ) α}
    (hx : Meets P x Q E) (hx' : Meets P' x Q' E') :
    Meets (fun s => P s ∧ P' s) x (fun a s => Q a s ∧ Q' a s) fun e s => E e s ∧ E' e s := by
  intro s hs
  have h := hx s hs.1
  have h' := hx' s hs.2
  rcases hr : x.run s with ⟨_ | a, s'⟩ <;> rw [hr] at h h' <;> exact ⟨h, h'⟩

theorem ite {c : Prop} [Decidable c] {x y : ExceptT ε (StateM σ) α} (hx : c → Meets P x Q E)
    (hy : ¬ c → Meets P y Q E) : Meets P (if c then x else y) Q E := by
  split
  · next h => exact hx h
  · next h => exact hy h

end Meets

/-! ## Invariants -/

/-- The step keeps the invariant, also if it fails. -/
def Keeps (I : σ → Prop) (x : ExceptT ε (StateM σ) α) : Prop :=
  Meets I x (fun _ => I) fun _ => I

namespace Keeps

variable {I : σ → Prop}

theorem run {x : ExceptT ε (StateM σ) α} (hx : Keeps I x) {s : σ} (hs : I s) :
    I (x.run s).2 := by
  have h := hx s hs
  rcases hr : x.run s with ⟨_ | _, _⟩ <;> rw [hr] at h <;> exact h

/-- From a state with the invariant, the step goes to others with it. -/
theorem startingAt {x : ExceptT ε (StateM σ) α} (hx : Keeps I x) {s : σ} (hs : I s) :
    Meets (· = s) x (fun _ => I) fun _ => I := by
  rintro _ rfl
  exact hx _ hs

theorem of_run {x : ExceptT ε (StateM σ) α} (h : ∀ s, I s → I (x.run s).2) : Keeps I x :=
  Meets.of_run h

theorem pure (a : α) : Keeps I (pure a : ExceptT ε (StateM σ) α) := fun _ h => h

theorem throw (e : ε) : Keeps I (throw e : ExceptT ε (StateM σ) α) := fun _ h => h

theorem get : Keeps I (get : ExceptT ε (StateM σ) σ) := fun _ h => h

theorem modify {f : σ → σ} (h : ∀ s, I s → I (f s)) :
    Keeps I (modify f : ExceptT ε (StateM σ) PUnit) := h

theorem bind {x : ExceptT ε (StateM σ) α} {f : α → ExceptT ε (StateM σ) β} (hx : Keeps I x)
    (hf : ∀ a, Keeps I (f a)) : Keeps I (x >>= f) :=
  Meets.bind hx hf

theorem tryCatch {x : ExceptT ε (StateM σ) α} {f : ε → ExceptT ε (StateM σ) α}
    (hx : Keeps I x) (hf : ∀ e, Keeps I (f e)) : Keeps I (tryCatch x f) := by
  intro s hs
  have h := hx s hs
  rw [run_tryCatch]
  rcases hr : x.run s with ⟨e | a, s'⟩ <;> rw [hr] at h
  · exact hf e s' h
  · exact h

theorem discard {x : ExceptT ε (StateM σ) α} (hx : Keeps I x) : Keeps I (discard x) :=
  Meets.discard hx

theorem forM_of_mem {xs : List α} {f : α → ExceptT ε (StateM σ) PUnit}
    (hf : ∀ a ∈ xs, Keeps I (f a)) : Keeps I (xs.forM f) := by
  induction xs with
  | nil => exact Keeps.pure _
  | cons a xs ih =>
    exact (hf a List.mem_cons_self).bind fun _ => ih fun b hb => hf b (List.mem_cons_of_mem _ hb)

theorem forM {xs : List α} {f : α → ExceptT ε (StateM σ) PUnit} (hf : ∀ a, Keeps I (f a)) :
    Keeps I (xs.forM f) :=
  forM_of_mem fun a _ => hf a

theorem and {J : σ → Prop} {x : ExceptT ε (StateM σ) α} (hI : Keeps I x) (hJ : Keeps J x) :
    Keeps (fun s => I s ∧ J s) x :=
  Meets.and hI hJ

theorem ite {c : Prop} [Decidable c] {x y : ExceptT ε (StateM σ) α} (hx : Keeps I x)
    (hy : Keeps I y) : Keeps I (if c then x else y) :=
  Meets.ite (fun _ => hx) fun _ => hy

end Keeps

/-! ## Errors -/

/-- If the step fails, then with an error that satisfies `F`. -/
def Fails (F : ε → Prop) (x : ExceptT ε (StateM σ) α) : Prop :=
  Meets (fun _ => True) x (fun _ _ => True) fun e _ => F e

namespace Fails

variable {F : ε → Prop}

theorem pure (a : α) : Fails F (pure a : ExceptT ε (StateM σ) α) := fun _ _ => trivial

theorem throw {e : ε} (h : F e) : Fails F (throw e : ExceptT ε (StateM σ) α) := fun _ _ => h

theorem get : Fails F (get : ExceptT ε (StateM σ) σ) := fun _ _ => trivial

theorem modify (f : σ → σ) : Fails F (modify f : ExceptT ε (StateM σ) PUnit) := fun _ _ => trivial

theorem bind {x : ExceptT ε (StateM σ) α} {f : α → ExceptT ε (StateM σ) β} (hx : Fails F x)
    (hf : ∀ a, Fails F (f a)) : Fails F (x >>= f) :=
  Meets.bind hx hf

theorem discard {x : ExceptT ε (StateM σ) α} (hx : Fails F x) : Fails F (discard x) :=
  Meets.discard hx

theorem forM {xs : List α} {f : α → ExceptT ε (StateM σ) PUnit} (hf : ∀ a, Fails F (f a)) :
    Fails F (xs.forM f) := by
  induction xs with
  | nil => exact Fails.pure _
  | cons a xs ih => exact (hf a).bind fun _ => ih

theorem ite {c : Prop} [Decidable c] {x y : ExceptT ε (StateM σ) α} (hx : Fails F x)
    (hy : Fails F y) : Fails F (if c then x else y) :=
  Meets.ite (fun _ => hx) fun _ => hy

end Fails

end Step
end KeywordScope
