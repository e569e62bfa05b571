import KeywordScope.Proofs.Grammar.Types
import KeywordScope.Proofs.Step

/-!
# Checks with a cache

One cache serves any number of checks. It is filled on the way, also by checks that fail, and none
of them can tell.

* `Follows`: a check that keeps a state has the outcome of one that has none.
* `checkBlock_follows`: it is enough that types are found alike.
* `Grammar.checkEach_eq`: checks that share a cache have the outcomes that they have without one.
-/

namespace KeywordScope

open Script Step

/-- Types are found without a state. -/
def FindType.direct (findType : String → Option HostType) : FindType PUnit :=
  fun token => return findType token

/-- The check of a script where the type of each word is looked up anew. -/
def Grammar.checkDirectly (rules : Rules) (findType : String → Option HostType)
    (parent? : Option String) (block : Block) : Except SyntaxError Grammar :=
  ((checkBlock rules (.direct findType) parent? block).run.run ⟨⟩).1

/-- The checks of several scripts, each below its parent or at the root, with one cache. -/
def Grammar.checkEach (rules : Rules) (findType : String → Option HostType)
    (scripts : List (Option String × Block)) :
    StateM TypeCache (List (Except SyntaxError Grammar)) :=
  scripts.mapM fun (parent?, block) =>
    (checkBlock rules (TypeCache.find findType) parent? block).run

/-! ## Outcomes that do not depend on the state -/

section

variable {σ α β : Type} {I : σ → Prop}

/-- Wherever the invariant holds, the check has the outcome of the one without a state, and the
invariant holds after it. -/
def Follows (I : σ → Prop) (x : Check σ α) (y : Check PUnit α) : Prop :=
  ∀ s, I s → (x.run s).1 = (y.run ⟨⟩).1 ∧ I (x.run s).2

namespace Follows

theorem pure (a : α) : Follows I (pure a) (pure a) := fun _ hs => ⟨rfl, hs⟩

theorem throw (e : SyntaxError) : Follows (α := α) I (throw e) (throw e) := fun _ hs => ⟨rfl, hs⟩

theorem answer (x : Except SyntaxError α) : Follows I (liftM x) (liftM x) := by
  cases x with
  | error e => exact throw e
  | ok a => exact pure a

theorem bind {x : Check σ α} {y : Check PUnit α} {f : α → Check σ β} {g : α → Check PUnit β}
    (hx : Follows I x y) (hf : ∀ a, Follows I (f a) (g a)) : Follows I (x >>= f) (y >>= g) := by
  intro s hs
  obtain ⟨hsame, hnext⟩ := hx s hs
  rw [run_bind, run_bind]
  rcases hrun : x.run s with ⟨outcome, s'⟩
  rcases hrun' : y.run ⟨⟩ with ⟨outcome', ⟨⟩⟩
  rw [hrun] at hsame hnext
  rw [hrun'] at hsame
  obtain rfl : outcome = outcome' := hsame
  cases outcome with
  | error e => exact ⟨rfl, hnext⟩
  | ok a => exact hf a s' hnext

theorem ite {c : Prop} [Decidable c] {x x' : Check σ α} {y y' : Check PUnit α}
    (hx : Follows I x y) (hx' : Follows I x' y') :
    Follows I (if c then x else x') (if c then y else y') := by
  split
  · exact hx
  · exact hx'

theorem find {finder : FindType σ} {findType : String → Option HostType}
    (h : Finds I finder findType) (token : String) :
    Follows I (liftM (finder token)) (liftM (FindType.direct findType token)) := by
  intro s hs
  rw [run_lift, run_lift]
  exact ⟨congrArg Except.ok (h token s hs).1, (h token s hs).2⟩

end Follows

/-! ## Checks -/

variable {finder : FindType σ} {findType : String → Option HostType}

mutual

/-- A check whose types are found as the function finds them has the outcome of a direct one. -/
theorem checkBlock_follows (hfinder : Finds I finder findType) (rules : Rules)
    (parent? : Option String) (block : Block) :
    Follows I (checkBlock rules finder parent? block)
      (checkBlock rules (.direct findType) parent? block) := by
  unfold checkBlock
  rcases block.begin? with _ | named
  · rcases block.process? with _ | named
    · exact (checkStatements_follows hfinder rules parent? [] [] block.statements).bind
        fun _ => .pure _
    · exact .throw _
  · exact .throw _
termination_by sizeOf block
decreasing_by exact block.statements_lt

theorem checkStatements_follows (hfinder : Finds I finder findType) (rules : Rules)
    (parent? : Option String) (keywords : List KeywordDecl) (properties : List PropertyDecl)
    (statements : List Statement) :
    Follows I (checkStatements rules finder parent? keywords properties statements)
      (checkStatements rules (.direct findType) parent? keywords properties statements) := by
  rcases statements with _ | ⟨statement, statements⟩
  · unfold checkStatements
    exact .pure _
  unfold checkStatements
  split
  · exact .throw _
  next command hcommand =>
  split
  · exact .throw _
  next name mode? body hshape =>
    have hlt := Shape.body_lt hcommand hshape
    refine (Follows.answer _).bind fun mode => ?_
    refine (checkBlock_follows hfinder rules (some name.text) body).bind fun grammar => ?_
    exact checkStatements_follows hfinder rules parent? _ properties statements
  next type name hshape =>
    refine .ite (.throw _) ?_
    refine (Follows.find hfinder type.text).bind fun type? => ?_
    refine (Follows.answer _).bind fun decl => ?_
    exact checkStatements_follows hfinder rules parent? keywords _ statements
  · exact .throw _
termination_by sizeOf statements
decreasing_by all_goals rw [List.cons.sizeOf_spec]; omega

end

end

/-- Checks that share a cache have the outcomes of direct ones, one after the other. -/
theorem Grammar.run_checkEach {findType : String → Option HostType}
    (hcase : ∀ a b, foldCase a = foldCase b → findType a = findType b) (rules : Rules)
    (scripts : List (Option String × Block)) {cache : TypeCache}
    (hcache : TypeCache.Sound findType cache) :
    ((checkEach rules findType scripts).run cache).1 =
      scripts.map fun (parent?, block) => checkDirectly rules findType parent? block := by
  induction scripts generalizing cache with
  | nil => rfl
  | cons script scripts ih =>
    obtain ⟨parent?, block⟩ := script
    obtain ⟨hsame, hnext⟩ :=
      checkBlock_follows (TypeCache.finds hcase) rules parent? block cache hcache
    rw [checkEach, List.mapM_cons, List.map_cons, ← ih hnext]
    exact congrArg (· :: _) hsame

/-- For every table of types, all scripts that are checked with one cache have the outcome, grammar
or error, that they have without it. -/
theorem Grammar.checkEach_eq (rules : Rules) (types : TypeTable)
    (scripts : List (Option String × Block)) :
    ((checkEach rules types.find? scripts).run []).1 =
      scripts.map fun (parent?, block) => checkDirectly rules types.find? parent? block :=
  run_checkEach (fun _ _ => types.find?_congr) rules scripts nofun

end KeywordScope
