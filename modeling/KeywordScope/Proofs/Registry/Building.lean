import KeywordScope.Proofs.Registry.Runs
import KeywordScope.Registry.Build

/-!
# Runs of the registration of a grammar
-/

namespace KeywordScope
namespace Registry
namespace Build

open Step

variable {τ : Type}

theorem run_onRegistry {α : Type} (action : Action τ α) (r : Registry τ)
    (registered : List Keyword.Id) :
    (onRegistry action).run (r, registered) =
      ((action.run r).1, ((action.run r).2, registered)) := by
  rw [onRegistry, run_bind_ok (run_get (r, registered))]
  rcases h : action.run r with ⟨_ | a, s⟩
  · simp only [h]
    rw [run_bind_ok (run_set (r, registered) (s, registered))]
    rfl
  · simp only [h]
    rw [run_bind_ok (run_set (r, registered) (s, registered))]
    rfl

theorem meets_onRegistry {α : Type} {P : Registry τ → Prop} {action : Action τ α}
    {Q : α → Registry τ → Prop} {E : KeywordError → Registry τ → Prop}
    (h : Meets P action Q E) :
    Meets (fun s : Registry τ × List Keyword.Id => P s.1) (onRegistry action)
      (fun a s => Q a s.1) fun e s => E e s.1 := by
  rintro ⟨r, registered⟩ hr
  have h := h r hr
  rw [run_onRegistry]
  rcases hrun : action.run r with ⟨_ | a, s⟩ <;> rw [hrun] at h <;> exact h

end Build
end Registry
end KeywordScope
