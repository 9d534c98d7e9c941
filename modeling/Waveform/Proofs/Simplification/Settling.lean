import Mathlib.Logic.Function.Iterate
import Waveform.Proofs.Simplification.Recursion

/-!
# Simplification settles

A step of simplification lowers the weight of an expression, so no expression can be rewritten for
ever. Simplifying again and again comes to an expression that it leaves as it is.
-/

namespace Waveform

variable {ν : Type} [Numeric ν]

namespace Simplify

/-- No expression can be rewritten for ever. -/
theorem wellFounded_step : WellFounded fun e' e : Expression ν => Step e e' :=
  Subrelation.wf Step.weight_lt (measure Expression.weight).wf

theorem exists_settled (e : Expression ν) :
    ∃ n, (Expression.simplify^[n] e).simplify = Expression.simplify^[n] e := by
  induction hw : e.weight using Nat.strong_induction_on generalizing e with
  | _ w ih =>
    subst hw
    rcases (steps_simplify e).eq_or_weight_lt with hsettled | hlighter
    · exact ⟨0, hsettled⟩
    · obtain ⟨n, hn⟩ := ih _ hlighter e.simplify rfl
      refine ⟨n + 1, ?_⟩
      rwa [Function.iterate_succ_apply]

end Simplify

/-- The recursion of simplification ends on every expression, with one result. The result has no
more nodes than the expression, and each of its occurrences comes from one of the expression's own.
Simplifying repeatedly comes to an expression that does not change. -/
theorem Expression.simplify_settles (e : Expression ν) :
    (∀ r, Simplify.Yields e r ↔ r = e.simplify) ∧
      e.simplify.nodes ≤ e.nodes ∧
      (∃ s ≤ e.occurrences, Multiset.Rel ComesFrom e.simplify.occurrences s) ∧
      ∃ n, (simplify^[n] e).simplify = simplify^[n] e := by
  have hsteps := Simplify.steps_simplify e
  refine ⟨fun r => ⟨Simplify.Yields.eq_simplify, ?_⟩, hsteps.nodes_le, hsteps.stems,
    Simplify.exists_settled e⟩
  rintro rfl
  exact Simplify.yields_simplify e

end Waveform
