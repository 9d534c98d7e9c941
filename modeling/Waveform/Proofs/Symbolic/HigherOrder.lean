import Waveform.Proofs.Symbolic.Evaluation
import Waveform.Proofs.Symbolic.Supposed

/-!
# Higher-order functions of numbers

A function of numbers may make other functions and pairs on the way, pass them on and call them, as
long as it chooses by conditional expressions only. In typed runs on numbers that are not negative,
the expression that it is reduced to evaluates to what the function returns.
-/

namespace Waveform

variable {M : Mathematics}

theorem Valuation.ofArguments_nonneg (params : List String) {args : List ℚ}
    (hargs : ∀ q ∈ args, 0 ≤ q) (name : String) (q : ℚ)
    (h : Valuation.ofArguments params args name = some q) : 0 ≤ q := by
  have hempty (name : String) (q : ℚ) :
      (Bindings.empty : Bindings ℚ).find? name = some q → 0 ≤ q := nofun
  revert hargs h
  unfold Valuation.ofArguments
  generalize (Bindings.empty : Bindings ℚ) = b at hempty
  intro hargs h
  induction params generalizing args b with
  | nil => exact hempty name q h
  | cons p ps ih =>
    cases args with
    | nil =>
      refine ih (b.insert p 0) (fun other r hr => ?_) hargs h
      rw [Bindings.find?_insert] at hr
      split at hr
      · cases hr
        exact le_refl 0
      · exact hempty other r hr
    | cons a as =>
      refine ih (b.insert p a) (fun other r hr => ?_)
        (fun r hr => hargs r (List.mem_cons_of_mem _ hr)) h
      rw [Bindings.find?_insert] at hr
      split at hr
      · cases hr
        exact hargs _ (List.mem_cons_self ..)
      · exact hempty other r hr

theorem Reading.reads_param {params : List String} {args : List ℚ} {higherOrder : Prop}
    (hlength : params.length ≤ args.length) (p : String) (v : Value (Exact M))
    (h : (Bindings.empty.withParams .undefined params (Value.ofNumbers args)).find? p = some v) :
    (Reading.symbolic (.ofArguments params args) higherOrder).Reads (.identifier p) v := by
  have hempty (name : String) : (Bindings.empty : Bindings (Value (Exact M))).find? name =
      ((Bindings.empty : Bindings ℚ).find? name).map fun q => .number (.of q) := rfl
  rw [find?_withParams_ofNumbers hlength hempty] at h
  obtain ⟨q, hq, rfl⟩ := Option.map_eq_some_iff.1 h
  refine ⟨?_, .inl ⟨_, rfl⟩⟩
  rw [Expression.denote]
  exact congrArg (Option.map Meaning.number) hq

/-- A typed run ends, and the expression that the function is reduced to denotes its value. -/
theorem Function.residual_denotes {f : Function (Exact M)} {options : SpecializationOptions}
    {path : String} {e : Expression (Exact M)} {args : List ℚ} {higherOrder : Prop}
    {patience i : Nat} {name : Option String} (hinline : f.residual path options = .ok e)
    (hargs : ∀ q ∈ args, 0 ≤ q) (hlength : f.params.length ≤ args.length)
    (hpatience : options.maxInlineDepth + 1 < patience)
    (hobeys : Run.callObeys (.typed higherOrder) none patience 0
      (.closure ⟨i, name, f, .global⟩) (Value.ofNumbers args) .initial) :
    ∃ v s, (Run.call none patience 0 (.closure ⟨i, name, f, .global⟩)
      (Value.ofNumbers args)).outcome .initial = (.ok v, s) ∧
        e.denote (.ofArguments f.params args) = some (.ofValue v) := by
  have hnonneg := Valuation.ofArguments_nonneg f.params hargs
  have hsound : (Reading.symbolic (.ofArguments f.params args) higherOrder).Sound :=
    Reading.symbolic.sound (M := M) hnonneg
  have hagrees := Reading.call_residual_agrees hsound
    (Reading.symbolic.unrunAgrees hnonneg options) hinline Store.initial_builtins
    (fun _ => ⟨rfl, hpatience⟩) (Reading.reads_param hlength) hobeys
  obtain ⟨v, s, hrun⟩ := hagrees.ends trivial
  exact ⟨v, s, hrun, Reading.denote_of_models (hagrees.after v s hrun)⟩

end Waveform
