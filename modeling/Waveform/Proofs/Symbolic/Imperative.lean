import Waveform.Proofs.Symbolic.HigherOrder
import Waveform.Proofs.Symbolic.Typing

/-!
# Imperative functions of numbers

A function that passes the static check assigns its variables, branches by tests that depend on its
parameters, and returns early wherever it likes. The expression that it is reduced to evaluates to
what the function returns, also where it comes to its end without a result.
-/

namespace Waveform

variable {M : Mathematics}

def Function.isTyped (f : Function (Exact M)) : Bool :=
  (Statement.checkAll [] (f.params.map fun p => (p, .number)) f.body).isSome

theorem TypeScope.lookup_params (params : List String) (name : String) :
    (params.map fun p => (p, Ty.number)).lookup name =
      if params.contains name then some .number else none := by
  induction params with
  | nil => rfl
  | cons p ps ih =>
    rw [List.map_cons, List.lookup_cons, List.contains_cons, ih]
    cases name == p <;> rfl

theorem TypeContext.holdsIn_params {params : List String} {args : List ℚ}
    (hlength : params.length ≤ args.length) {env : Environment} {s : Store (Exact M)}
    (henv : ∀ i ∈ env, i < s.frames.size) :
    TypeContext.HoldsIn
      ((s.extend env).2.bindParams s.frames.size params (Value.ofNumbers args))
      [params.map fun p => (p, .number)] (s.frames.size :: env) := by
  refine ⟨by simp, fun hmem => Nat.lt_irrefl _ (henv _ hmem), fun name => ?_, fun i hi => ?_⟩
  · have hempty (name : String) : (Bindings.empty : Bindings (Value (Exact M))).find? name =
        ((Bindings.empty : Bindings ℚ).find? name).map fun q => .number (.of q) := rfl
    have hsome := Bindings.isSome_withParams 0 Bindings.empty params args name
    rw [Store.frame_bindParams_self _ (by simp), Store.frame_extend,
      Store.frame_of_le (Nat.le_refl _), find?_withParams_ofNumbers hlength hempty,
      TypeScope.lookup_params]
    rw [Bindings.find?_empty, Option.isSome_none, Bool.or_false] at hsome
    cases hfind : (Bindings.empty.withParams 0 params args).find? name with
    | none =>
      rw [hfind] at hsome
      rw [← hsome]
      exact .none
    | some q =>
      rw [hfind] at hsome
      rw [← hsome]
      exact .some ⟨q, rfl⟩
  · simpa using Nat.lt_succ_of_lt (henv i hi)

theorem Reading.symbolic.callsAgree {ρ : Valuation} {call : Caller (Exact M)}
    {reduce : Reducer (Exact M)} :
    (symbolic ρ False).CallsAgree call (fun _ _ _ => False) reduce where
  closure _ _ _ h := h.elim
  builtin h := h.elim
  unrun := .never fun _ _ _ h => h.1

/-- A run of the body of a checked function stays typed, and ends with a number, a truth value or
without a result. -/
theorem Function.isTyped_safe {f : Function (Exact M)} (htyped : f.isTyped = true) {args : List ℚ}
    (hlength : f.params.length ≤ args.length) (call : Caller (Exact M))
    (follows : CallCheck (Exact M)) (patience i : Nat) (name : Option String) :
    Run.bodyObeys (.typed False) call follows patience ⟨i, name, f, .global⟩
        (Value.ofNumbers args) .initial ∧
      (Run.body patience call ⟨i, name, f, .global⟩ (Value.ofNumbers args)).Ensures True .initial
        fun v _ => v.IsScalar ∨ v = .undefined := by
  obtain ⟨scope, hcheck⟩ := Option.isSome_iff_exists.1 htyped
  have hglobal : ∀ i ∈ Environment.global, i < (Store.initial (ν := Exact M)).frames.size := by
    intro i hi
    obtain rfl := List.mem_singleton.1 hi
    exact Nat.one_pos
  have hholds := TypeContext.holdsIn_params hlength hglobal
  obtain ⟨hfunction, hhoist⟩ := Statement.hoist_of_check hcheck
    ((Store.initial (ν := Exact M)).frames.size :: Environment.global) _
  obtain ⟨hobeys, hends⟩ : Statement.AllSafe call follows patience [] _ f.body scope _ :=
    Statement.allSafe_of_checkAll patience f.body hcheck hholds
  constructor
  · refine ⟨trivial, fun h => ?_, .of_outcome (Run.outcome_extend _ _) ?_⟩
    · rw [hfunction] at h
      cases h
    · exact .of_outcome (Run.outcome_defineParams _ _ _ _ _) (.of_outcome hhoist hobeys)
  · refine .step (Run.outcome_extend _ _) (.step (Run.outcome_defineParams _ _ _ _ _) ?_)
    rw [Run.block, bind_assoc]
    refine .step hhoist (hends.bind fun c t _ hend => ?_)
    cases c with
    | normal => exact .of_outcome (Run.outcome_pure _ t) (.inr rfl)
    | returned v => exact .of_outcome (Run.outcome_pure _ t) hend

/-- The expression that a checked function is reduced to evaluates to what the function returns. -/
theorem Function.typed_residual_evaluates {f : Function (Exact M)}
    {options : SpecializationOptions} {path : String} {e : Expression (Exact M)} {args : List ℚ}
    {limit : Option Nat} {patience i : Nat} {name : Option String} {v : Value (Exact M)}
    {s : Store (Exact M)} (htyped : f.isTyped = true) (hinline : f.residual path options = .ok e)
    (hargs : ∀ q ∈ args, 0 ≤ q) (hlength : f.params.length ≤ args.length)
    (hrun : (Run.call limit patience 0 (.closure ⟨i, name, f, .global⟩)
      (Value.ofNumbers args)).outcome .initial = (.ok v, s)) :
    ∃ t, (Run.call limit (patience + 1) 0
      (.closure ⟨i, name, ⟨f.params, [.result (some e)]⟩, .global⟩)
      (Value.ofNumbers args)).outcome .initial = (.ok v, t) := by
  have hsound : (Reading.symbolic (.ofArguments f.params args) False).Sound :=
    Reading.symbolic.sound (M := M) (Valuation.ofArguments_nonneg f.params hargs)
  cases patience with
  | zero => cases hrun
  | succ patience =>
    rw [Run.call] at hrun
    cases hlimit : limit.any (· ≤ 0) with
    | true =>
      rw [hlimit] at hrun
      cases hrun
    | false =>
      rw [hlimit, if_neg Bool.false_ne_true] at hrun
      obtain ⟨hobeys, hends⟩ := Function.isTyped_safe htyped hlength
        (Run.call limit patience (0 + 1)) (fun _ _ _ => False) patience i name
      have hagrees := Reading.residual_agrees hsound Reading.symbolic.callsAgree hinline
        Store.initial_builtins (Reading.reads_param hlength) hobeys
      have hdenote := Reading.denote_of_models (hagrees.after v s hrun)
      obtain ⟨l, rfl⟩ : v.IsPrimitive := by
        obtain hv | rfl := hends.after v s hrun
        · exact hv.isPrimitive
        · exact ⟨_, rfl⟩
      exact Function.call_result hlength hdenote hlimit patience i name .global .initial

/-- An early return by a test of the parameters, and an assignment after it. -/
def Function.early : Function (Exact .zero) :=
  ⟨["x", "y"],
    [.declaration .mutable "z" (some (.identifier "x")),
    .branch (.binary .lessThan (.identifier "x") (.identifier "y"))
      (.result (some (.identifier "z"))) none,
    .expression (.assignment .addAssign "z" (.identifier "y")),
    .result (some (.identifier "z"))]⟩

def Expression.earlyResidual : Expression (Exact .zero) :=
  .conditional (.binary .lessThan (.identifier "x") (.identifier "y")) (.identifier "x")
    (.binary .add (.identifier "x") (.identifier "y"))

theorem Function.early_residual_evaluates :
    Function.early.residual "early" .standard = .ok .earlyResidual ∧
      ∃ t, (Run.call none 2 0
        (.closure ⟨0, none, ⟨["x", "y"], [.result (some .earlyResidual)]⟩, .global⟩)
        (Value.ofNumbers [3, 2])).outcome .initial =
          (.ok (.number (.of (3 + 2)) : Value (Exact .zero)), t) := by
  have hinline : Function.early.residual "early" .standard = .ok .earlyResidual := rfl
  obtain ⟨s, hrun⟩ : ∃ s, (Run.call none 1 0 (.closure ⟨0, none, .early, .global⟩)
      (Value.ofNumbers [3, 2])).outcome .initial = (.ok (.number (.of (3 + 2))), s) := ⟨_, rfl⟩
  have htyped : Function.early.isTyped = true := rfl
  have hresult := Function.typed_residual_evaluates htyped hinline (by decide) (by decide) hrun
  exact ⟨hinline, hresult⟩

end Waveform
