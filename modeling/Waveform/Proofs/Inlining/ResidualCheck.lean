import Waveform.Number.Mathematics
import Waveform.Proofs.Inlining.ResidualForm
import Waveform.Specialize.Specialization

/-!
# The check of residual expressions

The check at the end of a specialization asks for the form that residual expressions have, and for
the absence of function values and builtins, so only these can make it fail. A closure that is
accepted becomes the result of such an expression over its own parameters.
-/

namespace Waveform

variable {ν : Type} {params : List String} {residual : List Builtin}

def SpecializationError.IsEscape : SpecializationError ν → Prop
  | .builtinAsValue _ | .functionAsValue _ => True
  | _ => False

def SpecializationError.EscapeOnly (check : Except (SpecializationError ν) Unit) : Prop :=
  ∀ error, check = .error error → error.IsEscape

namespace SpecializationError

theorem EscapeOnly.bind {first second : Except (SpecializationError ν) Unit}
    (hfirst : EscapeOnly first) (hsecond : EscapeOnly second) :
    EscapeOnly (first >>= fun _ => second) := by
  intro error herror
  cases first with
  | error e => exact hfirst error herror
  | ok u => exact hsecond error herror

theorem escapeOnly_ok : EscapeOnly (pure () : Except (SpecializationError ν) Unit) :=
  fun _ h => by cases h

end SpecializationError

open SpecializationError

mutual

/-- The check finds nothing in a residual expression but functions and builtins that escape. -/
theorem Expression.checkResidual_escapeOnly : (e : Expression ν) →
    e.isResidual params residual = true → EscapeOnly (e.checkResidual params residual)
  | .literal l => fun _ => escapeOnly_ok
  | .identifier name => by
    intro h
    rw [Expression.isResidual] at h
    rw [Expression.checkResidual, if_pos h]
    exact escapeOnly_ok
  | .builtin b => by
    rintro - error ⟨⟩
    trivial
  | .function ps body home => by
    rintro - error ⟨⟩
    trivial
  | .assignment op target value => nofun
  | .update op isBefore target => nofun
  | .array items => by
    intro h
    rw [Expression.checkResidual]
    exact Expression.checkAllResidual_escapeOnly items h
  | .member object property => by
    intro h
    rw [Expression.isResidual, Bool.and_eq_true] at h
    rw [Expression.checkResidual]
    exact (object.checkResidual_escapeOnly h.1).bind (property.checkResidual_escapeOnly h.2)
  | .unary op argument => by
    intro h
    rw [Expression.checkResidual]
    exact argument.checkResidual_escapeOnly h
  | .binary op left right => by
    intro h
    rw [Expression.isResidual, Bool.and_eq_true] at h
    rw [Expression.checkResidual]
    exact (left.checkResidual_escapeOnly h.1).bind (right.checkResidual_escapeOnly h.2)
  | .logical op left right => by
    intro h
    rw [Expression.isResidual, Bool.and_eq_true] at h
    rw [Expression.checkResidual]
    exact (left.checkResidual_escapeOnly h.1).bind (right.checkResidual_escapeOnly h.2)
  | .conditional test consequent alternate => by
    intro h
    rw [Expression.isResidual, Bool.and_eq_true, Bool.and_eq_true] at h
    rw [Expression.checkResidual]
    have hsides := (consequent.checkResidual_escapeOnly h.1.2).bind
      (alternate.checkResidual_escapeOnly h.2)
    exact (test.checkResidual_escapeOnly h.1.1).bind hsides
  | .call callee arguments => by
    intro h
    cases callee with
    | builtin b =>
      simp only [Expression.isResidual, Bool.and_eq_true] at h
      rw [Expression.checkResidual, if_pos h.1.1]
      exact Expression.checkAllResidual_escapeOnly arguments h.2
    | _ => cases h

theorem Expression.checkAllResidual_escapeOnly : (es : List (Expression ν)) →
    Expression.areResidual params residual es = true →
      EscapeOnly (Expression.checkAllResidual params residual es)
  | [] => fun _ => escapeOnly_ok
  | e :: es => by
    intro h
    rw [Expression.areResidual, Bool.and_eq_true] at h
    rw [Expression.checkAllResidual]
    exact (e.checkResidual_escapeOnly h.1).bind (Expression.checkAllResidual_escapeOnly es h.2)

end

/-! ## Specializations -/

namespace CapturedUnits

theorem getLast?_of_collect {store : Store ν} {hardcoded : List Builtin} {root : String}
    {steps : Nat} {tasks : List (ClosureTask ν)} {c c' : CapturedUnits ν}
    {unit : FunctionDeclaration ν} (hlast : c.units.getLast? = some unit)
    (h : collect store hardcoded root steps tasks c = .ok c') :
    c'.units.getLast? = some unit := by
  induction steps generalizing tasks c with
  | zero =>
    cases tasks with
    | nil =>
      cases h
      exact hlast
    | cons task waiting => cases h
  | succ steps ih =>
    cases tasks with
    | nil =>
      cases h
      exact hlast
    | cons task waiting =>
      rw [collect] at h
      split at h
      · exact ih hlast h
      · split at h
        · cases h
        · refine ih ?_ h
          rw [List.getLast?_cons, hlast]
          rfl

theorem params_of_capture {task : ClosureTask ν} {store : Store ν} {path : String}
    {hardcoded : List Builtin} {names names' : ClosureNames} {unit : FunctionDeclaration ν}
    {found : List (ClosureTask ν)}
    (h : task.capture store path hardcoded names = (.ok (unit, found), names')) :
    unit.function.params = task.closure.function.params := by
  unfold ClosureTask.capture at h
  dsimp only at h
  split at h
  split at h
  · cases h
    rfl
  · cases h

/-- The merged function has the parameters of the closure that the units were captured for. -/
theorem params_of_merge {store : Store ν} {hardcoded : List Builtin} {name : String}
    {closure : Closure ν} {c : CapturedUnits ν} {f : Function ν}
    (hunits : ofClosure store hardcoded name closure = .ok c) (hmerge : c.merge name = .ok f) :
    f.params = closure.function.params := by
  unfold ofClosure at hunits
  rw [collect, if_neg (by simp [contains])] at hunits
  split at hunits
  · cases hunits
  · next unit found names hcapture =>
    have hlast : c.units.getLast? = some unit := by
      refine getLast?_of_collect ?_ hunits
      rfl
    unfold merge at hmerge
    rw [hlast] at hmerge
    dsimp only at hmerge
    split at hmerge
    · cases hmerge
      exact params_of_capture hcapture
    · cases hmerge

end CapturedUnits

variable [Numeric ν]

/-- What a function is reduced to is residual over its parameters, and the check after it finds
nothing in it but functions and builtins that escape. A closure is specialized to the result of
such an expression over its own parameters. -/
theorem Closure.specialize_residual (f : Function ν) (c : Closure ν) (store : Store ν)
    (name : String) (options : SpecializationOptions) :
    (∀ e, f.residual name options = .ok e →
      e.isResidual f.params options.residualBuiltins = true ∧
      EscapeOnly (e.checkResidual f.params options.residualBuiltins)) ∧
    (∀ d, c.specialize store name options = .ok d →
      ∃ e, d = ⟨name, c.function.params, [.result (some e)]⟩ ∧
        e.isResidual c.function.params options.residualBuiltins = true ∧
        e.checkResidual c.function.params options.residualBuiltins = .ok ()) := by
  constructor
  · intro e he
    have hform := Function.isResidual_of_residual he
    exact ⟨hform, e.checkResidual_escapeOnly hform⟩
  · intro d hd
    simp only [Closure.specialize, bind, Except.bind] at hd
    split at hd
    · cases hd
    next captured hunits =>
    split at hd
    · cases hd
    next merged hmerge =>
    split at hd
    · cases hd
    next value hvalue =>
    split at hd
    · cases hd
    next hcheck =>
    cases hd
    have hparams := CapturedUnits.params_of_merge hunits hmerge
    have hform := Function.isResidual_of_residual hvalue
    rw [hparams] at hform hcheck
    exact ⟨value, by rw [hparams], hform, hcheck⟩

/-- The sine of the parameter plus the length of a list that starts with it. -/
def Function.sineAndLength : Function Float :=
  ⟨["x"], [.declaration .constant "xs" (some (.call (.builtin .list) [.identifier "x", .null])),
    .result (some (.binary .add (.call (.builtin .sin) [.identifier "x"])
      (.call (.builtin .length) [.identifier "xs"])))]⟩

/-- Options that allow the list helpers among the functions on numbers. -/
def SpecializationOptions.withHelpers : SpecializationOptions :=
  { SpecializationOptions.standard with residualBuiltins := Builtin.all }

def Closure.sineAndLength : Closure Float :=
  ⟨0, none, .sineAndLength, .global⟩

theorem Closure.sineAndLength_residual :
    (∃ e, Function.sineAndLength.residual "wave" .withHelpers = .ok e ∧
      e.isResidual ["x"] Builtin.all = true ∧ EscapeOnly (e.checkResidual ["x"] Builtin.all)) ∧
    ∃ d e, Closure.sineAndLength.specialize .initial "wave" .withHelpers = .ok d ∧
      d = ⟨"wave", ["x"], [.result (some e)]⟩ ∧ e.isResidual ["x"] Builtin.all = true := by
  have hform := Closure.specialize_residual .sineAndLength .sineAndLength .initial "wave"
    .withHelpers
  obtain ⟨e, he⟩ : ∃ e, Function.sineAndLength.residual "wave" .withHelpers = .ok e := ⟨_, rfl⟩
  obtain ⟨d, hd⟩ : ∃ d, Closure.sineAndLength.specialize .initial "wave" .withHelpers = .ok d :=
    ⟨_, rfl⟩
  obtain ⟨value, hdeclaration, hvalue, -⟩ := hform.2 d hd
  exact ⟨⟨e, he, hform.1 e he⟩, d, value, hd, hdeclaration, hvalue⟩

end Waveform
