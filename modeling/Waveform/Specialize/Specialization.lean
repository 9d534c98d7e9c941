import Waveform.Evaluation.Program
import Waveform.Specialize.CapturedUnit
import Waveform.Specialize.Residual

/-!
# Specializations

What a program binds to a name, by itself: a primitive, or a function whose body is one expression
in its parameters. A closure is captured together with all closures that it reaches, the units are
merged into one function, and that is reduced to the expression that it returns.
-/

namespace Waveform

/-- The units of all closures that one closure reaches. -/
structure CapturedUnits (ν : Type) where
  /-- The units, the latest first, so that the last one is that of the closure itself. -/
  units : List (FunctionDeclaration ν)
  names : ClosureNames

namespace CapturedUnits

variable {ν : Type}

def contains (c : CapturedUnits ν) (name : String) : Bool :=
  c.units.any (·.name == name)

/-- Captures the closures that wait, the latest found first, and those found on the way. Each step
captures another closure, and a run has made only so many. -/
def collect (store : Store ν) (hardcoded : List Builtin) (root : String) :
    (steps : Nat) → List (ClosureTask ν) → CapturedUnits ν →
      Except (SpecializationError ν) (CapturedUnits ν)
  | _, [], c => pure c
  | 0, _ :: _, _ => throw (.missingRoot root)
  | steps + 1, task :: waiting, c =>
    if c.contains task.name then collect store hardcoded root steps waiting c
    else
      match task.capture store ("c" ++ toString c.units.length) hardcoded c.names with
      | (.error e, _) => throw e
      | (.ok (unit, found), names) =>
        collect store hardcoded root steps (found.reverse ++ waiting) ⟨unit :: c.units, names⟩

def ofClosure (store : Store ν) (hardcoded : List Builtin) (name : String) (c : Closure ν) :
    Except (SpecializationError ν) (CapturedUnits ν) :=
  collect store hardcoded name (store.made + 1) [⟨name, c⟩]
    ⟨[], ClosureNames.empty.register c.identity name⟩

/-- The function of the closure itself with the other units declared in its body, and with itself
if something refers to it. -/
def merge (c : CapturedUnits ν) (name : String) :
    Except (SpecializationError ν) (Function ν) :=
  match c.units.getLast? with
  | some root =>
    if root.name == name then
      let declared := if c.names.isReferenced name then c.units else c.units.dropLast
      pure ⟨root.function.params, declared.map Statement.ofDeclaration ++ root.function.body⟩
    else throw (.missingRoot name)
  | none => throw (.missingRoot name)

end CapturedUnits

section Check

variable {ν : Type}

mutual

/-- Checks that an expression depends on nothing but the parameters and the builtins that may be
called. -/
def Expression.checkResidual (params : List String) (residual : List Builtin) :
    Expression ν → Except (SpecializationError ν) Unit
  | .literal _ => pure ()
  | .identifier name => if params.contains name then pure () else throw (.freeName name)
  | .builtin b => throw (.builtinAsValue b)
  | .function params body _ => throw (.functionAsValue ⟨params, body⟩)
  | .assignment _ target _ | .update _ _ target => throw (.residualWrite target)
  | .call callee arguments =>
    match callee with
    | .builtin b =>
      if residual.contains b then Expression.checkAllResidual params residual arguments
      else throw (.notCallable callee)
    | callee => throw (.notCallable callee)
  | .array items => Expression.checkAllResidual params residual items
  | .member object property => do
    object.checkResidual params residual
    property.checkResidual params residual
  | .unary _ argument => argument.checkResidual params residual
  | .binary _ left right | .logical _ left right => do
    left.checkResidual params residual
    right.checkResidual params residual
  | .conditional test consequent alternate => do
    test.checkResidual params residual
    consequent.checkResidual params residual
    alternate.checkResidual params residual

def Expression.checkAllResidual (params : List String) (residual : List Builtin) :
    List (Expression ν) → Except (SpecializationError ν) Unit
  | [] => pure ()
  | e :: es => do
    e.checkResidual params residual
    Expression.checkAllResidual params residual es

end

end Check

inductive Specialization (ν : Type)
  | value (literal : Literal ν)
  | function (declaration : FunctionDeclaration ν)

section

variable {ν : Type} [Numeric ν]

def Specialization.text : Specialization ν → String
  | value l => l.text
  | function d => d.text

/-- Specializes a closure into a declaration of the given name with a single result. -/
def Closure.specialize (c : Closure ν) (store : Store ν) (name : String)
    (options : SpecializationOptions) : Except (SpecializationError ν) (FunctionDeclaration ν) := do
  let captured ← CapturedUnits.ofClosure store options.hardcodedBuiltins name c
  let merged ← captured.merge name
  let value ← merged.residual name options
  value.checkResidual merged.params options.residualBuiltins
  return ⟨name, merged.params, [.result (some value)]⟩

def Store.specialize (store : Store ν) (target : String) (options : SpecializationOptions) :
    Except (SpecializationError ν) (Specialization ν) :=
  match store.lookup? target .global with
  | none => throw (.unbound target)
  | some (.closure c) => return .function (← c.specialize store target options)
  | some (.primitive l) => pure (.value l)
  | some v => throw (.structuredTarget target v)

def Program.specialize (p : Program ν) (target : String) (running : RunOptions)
    (options : SpecializationOptions) : Except (SpecializationError ν) (Specialization ν) :=
  match p.run running with
  | .ok store => store.specialize target options
  | .error stop => throw (.evaluation stop)

end

end Waveform
