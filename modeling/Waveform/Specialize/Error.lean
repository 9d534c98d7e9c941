import Waveform.Evaluation.Error

/-!
# Errors of the specializer

What keeps a function from being specialized. Each cause belongs to one of ten kinds, which opens
its message.
-/

namespace Waveform

inductive SpecializationError.Kind
  | unsupportedNode
  | unboundSymbol
  | purityViolation
  | unsupportedCall
  | unsupportedLoop
  | nonConcreteList
  | unsupportedValue
  | recursionLimit
  | internalConsistency
  | evaluation
  deriving DecidableEq, Repr

/-- Why a loop cannot be unrolled. -/
inductive LoopProblem
  | noCounter
  | unknownStart (counter : String)
  | noUpperBound (counter : String)
  | unknownBound (counter : String)
  | noIncrement (counter : String)
  | noAccumulation
  | tooLong (counter : String) (limit : Nat)
  deriving DecidableEq, Repr

inductive SpecializationError (ν : Type)
  /-- A branch that may return ends a block which other statements follow from outside. -/
  | conditionalResult
  | conditionalAssignment (target : String)
  | unbound (name : String)
  /-- An assignment to something that is no variable of the closure itself. -/
  | impure (target : String)
  | notCallable (callee : Expression ν)
  | loop (problem : LoopProblem)
  | notAList (value : Expression ν)
  | memberOfLiteral (object : Literal ν)
  | builtinAsValue (operation : Builtin)
  | functionAsValue (function : Function ν)
  /-- The requested name is bound to a pair or a builtin. -/
  | structuredTarget (target : String) (value : Value ν)
  | tooDeep (depth : Nat) (function : Function ν)
  | unresolvedName (name : String)
  | undeclaredTarget (target : String)
  | missingRoot (name : String)
  | freeName (name : String)
  | residualWrite (target : String)
  | evaluation (stop : Stop ν)

namespace SpecializationError

def Kind.heading : Kind → String
  | unsupportedNode => "Unsupported syntax: "
  | unboundSymbol => "Unbound symbol: "
  | purityViolation => "Purity violation: "
  | unsupportedCall => "Unsupported call: "
  | unsupportedLoop => "Unsupported loop: "
  | nonConcreteList => "Expected a concrete list, received "
  | unsupportedValue => "Unsupported value: "
  | recursionLimit => "Recursion limit exceeded: "
  | internalConsistency => "Internal consistency error: "
  | evaluation => "Evaluation failed: "

def kind {ν : Type} : SpecializationError ν → Kind
  | conditionalResult | conditionalAssignment _ => .unsupportedNode
  | unbound _ => .unboundSymbol
  | impure _ => .purityViolation
  | notCallable _ => .unsupportedCall
  | loop _ => .unsupportedLoop
  | notAList _ => .nonConcreteList
  | memberOfLiteral _ | builtinAsValue _ | functionAsValue _ | structuredTarget _ _ =>
    .unsupportedValue
  | tooDeep _ _ => .recursionLimit
  | unresolvedName _ | undeclaredTarget _ | missingRoot _ | freeName _ | residualWrite _ =>
    .internalConsistency
  | evaluation _ => .evaluation

end SpecializationError

def LoopProblem.message : LoopProblem → String
  | noCounter => "Loop must declare its counter with let"
  | unknownStart counter => "Loop counter " ++ counter ++ " must start from a number literal"
  | noUpperBound counter => "Loop test must compare " ++ counter ++ " against an upper bound"
  | unknownBound counter => "Loop bound for " ++ counter ++ " must be statically known"
  | noIncrement counter => "Loop must increment " ++ counter ++ " by one"
  | noAccumulation => "Loop body must be a single += accumulation"
  | tooLong counter limit =>
    "Loop over " ++ counter ++ " exceeds " ++ toString limit ++ " iterations"

namespace SpecializationError

variable {ν : Type} [Numeric ν]

/-- What the error says about its cause, after the heading of its kind. -/
def detail : SpecializationError ν → String
  | conditionalResult => "Conditional return inside a nested block that can fall through"
  | conditionalAssignment target =>
    "Assignment to " ++ target ++ " under a condition that is not statically known"
  | unbound name => name
  | impure target => "assignment to " ++ target ++ " escapes the specialized closure"
  | notCallable callee => callee.text
  | loop problem => problem.message
  | notAList value => value.text
  | memberOfLiteral object => "Property access on " ++ object.text
  | builtinAsValue operation => "Builtin " ++ operation.text ++ " used as a value"
  | functionAsValue function => "Function " ++ function.text ++ " escapes specialization"
  | structuredTarget target value => target ++ " = " ++ value.text
  | tooDeep depth function =>
    toString depth ++ " nested calls while inlining " ++ function.text
  | unresolvedName name => "Unresolved identifier " ++ name ++ " after capture"
  | undeclaredTarget target => "Assignment to undeclared binding " ++ target
  | missingRoot name => "Missing root unit for " ++ name
  | freeName name => "Free identifier " ++ name ++ " in specialized output"
  | residualWrite target => "Residual write to " ++ target
  | evaluation stop => stop.message

def message (e : SpecializationError ν) : String :=
  e.kind.heading ++ e.detail

end SpecializationError

end Waveform
