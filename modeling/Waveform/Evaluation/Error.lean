import Waveform.Evaluation.Value

/-!
# Errors of a run

What can stop a run before its end. Giving up is kept apart from the errors of the program.
-/

namespace Waveform

inductive RuntimeError (ν : Type)
  /-- A result outside every function. -/
  | illegalResult
  | undefinedName (name : String)
  | undeclaredTarget (name : String)
  /-- Written arrays are pairs. -/
  | notAPair (count : Nat)
  | notAFunction (target : Value ν)
  | noProperties (object property : Value ν)
  | tooManyCalls
  | notAList (value : Value ν)
  | notNumeric (operation : Builtin)

inductive Stop (ν : Type)
  | error (cause : RuntimeError ν)
  /-- The run was given up, which says nothing about the program. -/
  | exhausted

variable {ν : Type} [Numeric ν]

def RuntimeError.message : RuntimeError ν → String
  | illegalResult => "Illegal return statement"
  | undefinedName name => "ReferenceError: " ++ name ++ " is not defined"
  | undeclaredTarget name => "Assignment to undeclared variable: " ++ name
  | notAPair count =>
    "Unsupported array literal with " ++ toString count ++ " elements (expected a pair)"
  | notAFunction target => "TypeError: " ++ target.text ++ " is not a function"
  | noProperties object property =>
    "TypeError: Cannot read properties of " ++ object.text ++ " (reading '" ++ property.text ++ "')"
  | tooManyCalls => "Maximum call stack size exceeded"
  | notAList value => "length expects a list, received " ++ value.text
  | notNumeric operation => operation.text ++ " cannot be applied to numbers"

def Stop.message : Stop ν → String
  | error cause => cause.message
  | exhausted => "The run was given up"

end Waveform
