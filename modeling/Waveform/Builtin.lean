/-!
# Builtin operations

The operations that every program starts with: the mathematical functions, and two helpers over
chains of pairs. A mathematical function is reached in a program as `Math.name` and is bound in
the global frame as `math_name`; the helpers go by their plain names in both places.
-/

namespace Waveform

/-- `length` and `list` work on chains of pairs; every other builtin works on numbers. -/
inductive Builtin
  | abs | acos | acosh | asin | asinh | atan | atanh | atan2 | cbrt | ceil | cos | cosh
  | exp | expm1 | floor | fround | hypot | log | log1p | log2 | log10 | max | min | pow
  | random | round | sign | sin | sinh | sqrt | tan | tanh | trunc | length | list
  deriving DecidableEq, Repr

namespace Builtin

/-- Every builtin once, in alphabetical order, the pair helpers last. -/
def all : List Builtin :=
  [abs, acos, acosh, asin, asinh, atan, atanh, atan2, cbrt, ceil, cos, cosh,
    exp, expm1, floor, fround, hypot, log, log1p, log2, log10, max, min, pow,
    random, round, sign, sin, sinh, sqrt, tan, tanh, trunc, length, list]

theorem mem_all (b : Builtin) : b ∈ all := by
  cases b <;> decide

def name : Builtin → String
  | abs => "abs"
  | acos => "acos"
  | acosh => "acosh"
  | asin => "asin"
  | asinh => "asinh"
  | atan => "atan"
  | atanh => "atanh"
  | atan2 => "atan2"
  | cbrt => "cbrt"
  | ceil => "ceil"
  | cos => "cos"
  | cosh => "cosh"
  | exp => "exp"
  | expm1 => "expm1"
  | floor => "floor"
  | fround => "fround"
  | hypot => "hypot"
  | log => "log"
  | log1p => "log1p"
  | log2 => "log2"
  | log10 => "log10"
  | max => "max"
  | min => "min"
  | pow => "pow"
  | random => "random"
  | round => "round"
  | sign => "sign"
  | sin => "sin"
  | sinh => "sinh"
  | sqrt => "sqrt"
  | tan => "tan"
  | tanh => "tanh"
  | trunc => "trunc"
  | length => "length"
  | list => "list"

def isMath : Builtin → Bool
  | length | list => false
  | _ => true

/-- Only a random draw can give two answers for the same arguments. -/
def isDeterministic : Builtin → Bool
  | random => false
  | _ => true

def math : List Builtin :=
  all.filter isMath

/-- The name that the global frame of a program binds the builtin to. -/
def globalName (b : Builtin) : String :=
  if b.isMath then "math_" ++ b.name else b.name

def text (b : Builtin) : String :=
  if b.isMath then "Math." ++ b.name else b.name

def ofMathName? (name : String) : Option Builtin :=
  math.find? (·.name == name)

def ofGlobalName? (name : String) : Option Builtin :=
  all.find? (·.globalName == name)

end Builtin

end Waveform
