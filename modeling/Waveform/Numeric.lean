import Waveform.Builtin
import Waveform.Number.Decimal

/-!
# Number systems

Programs, the evaluator and the specializer are the same over every type of numbers that has the
operations of `Numeric`. Nothing here asks for laws: double-precision numbers have few, and what
needs laws states them as hypotheses.
-/

namespace Waveform

/-- The mathematical constants that a program can name. -/
inductive Constant
  | pi | e | ln2 | ln10 | log2e | log10e | sqrt2 | sqrtHalf
  deriving DecidableEq, Repr

namespace Constant

def all : List Constant :=
  [pi, e, ln2, ln10, log2e, log10e, sqrt2, sqrtHalf]

def name : Constant → String
  | pi => "PI"
  | e => "E"
  | ln2 => "LN2"
  | ln10 => "LN10"
  | log2e => "LOG2E"
  | log10e => "LOG10E"
  | sqrt2 => "SQRT2"
  | sqrtHalf => "SQRT1_2"

/-- The name that the global frame of a program binds the constant to. -/
def globalName (c : Constant) : String :=
  "math_" ++ c.name

def ofName? (name : String) : Option Constant :=
  all.find? (·.name == name)

end Constant

/-- The operations that programs perform on numbers. -/
class Numeric (ν : Type) where
  ofNumeral : Numeral → ν
  constant : Constant → ν
  neg : ν → ν
  add : ν → ν → ν
  sub : ν → ν → ν
  mul : ν → ν → ν
  div : ν → ν → ν
  rem : ν → ν → ν
  pow : ν → ν → ν
  /-- Equality of numbers; an undefined number equals nothing. -/
  eq : ν → ν → Bool
  lt : ν → ν → Bool
  /-- The value of a deterministic function on numbers. -/
  apply : Builtin → List ν → Option ν
  /-- The whole number that a number is equal to, unless it is negative. -/
  toNat? : ν → Option Nat
  /-- The number drawn by the given random draw of a run. -/
  draw : Nat → ν
  /-- The number in the text of a program. -/
  text : ν → String

namespace Numeric

variable {ν : Type} [Numeric ν]

def ofNat (n : Nat) : ν :=
  ofNumeral (.finite (.ofNat n))

def zero : ν := ofNat 0

def one : ν := ofNat 1

def nan : ν := ofNumeral .notANumber

def infinity : ν := ofNumeral (.infinite false)

def isZero (x : ν) : Bool := eq x zero

def isOne (x : ν) : Bool := eq x one

/-- An undefined number is the one that does not equal itself. -/
def isNaN (x : ν) : Bool := ! eq x x

def isNegative (x : ν) : Bool := lt x zero

def le (x y : ν) : Bool := lt x y || eq x y

def isTruthy (x : ν) : Bool := ! (isNaN x || isZero x)

end Numeric

end Waveform
