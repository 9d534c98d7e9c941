import Waveform.Numeric
import Waveform.Number.Double

/-!
# Mathematical functions on doubles

Double-precision numbers as a number system: every builtin on numbers, the constants, and the
instance that programs run with. A missing argument counts as the undefined number.
-/

namespace Waveform

namespace Double

/-- The logarithm of `1 + x`, accurate near zero: the rounding error of `1 + x` is divided out. -/
def logOnePlus (x : Float) : Float :=
  let u := 1.0 + x
  if u == 1.0 || u == infinity then x else u.log * x / (u - 1.0)

/-- The value of `exp x - 1`, accurate near zero in the same way. -/
def expMinusOne (x : Float) : Float :=
  let u := x.exp
  if u == 1.0 then x
  else
    let difference := u - 1.0
    if difference == -1.0 || difference.isInf then difference else difference * x / u.log

/-- The inverse hyperbolic sine of the magnitude, with the sign of the number. -/
def inverseSinh (x : Float) : Float :=
  let magnitude := x.abs
  let reciprocal := 1.0 / magnitude
  let y := logOnePlus (magnitude + magnitude / (hypotenuse 1.0 reciprocal + reciprocal))
  if x == 0.0 then x else if x < 0.0 then -y else y

def inverseCosh (x : Float) : Float :=
  if x < 1.0 then nan else (x + (x - 1.0).sqrt * (x + 1.0).sqrt).log

def inverseTanh (x : Float) : Float :=
  0.5 * logOnePlus (2.0 * x / (1.0 - x))

/-- One with the sign of the number; zeros and the undefined number stay as they are. -/
def sign (x : Float) : Float :=
  if x < 0.0 then -1.0 else if 0.0 < x then 1.0 else x

/-- The extreme argument under `prefers`, undefined as soon as one argument is. -/
def extreme (prefers : Float → Float → Bool) (start : Float) (args : List Float) : Float :=
  args.foldl
    (fun best x => if best.isNaN || x.isNaN then nan else if prefers x best then x else best)
    start

/-- Applies a function on numbers. A random draw and the pair helpers are no such functions. -/
def apply (b : Builtin) (args : List Float) : Option Float :=
  let x := args.getD 0 nan
  let y := args.getD 1 nan
  match b with
  | .abs => x.abs
  | .acos => x.acos
  | .acosh => inverseCosh x
  | .asin => x.asin
  | .asinh => inverseSinh x
  | .atan => x.atan
  | .atanh => inverseTanh x
  | .atan2 => x.atan2 y
  | .cbrt => cubeRoot x
  | .ceil => x.ceil
  | .cos => x.cos
  | .cosh => x.cosh
  | .exp => x.exp
  | .expm1 => expMinusOne x
  | .floor => x.floor
  | .fround => toSingle x
  | .hypot => some (args.foldl hypotenuse 0.0)
  | .log => x.log
  | .log1p => logOnePlus x
  | .log2 => x.log2
  | .log10 => x.log10
  | .max => extreme (fun x best => best < x) (-infinity) args
  | .min => extreme (fun x best => x < best) infinity args
  | .pow => power x y
  | .round => roundHalfUp x
  | .sign => sign x
  | .sin => x.sin
  | .sinh => x.sinh
  | .sqrt => x.sqrt
  | .tan => x.tan
  | .tanh => x.tanh
  | .trunc => truncate x
  | .random | .length | .list => none

def constant : Constant → Float
  | .pi => 3.141592653589793
  | .e => 2.718281828459045
  | .ln2 => 0.6931471805599453
  | .ln10 => 2.302585092994046
  | .log2e => 1.4426950408889634
  | .log10e => 0.4342944819032518
  | .sqrt2 => 1.4142135623730951
  | .sqrtHalf => 0.7071067811865476

/-- The draws of a run step through the unit interval by the golden section. -/
def draw (n : Nat) : Float :=
  let x := (n + 1).toFloat * 0.6180339887498949
  x - x.floor

instance : Numeric Float where
  ofNumeral := ofNumeral
  constant := constant
  neg x := -x
  add x y := x + y
  sub x y := x - y
  mul x y := x * y
  div x y := x / y
  rem := remainder
  pow := power
  eq x y := x == y
  lt x y := x < y
  apply := apply
  toNat? := toNat?
  draw := draw
  text := write .programText

end Double

end Waveform
