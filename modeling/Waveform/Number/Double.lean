import Waveform.Number.Decimal
import Waveform.Number.Layout

/-!
# Double-precision numbers

`Double` decodes a floating-point number into an exact whole number times a power of two, and
builds on that the operations whose results are exact: reading and writing decimals, the remainder
of a division, and rounding to a whole number.
-/

namespace Waveform

/-- The number `mantissa · 2 ^ exponent`, negated when `negative` holds. -/
structure Binary where
  negative : Bool
  mantissa : Nat
  exponent : Int
  deriving DecidableEq, Repr

namespace Double

/-- What the bits of a double say. -/
inductive Class
  | finite (value : Binary)
  | infinite (negative : Bool)
  | notANumber
  deriving DecidableEq, Repr

/-- Decodes the sign, the 11 bits of the exponent and the 52 bits of the fraction. -/
def classify (x : Float) : Class :=
  let bits : Nat := x.toBits.toNat
  let negative := bits / pow2 63 == 1
  let biased : Nat := bits / pow2 52 % pow2 11
  let fraction : Nat := bits % pow2 52
  if biased == 2047 then
    if fraction == 0 then .infinite negative else .notANumber
  else if biased == 0 then .finite ⟨negative, fraction, -1074⟩
  else .finite ⟨negative, pow2 52 + fraction, (biased : Int) - 1075⟩

def negateIf (negative : Bool) (x : Float) : Float :=
  if negative then -x else x

def infinity : Float := 1.0 / 0.0

def nan : Float := 0.0 / 0.0

/-- The double with the given mantissa and exponent, when there is one. -/
def ofBinary (b : Binary) : Float :=
  negateIf b.negative ((Float.ofNat b.mantissa).scaleB b.exponent)

/-- The double nearest to a decimal. Decimals beyond the range of doubles are cut off by their
count of digits, so that no power of ten is computed for them. -/
def ofDecimal (d : Decimal) : Float :=
  let magnitude := Scaled.magnitude ⟨d.mantissa, d.exponent⟩
  let unsigned :=
    if d.mantissa == 0 || magnitude < -400 then 0.0
    else if 400 < magnitude then infinity
    else Float.ofScientific d.mantissa (d.exponent < 0) d.exponent.natAbs
  negateIf d.negative unsigned

def ofNumeral : Numeral → Float
  | .finite d => ofDecimal d
  | .infinite negative => negateIf negative infinity
  | .notANumber => nan

/-- The reals that round to a double other than zero. -/
def rounding (b : Binary) : Rounding :=
  .ofBinary b.mantissa b.exponent (b.mantissa == pow2 52 && -1074 < b.exponent)

def write (l : Layout) (x : Float) : String :=
  match classify x with
  | .notANumber => l.nan
  | .infinite false => l.infinity
  | .infinite true => l.negativeInfinity
  | .finite b =>
    if b.mantissa == 0 then if b.negative then l.negativeZero else l.zero
    else l.write b.negative ((rounding b).shortest l.tie)

/-- The double nearest to the value's first `count` significant digits. -/
def roundDigits (count : Nat) (x : Float) : Float :=
  match classify x with
  | .finite b =>
    if b.mantissa == 0 then x
    else
      let s := (rounding b).toDigits count
      ofDecimal ⟨b.negative, s.digits, s.exponent⟩
  | _ => x

/-- The remainder of `x / y` toward zero, exact, with the sign of `x`. -/
def remainder (x y : Float) : Float :=
  match classify x, classify y with
  | .finite a, .finite b =>
    if b.mantissa == 0 then nan
    else
      let exponent := min a.exponent b.exponent
      let r := (a.mantissa * pow2 (a.exponent - exponent).toNat) %
        (b.mantissa * pow2 (b.exponent - exponent).toNat)
      ofBinary ⟨a.negative, r, exponent⟩
  | .finite _, .infinite _ => x
  | _, _ => nan

/-- The whole number that a double is equal to, unless it is negative. -/
def toNat? (x : Float) : Option Nat :=
  match classify x with
  | .finite b =>
    let scale := pow2 (-b.exponent).toNat
    if b.negative && b.mantissa != 0 then none
    else if b.mantissa % scale == 0 then some (b.mantissa * pow2 b.exponent.toNat / scale)
    else none
  | _ => none

def truncate (x : Float) : Float :=
  if x < 0.0 then x.ceil else x.floor

/-- Rounds to the nearest whole number, a half upward. -/
def roundHalfUp (x : Float) : Float :=
  if x.isFinite && truncate x != x then (x + 0.5).floor else x

def toSingle (x : Float) : Float :=
  x.toFloat32.toFloat

/-- A power; one to an infinite or undefined power is undefined. -/
def power (x y : Float) : Float :=
  if y.isNaN || (x.abs == 1.0 && y.isInf) then nan else x.pow y

/-- The largest whole number whose power is at most `n`, found from its highest bit down. -/
def rootBelow (degree n : Nat) : Nat :=
  (List.range (n.log2 / degree + 1)).foldr
    (fun bit root =>
      let longer := root + pow2 bit
      if Nat.pow longer degree ≤ n then longer else root) 0

/-- The double nearest to a root of the number `n * 2 ^ (degree * exponent)`. The root is found to
sixty-four more bits than a double holds, with a last bit that marks an inexact one. -/
def nearestRoot (degree n : Nat) (exponent : Int) : Float :=
  let scaled := n * pow2 (degree * 64)
  let root := rootBelow degree scaled
  let marked := if Nat.pow root degree == scaled then 2 * root else 2 * root + 1
  let place := exponent - 65
  if 0 ≤ place then Float.ofScientific (marked * pow2 place.toNat) false 0
  else Float.ofScientific (marked * Nat.pow 5 place.natAbs) true place.natAbs

def hypotenuse (x y : Float) : Float :=
  match classify x, classify y with
  | .infinite _, _ => infinity
  | _, .infinite _ => infinity
  | .finite a, .finite b =>
    let exponent := min a.exponent b.exponent
    let p := a.mantissa * pow2 (a.exponent - exponent).toNat
    let q := b.mantissa * pow2 (b.exponent - exponent).toNat
    nearestRoot 2 (p * p + q * q) exponent
  | _, _ => nan

/-- The cube root, rounded once. -/
def cubeRoot (x : Float) : Float :=
  match classify x with
  | .finite b =>
    if b.mantissa == 0 then x
    else
      let third := b.exponent.fdiv 3
      let n := b.mantissa * pow2 (b.exponent - 3 * third).toNat
      negateIf b.negative (nearestRoot 3 n third)
  | _ => x

end Double

end Waveform
