import Waveform.Number.Power

/-!
# Shortest decimal digits

A binary floating-point value stands for every real number that rounds to it. `Rounding` holds
that interval over one common denominator, and `Rounding.shortest` finds the decimal with the
fewest digits inside it, and among those the nearest to the value itself.

For each count of digits only the two neighbours of the value on that decimal grid can be the
nearest, so `Rounding.onGrid?` looks at these two.
-/

namespace Waveform

inductive Tie
  | up
  | even
  deriving DecidableEq, Repr

/-- A positive rational `value / denominator` with the bounds of the interval that rounds to it. -/
structure Rounding where
  low : Nat
  value : Nat
  high : Nat
  denominator : Nat
  /-- Whether the bounds themselves round to the value. -/
  closed : Bool
  deriving Repr

/-- The number `digits · 10 ^ exponent`. -/
structure Scaled where
  digits : Nat
  exponent : Int
  deriving DecidableEq, Repr

namespace Scaled

def trimZeros : Nat → Scaled → Scaled
  | 0, s => s
  | count + 1, s =>
    if s.digits != 0 && s.digits % 10 == 0 then trimZeros count ⟨s.digits / 10, s.exponent + 1⟩
    else s

def width (s : Scaled) : Nat :=
  (Nat.toDigits 10 s.digits).length

/-- The `e` with `10 ^ (e - 1) ≤ s < 10 ^ e`. -/
def magnitude (s : Scaled) : Int :=
  s.width + s.exponent

end Scaled

/-- Whether `n / d < 10 ^ e`. -/
def ratioBelowPower (n d : Nat) (e : Int) : Bool :=
  n * pow10 (-e).toNat < d * pow10 e.toNat

/-- The least `e` with `n / d < 10 ^ e`. The binary logarithms give a bound from below that is
short by less than four. -/
def ratioMagnitude (n d : Nat) : Int :=
  let bound : Int := ((n.log2 : Int) - d.log2 - 1) * 1233 / 4096 - 1
  let fits (k : Nat) : Bool := ratioBelowPower n d (bound + k)
  bound + ((List.range 5).find? fits).getD 5

def roundRatio (tie : Tie) (n d : Nat) : Nat :=
  let q := n / d
  let twice := 2 * (n % d)
  if twice < d then q
  else if d < twice then q + 1
  else match tie with
    | .up => q + 1
    | .even => if q % 2 == 0 then q else q + 1

namespace Rounding

/-- The interval of the reals that round to `mantissa · 2 ^ exponent`. Just above a power of two
the values are twice as far apart as just below it, which `lowerGapHalved` says. -/
def ofBinary (mantissa : Nat) (exponent : Int) (lowerGapHalved : Bool) : Rounding :=
  let unit := pow2 (exponent - 2).toNat
  { low := (4 * mantissa - if lowerGapHalved then 1 else 2) * unit
    value := 4 * mantissa * unit
    high := (4 * mantissa + 2) * unit
    denominator := pow2 (2 - exponent).toNat
    closed := mantissa % 2 == 0 }

/-- The nearest point of the grid of multiples of `10 ^ k`, if one rounds to the value. -/
def onGrid? (r : Rounding) (tie : Tie) (k : Int) : Option Nat :=
  let unit := r.denominator * pow10 k.toNat
  let scale := pow10 (-k).toNat
  let inside (d : Nat) : Bool :=
    let point := d * unit
    if r.closed then r.low * scale ≤ point && point ≤ r.high * scale
    else r.low * scale < point && point < r.high * scale
  let below := r.value * scale / unit
  let nearest := roundRatio tie (r.value * scale) unit
  if inside nearest then some nearest
  else if inside below then some below
  else if inside (below + 1) then some (below + 1)
  else none

/-- The fewest digits that round to the value; seventeen always suffice for a value of 53 bits,
and sixteen tries are made before the last. -/
def shortest (r : Rounding) (tie : Tie) : Scaled :=
  let top := ratioMagnitude r.value r.denominator
  let candidate? (n : Nat) : Option Scaled :=
    let k := top - (n + 1 : Nat)
    (r.onGrid? tie k).map fun d => ⟨d, k⟩
  let last : Scaled :=
    ⟨roundRatio tie (r.value * pow10 (17 - top).toNat) (r.denominator * pow10 (top - 17).toNat),
      top - 17⟩
  (((List.range 16).findSome? candidate?).getD last).trimZeros 17

def toDigits (r : Rounding) (count : Nat) : Scaled :=
  let k := ratioMagnitude r.value r.denominator - count
  Scaled.trimZeros (count + 1)
    ⟨roundRatio .even (r.value * pow10 (-k).toNat) (r.denominator * pow10 k.toNat), k⟩

end Rounding

end Waveform
