import Mathlib.Algebra.Order.Field.Rat
import Mathlib.Tactic.Linarith
import Mathlib.Tactic.Ring
import Waveform.Proofs.Inlining.Reading

/-!
# Exact numbers

The rational numbers, with one undefined number beside them, as a number system of programs. Their
mathematical functions and constants are arbitrary but fixed.
-/

namespace Waveform

/-- The functions, the constants and the random draws of a system of exact numbers. -/
structure Mathematics where
  function : Builtin → List ℚ → ℚ
  constant : Constant → ℚ
  draw : Nat → ℚ

def Mathematics.zero : Mathematics := ⟨fun _ _ => 0, fun _ => 0, fun _ => 0⟩

def Exact (_ : Mathematics) : Type := Option ℚ

namespace Exact

variable {M : Mathematics}

instance : DecidableEq (Exact M) := inferInstanceAs (DecidableEq (Option ℚ))

def of (q : ℚ) : Exact M := some q

def undefined : Exact M := none

def value? (x : Exact M) : Option ℚ := x

/-- An operation on rational numbers, which comes to a rational number where it is defined. -/
def lift₂ (f : ℚ → ℚ → Option ℚ) (x y : Exact M) : Exact M :=
  Option.bind x fun a => Option.bind y fun b => f a b

def compare (f : ℚ → ℚ → Bool) : Exact M → Exact M → Bool
  | some a, some b => f a b
  | _, _ => false

def ofDecimal (d : Decimal) : ℚ :=
  let magnitude : ℚ :=
    if 0 ≤ d.exponent then (d.mantissa * 10 ^ d.exponent.toNat : ℕ)
    else d.mantissa / (10 ^ d.exponent.natAbs : ℕ)
  if d.negative then -magnitude else magnitude

def ofNumeral : Numeral → Exact M
  | .finite d => of (ofDecimal d)
  | .infinite _ | .notANumber => undefined

def truncatedQuotient (a b : ℚ) : ℚ :=
  (a / b).num.tdiv (a / b).den

def rem (a b : ℚ) : Option ℚ :=
  if b = 0 then none else some (a - b * truncatedQuotient a b)

def pow (a b : ℚ) : Option ℚ :=
  if b.den = 1 ∧ (a ≠ 0 ∨ 0 ≤ b) then some (a ^ b.num) else none

def apply (b : Builtin) (args : List (Exact M)) : Option (Exact M) :=
  if b.isMath && b.isDeterministic then
    some ((args.mapM value?).map (M.function b))
  else none

def toNat? : Exact M → Option Nat
  | some q => if q.den = 1 ∧ 0 ≤ q then some q.num.toNat else none
  | none => none

instance : Numeric (Exact M) where
  ofNumeral := ofNumeral
  constant c := of (M.constant c)
  neg x := Option.map (- ·) x
  add := lift₂ fun a b => some (a + b)
  sub := lift₂ fun a b => some (a - b)
  mul := lift₂ fun a b => some (a * b)
  div := lift₂ fun a b => if b = 0 then none else some (a / b)
  rem := lift₂ rem
  pow := lift₂ pow
  eq := compare fun a b => a = b
  lt := compare fun a b => a < b
  apply := apply
  toNat? := toNat?
  draw n := of (M.draw n)
  text
    | some q => toString q
    | none => "NaN"

variable (a b : ℚ)

theorem of_inj {a b : ℚ} (h : (of a : Exact M) = of b) : a = b :=
  Option.some.inj h

@[simp] theorem zero_eq : (Numeric.zero : Exact M) = of 0 := rfl

@[simp] theorem one_eq : (Numeric.one : Exact M) = of 1 := rfl

@[simp] theorem neg_of : Numeric.neg (of a : Exact M) = of (-a) := rfl

@[simp] theorem add_of : Numeric.add (of a : Exact M) (of b) = of (a + b) := rfl

@[simp] theorem sub_of : Numeric.sub (of a : Exact M) (of b) = of (a - b) := rfl

@[simp] theorem mul_of : Numeric.mul (of a : Exact M) (of b) = of (a * b) := rfl

theorem div_of {b : ℚ} (h : b ≠ 0) : Numeric.div (of a : Exact M) (of b) = of (a / b) :=
  if_neg h

@[simp] theorem eq_of : Numeric.eq (of a : Exact M) (of b) = decide (a = b) := rfl

@[simp] theorem lt_of : Numeric.lt (of a : Exact M) (of b) = decide (a < b) := rfl

@[simp] theorem le_of : Numeric.le (of a : Exact M) (of b) = decide (a ≤ b) := by
  rw [Numeric.le, lt_of, eq_of, ← Bool.decide_or]
  exact decide_eq_decide.2 le_iff_lt_or_eq.symm

@[simp] theorem isZero_of : Numeric.isZero (of a : Exact M) = decide (a = 0) := by
  rw [Numeric.isZero, zero_eq, eq_of]

@[simp] theorem isOne_of : Numeric.isOne (of a : Exact M) = decide (a = 1) := by
  rw [Numeric.isOne, one_eq, eq_of]

theorem eq_of_eq {x y : Exact M} (h : Numeric.eq x y = true) : x = y := by
  match x, y with
  | some a, some b => exact congrArg some (of_decide_eq_true h)
  | none, _ => cases h
  | some _, none => cases h

theorem isZero_iff {x : Exact M} : Numeric.isZero x = true ↔ x = of 0 := by
  match x with
  | some a =>
    change Numeric.isZero (of a) = true ↔ (of a : Exact M) = of 0
    rw [isZero_of, decide_eq_true_iff]
    exact ⟨congrArg of, of_inj⟩
  | none => exact ⟨nofun, nofun⟩

theorem isOne_iff {x : Exact M} : Numeric.isOne x = true ↔ x = of 1 := by
  match x with
  | some a =>
    change Numeric.isOne (of a) = true ↔ (of a : Exact M) = of 1
    rw [isOne_of, decide_eq_true_iff]
    exact ⟨congrArg of, of_inj⟩
  | none => exact ⟨nofun, nofun⟩

theorem apply_of {b : Builtin} (hmath : b.isMath = true) (hdeterministic : b.isDeterministic = true)
    (qs : List ℚ) :
    Numeric.apply b (qs.map of : List (Exact M)) = some (of (M.function b qs)) := by
  have hqs : (qs.map of : List (Exact M)).mapM value? = some qs := by
    induction qs with
    | nil => rfl
    | cons q qs ih =>
      rw [List.map_cons, List.mapM_cons, ih]
      rfl
  change (if (b.isMath && b.isDeterministic) = true then _ else none) = _
  rw [hqs, hmath, hdeterministic]
  rfl

theorem toNat?_iff {x : Exact M} {n : Nat} : Numeric.toNat? x = some n ↔ x = of n := by
  match x with
  | some a =>
    change (if a.den = 1 ∧ 0 ≤ a then some a.num.toNat else none) = some n ↔ some a = some (n : ℚ)
    rw [Option.some.injEq]
    constructor
    · intro h
      split at h
      · next hwhole =>
        obtain ⟨hden, hnonneg⟩ := hwhole
        have hnum : (a.num.toNat : ℤ) = a.num := Int.toNat_of_nonneg (Rat.num_nonneg.2 hnonneg)
        rw [← Option.some.inj h, ← Rat.den_eq_one_iff a |>.1 hden]
        exact_mod_cast hnum.symm
      · cases h
    · rintro rfl
      simp
  | none => exact ⟨nofun, nofun⟩

instance : Numeric.Indexed (Exact M) where
  zero x := by rw [toNat?_iff, isZero_iff, Nat.cast_zero]
  one x := by rw [toNat?_iff, isOne_iff, Nat.cast_one]

end Exact

end Waveform
