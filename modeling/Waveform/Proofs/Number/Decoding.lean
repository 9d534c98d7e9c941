import Mathlib.Algebra.Group.Nat.Defs
import Waveform.Number.Mathematics
import Waveform.Proofs.Inlining.Reading

/-!
# Decoding doubles

`Double.classify` reads the fields of a double off its bits by arithmetic. The logical model of
floating-point numbers reads the same fields off a bit vector, and compares numbers by them.
-/

namespace Waveform.Double

open Float.Model

def signOf (negative : Bool) : UnpackedFloat.Sign :=
  if negative then .negative else .positive

section

variable (b : BitVec Format.binary64.numBits)

theorem toNat_unpackMantissa :
    (UnpackedFloat.unpackMantissa b).toNat = b.toNat % 2 ^ 52 := by
  simp [UnpackedFloat.unpackMantissa]

theorem toNat_unpackExponent :
    (UnpackedFloat.unpackExponent b).toNat = b.toNat / 2 ^ 52 % 2 ^ 11 := by
  simp [UnpackedFloat.unpackExponent, Nat.shiftRight_eq_div_pow]

theorem toNat_unpackSign :
    (UnpackedFloat.unpackSign b).toNat = b.toNat / 2 ^ 63 % 2 := by
  change (BitVec.cast _ (BitVec.extractLsb 63 63 b)).toNat = _
  simp [Nat.shiftRight_eq_div_pow]

theorem unpackExponent_eq_ones :
    UnpackedFloat.unpackExponent b = -1#_ ↔ b.toNat / 2 ^ 52 % 2 ^ 11 = 2047 := by
  rw [← toNat_unpackExponent, ← BitVec.toNat_inj]
  rfl

theorem unpackExponent_eq_zero :
    UnpackedFloat.unpackExponent b = 0#_ ↔ b.toNat / 2 ^ 52 % 2 ^ 11 = 0 := by
  rw [← toNat_unpackExponent, ← BitVec.toNat_inj]
  rfl

theorem unpackMantissa_eq_zero :
    UnpackedFloat.unpackMantissa b = 0#_ ↔ b.toNat % 2 ^ 52 = 0 := by
  rw [← toNat_unpackMantissa, ← BitVec.toNat_inj]
  rfl

theorem toNat_one_append_unpackMantissa :
    (1#1 ++ UnpackedFloat.unpackMantissa b).toNat = 2 ^ 52 + b.toNat % 2 ^ 52 := by
  have hlt : (UnpackedFloat.unpackMantissa b).toNat < 2 ^ 52 :=
    (UnpackedFloat.unpackMantissa b).isLt
  rw [BitVec.toNat_append, ← Nat.shiftLeft_add_eq_or_of_lt hlt, toNat_unpackMantissa]
  rfl

theorem ofBitVec_unpackSign :
    UnpackedFloat.Sign.ofBitVec (UnpackedFloat.unpackSign b) =
      signOf (b.toNat / pow2 63 == 1) := by
  have hlt : b.toNat < 2 ^ 64 := b.isLt
  have hpow : pow2 63 = 2 ^ 63 := rfl
  have hzero : UnpackedFloat.unpackSign b = 0#1 ↔ b.toNat / 2 ^ 63 = 0 := by
    rw [← BitVec.toNat_inj, toNat_unpackSign, BitVec.toNat_ofNat]
    omega
  unfold UnpackedFloat.Sign.ofBitVec signOf
  rw [hpow]
  by_cases h0 : b.toNat / 2 ^ 63 = 0
  · rw [if_pos (hzero.mpr h0), h0]
    rfl
  · have h1 : b.toNat / 2 ^ 63 = 1 := by omega
    rw [if_neg (mt hzero.mp h0), h1]
    rfl

end

/-- The unpacked number is what the bits say. -/
inductive Unpacks : Class → UnpackedFloat → Prop
  | notANumber : Unpacks .notANumber .notANumber
  | infinite (negative : Bool) : Unpacks (.infinite negative) (.infinity (signOf negative))
  | zero (negative : Bool) (exponent : Int) :
    Unpacks (.finite ⟨negative, 0, exponent⟩) (.zero (signOf negative))
  | finite (negative : Bool) (mantissa : Nat) (exponent : Int) (h : 0 < mantissa)
    (hlt : mantissa < 2 ^ 53) (hnormal : 2 ^ 52 ≤ mantissa ∨ exponent = -1074) :
    Unpacks (.finite ⟨negative, mantissa, exponent⟩)
      (.finite (signOf negative) mantissa exponent h)

theorem Unpacks.of_eq {negative : Bool} {mantissa m : Nat} {exponent e : Int} {h : 0 < m}
    (hm : m = mantissa) (he : e = exponent) (hlt : mantissa < 2 ^ 53)
    (hnormal : 2 ^ 52 ≤ mantissa ∨ exponent = -1074) :
    Unpacks (.finite ⟨negative, mantissa, exponent⟩) (.finite (signOf negative) m e h) := by
  subst hm he
  exact .finite negative m e h hlt hnormal

theorem unpacks (x : Float) : Unpacks (classify x) x.toModel.unpack := by
  have hbits : x.toBits.toNat = x.toModel.toBits.toBitVec.toNat := rfl
  have h52 : pow2 52 = 2 ^ 52 := rfl
  have h11 : pow2 11 = 2 ^ 11 := rfl
  have hbias : (Format.binary64.exponentBias : Int) = 1023 := rfl
  unfold Float.Model.unpack UnpackedFloat.unpack classify
  rw [hbits]
  generalize x.toModel.toBits.toBitVec = bits
  dsimp only
  rw [ofBitVec_unpackSign bits]
  have hexponent := toNat_unpackExponent bits
  rw [h52, h11]
  by_cases h2047 : bits.toNat / 2 ^ 52 % 2 ^ 11 = 2047
  · rw [if_pos (beq_iff_eq.mpr h2047), if_pos ((unpackExponent_eq_ones bits).mpr h2047)]
    by_cases h0 : bits.toNat % 2 ^ 52 = 0
    · rw [if_pos (beq_iff_eq.mpr h0), if_pos ((unpackMantissa_eq_zero bits).mpr h0)]
      exact .infinite _
    · rw [if_neg (mt beq_iff_eq.mp h0), if_neg (mt (unpackMantissa_eq_zero bits).mp h0)]
      exact .notANumber
  · rw [if_neg (mt beq_iff_eq.mp h2047), if_neg (mt (unpackExponent_eq_ones bits).mp h2047)]
    have hlt : bits.toNat % 2 ^ 52 < 2 ^ 52 := Nat.mod_lt _ (by decide)
    by_cases h0 : bits.toNat / 2 ^ 52 % 2 ^ 11 = 0
    · rw [if_pos (beq_iff_eq.mpr h0), if_pos ((unpackExponent_eq_zero bits).mpr h0)]
      by_cases hm0 : bits.toNat % 2 ^ 52 = 0
      · rw [dif_pos ((unpackMantissa_eq_zero bits).mpr hm0), hm0]
        exact .zero _ _
      · rw [dif_neg (mt (unpackMantissa_eq_zero bits).mp hm0)]
        refine .of_eq (toNat_unpackMantissa bits) ?_ (by omega) (.inr rfl)
        rw [hbias]
        omega
    · rw [if_neg (mt beq_iff_eq.mp h0), if_neg (mt (unpackExponent_eq_zero bits).mp h0)]
      refine .of_eq (toNat_one_append_unpackMantissa bits) ?_ (by omega) (.inl (by omega))
      rw [hbias]
      omega

theorem isZero_eq (x : Float) :
    Numeric.isZero x = x.toModel.unpack.beq (.zero .positive) := rfl

theorem isOne_eq (x : Float) :
    Numeric.isOne x = x.toModel.unpack.beq (.finite .positive (2 ^ 52) (-52) (by decide)) := rfl

theorem toNat?_eq {x : Float} {negative : Bool} {mantissa : Nat} {exponent : Int}
    (h : classify x = .finite ⟨negative, mantissa, exponent⟩) :
    Numeric.toNat? x =
      if negative = true ∧ mantissa ≠ 0 then none
      else if mantissa % 2 ^ (-exponent).toNat = 0 then
        some (mantissa * 2 ^ exponent.toNat / 2 ^ (-exponent).toNat)
      else none := by
  change toNat? x = _
  unfold toNat?
  rw [h]
  simp only [pow2, beq_iff_eq, Bool.and_eq_true, bne_iff_ne]
  rfl

theorem toNat?_none {x : Float} (h : ∀ b, classify x ≠ .finite b) : Numeric.toNat? x = none := by
  change toNat? x = _
  unfold toNat?
  split
  · exact absurd ‹_› (h _)
  · rfl

theorem shifted_pos {m j k : Nat} (hm : 0 < m) (hdvd : m % 2 ^ k = 0) :
    0 < m * 2 ^ j / 2 ^ k := by
  obtain ⟨q, rfl⟩ := Nat.dvd_of_mod_eq_zero hdvd
  have hq : 0 < q := Nat.pos_of_mul_pos_left hm
  rw [Nat.mul_assoc, Nat.mul_div_cancel_left _ (Nat.two_pow_pos k)]
  exact Nat.mul_pos hq (Nat.two_pow_pos j)

theorem shifted_one {m : Nat} {e : Int} (hlt : m < 2 ^ 53) (hnormal : 2 ^ 52 ≤ m ∨ e = -1074)
    (hdvd : m % 2 ^ (-e).toNat = 0) (hone : m * 2 ^ e.toNat / 2 ^ (-e).toNat = 1) :
    m = 2 ^ 52 ∧ e = -52 := by
  obtain ⟨q, rfl⟩ := Nat.dvd_of_mod_eq_zero hdvd
  rw [Nat.mul_assoc, Nat.mul_div_cancel_left _ (Nat.two_pow_pos _)] at hone
  obtain rfl := Nat.eq_one_of_mul_eq_one_right hone
  rw [Nat.mul_one] at hlt hnormal ⊢
  have hle : (-e).toNat < 53 := (Nat.pow_lt_pow_iff_right (by decide)).mp hlt
  obtain hnormal | rfl := hnormal
  · have hge : 52 ≤ (-e).toNat := (Nat.pow_le_pow_iff_right (by decide)).mp hnormal
    have hk : (-e).toNat = 52 := by omega
    exact ⟨by rw [hk], by omega⟩
  · exact absurd hle (by decide)

theorem toNat?_zero (x : Float) : Numeric.toNat? x = some 0 ↔ Numeric.isZero x = true := by
  have hunpacks := unpacks x
  rw [isZero_eq]
  generalize hc : classify x = c at hunpacks
  generalize x.toModel.unpack = u at hunpacks
  cases hunpacks with
  | notANumber =>
    have hnone : Numeric.toNat? x = none := toNat?_none (by simp [hc])
    exact iff_of_false (by simp [hnone]) Bool.false_ne_true
  | infinite negative =>
    have hnone : Numeric.toNat? x = none := toNat?_none (by simp [hc])
    refine iff_of_false (by simp [hnone]) ?_
    cases negative <;> exact Bool.false_ne_true
  | zero negative exponent =>
    rw [toNat?_eq hc]
    exact iff_of_true (by simp) rfl
  | finite negative mantissa exponent h hlt hnormal =>
    have hbeq : UnpackedFloat.beq (.finite (signOf negative) mantissa exponent h)
        (.zero .positive) = false := by
      cases negative <;> rfl
    rw [toNat?_eq hc, hbeq]
    refine ⟨fun hsome => ?_, fun hfalse => by cases hfalse⟩
    split at hsome
    · cases hsome
    · split at hsome
      · have hpos := shifted_pos (j := exponent.toNat) h ‹_›
        rw [Option.some.injEq] at hsome
        omega
      · cases hsome

theorem beq_one {s : UnpackedFloat.Sign} {m : Nat} {e : Int} (h : 0 < m) :
    UnpackedFloat.beq (.finite s m e h) (.finite .positive (2 ^ 52) (-52) (by decide)) = true ↔
      s = .positive ∧ m = 2 ^ 52 ∧ e = -52 := by
  cases s with
  | negative => exact iff_of_false Bool.false_ne_true fun hsign => nomatch hsign.1
  | positive =>
    change (some ((compare e (-52)).then (compare m (2 ^ 52))) == some Ordering.eq) = true ↔ _
    rw [beq_iff_eq, Option.some_inj, Ordering.then_eq_eq, Int.compare_eq_eq, Nat.compare_eq_eq]
    exact ⟨fun heq => ⟨rfl, heq.2, heq.1⟩, fun heq => ⟨heq.2.2, heq.2.1⟩⟩

theorem toNat?_one (x : Float) : Numeric.toNat? x = some 1 ↔ Numeric.isOne x = true := by
  have hunpacks := unpacks x
  rw [isOne_eq]
  generalize hc : classify x = c at hunpacks
  generalize x.toModel.unpack = u at hunpacks
  cases hunpacks with
  | notANumber =>
    have hnone : Numeric.toNat? x = none := toNat?_none (by simp [hc])
    exact iff_of_false (by simp [hnone]) Bool.false_ne_true
  | infinite negative =>
    have hnone : Numeric.toNat? x = none := toNat?_none (by simp [hc])
    refine iff_of_false (by simp [hnone]) ?_
    cases negative <;> exact Bool.false_ne_true
  | zero negative exponent =>
    rw [toNat?_eq hc]
    refine iff_of_false (by simp) ?_
    cases negative <;> exact Bool.false_ne_true
  | finite negative mantissa exponent h hlt hnormal =>
    rw [toNat?_eq hc, beq_one h]
    constructor
    · intro hsome
      split at hsome
      · cases hsome
      · split at hsome
        · rename_i hsign hdvd
          rw [Option.some.injEq] at hsome
          cases negative with
          | true => exact absurd ⟨rfl, Nat.ne_of_gt h⟩ hsign
          | false => exact ⟨rfl, shifted_one hlt hnormal hdvd hsome⟩
        · cases hsome
    · rintro ⟨hsign, rfl, rfl⟩
      cases negative with
      | true => cases hsign
      | false => rfl

instance : Numeric.Indexed Float where
  zero := toNat?_zero
  one := toNat?_one

end Waveform.Double
