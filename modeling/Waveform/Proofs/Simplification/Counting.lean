import Waveform.Proofs.Simplification.Recursion
import Waveform.Proofs.Symbolic.Literals

/-!
# What literals count as

Operators turn their operands into numbers. A rational number counts as itself, and so does a truth
value as zero or one where truth values are admitted. An operator does not tell apart literals that
count as the same number, unless it joins strings.
-/

namespace Waveform

variable {M : Mathematics} {truths : Bool}

namespace Literal

/-- Whether the literal is the rational number, or the truth value that counts as it where truth
values are admitted. -/
inductive CountsAs (truths : Bool) : Literal (Exact M) → ℚ → Prop
  | number (q) : CountsAs truths (.number (.of q)) q
  | boolean (b) (h : truths = true) : CountsAs truths (.boolean b) (if b then 1 else 0)

def StandsFor (truths : Bool) (l m : Literal (Exact M)) : Prop :=
  l = m ∨ ∃ q, l.CountsAs truths q ∧ m = .number (.of q)

variable {l l' m m' : Literal (Exact M)} {p q : ℚ}

theorem CountsAs.toNumber_eq (h : l.CountsAs truths q) : l.toNumber = .of q := by
  cases h with
  | number => rfl
  | boolean b => cases b <;> rfl

theorem CountsAs.ne_string (h : l.CountsAs truths q) (s : String) : l ≠ .string s := by
  rintro rfl
  cases h

theorem CountsAs.eq_of {x : Exact M} (h : CountsAs truths (.number x) q) : x = .of q :=
  h.toNumber_eq

namespace StandsFor

theorem refl (l : Literal (Exact M)) : l.StandsFor truths l :=
  .inl rfl

theorem of_countsAs (h : l.CountsAs truths q) : l.StandsFor truths (.number (.of q)) :=
  .inr ⟨q, h, rfl⟩

theorem countsAs (h : l'.StandsFor truths l) (hl : l.CountsAs truths q) :
    l'.CountsAs truths q := by
  obtain rfl | ⟨p, hp, rfl⟩ := h
  · exact hl
  · rwa [← Exact.of_inj hl.eq_of]

theorem eq_string {s : String} (h : l.StandsFor truths (.string s)) : l = .string s := by
  obtain rfl | ⟨p, -, hp⟩ := h
  · rfl
  · cases hp

theorem toNumber_eq (h : l'.StandsFor truths l) : l'.toNumber = l.toNumber := by
  obtain rfl | ⟨p, hp, rfl⟩ := h
  · rfl
  · exact hp.toNumber_eq

theorem eq_or_ne_string (h : l'.StandsFor truths l) :
    l' = l ∨ (∀ s, l' ≠ .string s) ∧ ∀ s, l ≠ .string s := by
  obtain rfl | ⟨p, hp, rfl⟩ := h
  · exact .inl rfl
  · exact .inr ⟨hp.ne_string, nofun⟩

theorem eq_or_boolean (h : l'.StandsFor truths l) :
    l' = l ∨ truths = true ∧ ∃ b, l' = .boolean b ∧ l = .number l'.toNumber := by
  obtain rfl | ⟨p, hp, rfl⟩ := h
  · exact .inl rfl
  · cases hp with
    | number => exact .inl rfl
    | boolean b htruths =>
      refine .inr ⟨htruths, b, rfl, ?_⟩
      rw [(CountsAs.boolean b htruths).toNumber_eq]

end StandsFor

end Literal

namespace BinaryOperator

open Literal

variable {op : BinaryOperator} {l l' m m' : Literal (Exact M)} {p q r : ℚ}

theorem isBefore_eq (h : (∀ s, l ≠ .string s) ∨ ∀ s, m ≠ .string s) :
    isBefore l m = Numeric.lt l.toNumber m.toNumber := by
  unfold isBefore
  split
  · rcases h with h | h <;> exact absurd rfl (h _)
  · rfl

theorem isAtMost_eq (h : (∀ s, l ≠ .string s) ∨ ∀ s, m ≠ .string s) :
    isAtMost l m = Numeric.le l.toNumber m.toNumber := by
  unfold isAtMost
  split
  · rcases h with h | h <;> exact absurd rfl (h _)
  · rfl

/-- Unless both are strings, literals are ordered by the numbers that they count as. -/
theorem evaluate_ordering (hop : op.isOrdering = true)
    (h : (∀ s, l ≠ .string s) ∨ ∀ s, m ≠ .string s) :
    op.evaluate l m = op.evaluate (.number l.toNumber) (.number m.toNumber) := by
  cases op with
  | lessThan => exact congrArg Literal.boolean (isBefore_eq h)
  | lessThanOrEqual => exact congrArg Literal.boolean (isAtMost_eq h)
  | greaterThan => exact congrArg Literal.boolean (isBefore_eq h.symm)
  | greaterThanOrEqual => exact congrArg Literal.boolean (isAtMost_eq h.symm)
  | _ => cases hop

theorem evaluate_ordering_congr (hop : op.isOrdering = true) (hl : l'.StandsFor truths l)
    (hm : m'.StandsFor truths m) : op.evaluate l' m' = op.evaluate l m := by
  obtain rfl | ⟨hl', hl''⟩ := hl.eq_or_ne_string
  · obtain rfl | ⟨hm', hm''⟩ := hm.eq_or_ne_string
    · rfl
    · rw [evaluate_ordering hop (.inr hm'), evaluate_ordering hop (.inr hm''), hm.toNumber_eq]
  · rw [evaluate_ordering hop (.inl hl'), evaluate_ordering hop (.inl hl''), hl.toNumber_eq,
      hm.toNumber_eq]

theorem addLiterals_of_countsAs (hl : l.CountsAs truths p) (hm : m.CountsAs truths q) :
    addLiterals l m = .number (Numeric.add l.toNumber m.toNumber) := by
  cases hl <;> cases hm <;> rfl

theorem evaluate_of_countsAs (hl : l.CountsAs truths p) (hm : m.CountsAs truths q)
    (h : Meaning.arithmetic op p q = some (Meaning.number r : Meaning M)) :
    op.evaluate l m = .number (.of r) := by
  have hnumbers : op.evaluate l m = op.evaluate (.number (.of p)) (.number (.of q)) := by
    cases op with
    | add => rw [evaluate, addLiterals_of_countsAs hl hm, hl.toNumber_eq, hm.toNumber_eq]; rfl
    | subtract | multiply | divide =>
      rw [evaluate, hl.toNumber_eq, hm.toNumber_eq]
      rfl
    | _ => cases h
  rw [hnumbers]
  exact (Meaning.primitive.inj (Meaning.arithmetic_eq h)).symm

/-- A number that is subtracted on the left of a comparison may be added on the right instead, even
to the undefined number. -/
theorem evaluate_ordering_shift (hop : op.isOrdering = true) (p q : ℚ) (x : Exact M) :
    op.evaluate (.number (.of (p - q))) (.number x) =
      op.evaluate (.number (.of p)) (.number (Numeric.add (.of q) x)) := by
  match x with
  | none => cases op <;> rfl
  | some r =>
    have htotal := isTotal_of_isOrdering hop
    obtain ⟨d, hd⟩ := Meaning.exists_arithmetic (M := M) htotal (p - q) r
    have hbinary : Meaning.binary op (.number (p - q)) (.number r) = some d := by
      rw [Meaning.binary_number (isEquality_of_isTotal htotal), hd]
    have hshift := Simplify.arithmetic_shift (by rw [hop, Bool.or_true]) hbinary
    have heq := (Meaning.arithmetic_eq hd).symm.trans (Meaning.arithmetic_eq hshift)
    exact Meaning.primitive.inj heq

end BinaryOperator

end Waveform
