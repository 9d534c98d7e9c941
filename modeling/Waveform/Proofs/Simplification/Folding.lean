import Waveform.Proofs.Inlining.Known
import Waveform.Proofs.Simplification.Recursion

/-!
# Folding constants

An expression without names simplifies to one literal, and running it gives the value of that
literal, in every environment and without touching the store. No other rule comes before the
folding: operands are literals by the time that the operator over them is looked at.
-/

namespace Waveform

variable {ν : Type}

/-- Literals under unary, binary and logical operators and choices. -/
inductive Expression.IsConstant : Expression ν → Prop
  | literal (l) : IsConstant (.literal l)
  | unary (op) {a} (ha : IsConstant a) : IsConstant (.unary op a)
  | binary (op) {a b} (ha : IsConstant a) (hb : IsConstant b) : IsConstant (.binary op a b)
  | logical (op) {a b} (ha : IsConstant a) (hb : IsConstant b) : IsConstant (.logical op a b)
  | conditional {t c a} (ht : IsConstant t) (hc : IsConstant c) (ha : IsConstant a) :
    IsConstant (.conditional t c a)

variable [Numeric ν]

namespace Simplify

@[simp] theorem unary_literal (op : UnaryOperator) (l : Literal ν) :
    unary op (.literal l) = .literal (op.evaluate l) := rfl

@[simp] theorem binary_literals (again : Expression ν → Expression ν) (op : BinaryOperator)
    (l r : Literal ν) :
    binary again op (.literal l) (.literal r) = .literal (op.evaluate l r) := rfl

@[simp] theorem logical_literal (op : LogicalOperator) (l : Literal ν) (right : Expression ν) :
    logical op (.literal l) right = op.select (.literal l) right l.isTruthy := rfl

@[simp] theorem conditional_literal (l : Literal ν) (consequent alternate : Expression ν) :
    conditional (.literal l) consequent alternate =
      if l.isTruthy then consequent else alternate := rfl

end Simplify

namespace Expression

/-- The expression simplifies to the literal that it evaluates to wherever it stands. -/
def FoldsTo (e : Expression ν) (l : Literal ν) : Prop :=
  e.simplify = .literal l ∧
    ∀ (call : Caller ν) (env : Environment), e.evaluate call env = pure (.primitive l)

namespace FoldsTo

variable {a b t c : Expression ν} {l m : Literal ν}

theorem literal (l : Literal ν) : (literal l).FoldsTo l := by
  refine ⟨simplify_literal l, fun call env => ?_⟩
  rw [evaluate]

theorem unary (op : UnaryOperator) (ha : a.FoldsTo l) : (unary op a).FoldsTo (op.evaluate l) := by
  refine ⟨?_, fun call env => ?_⟩
  · rw [simplify_unary, ha.1, Simplify.unary_literal]
  · rw [evaluate, ha.2, pure_bind, Reading.unary_apply_primitive]

theorem binary (op : BinaryOperator) (ha : a.FoldsTo l) (hb : b.FoldsTo m) :
    (binary op a b).FoldsTo (op.evaluate l m) := by
  refine ⟨?_, fun call env => ?_⟩
  · rw [simplify_binary, ha.1, hb.1, Simplify.binary_literals]
  · rw [evaluate, ha.2, pure_bind, hb.2, pure_bind, Reading.binary_apply_primitives]

theorem logical (op : LogicalOperator) (ha : a.FoldsTo l) (hb : b.FoldsTo m) :
    (logical op a b).FoldsTo (op.select l m l.isTruthy) := by
  refine ⟨?_, fun call env => ?_⟩
  · rw [simplify_logical, ha.1, hb.1, Simplify.logical_literal]
    unfold LogicalOperator.select
    split <;> rfl
  · rw [evaluate, ha.2, pure_bind, Value.isTruthy]
    unfold LogicalOperator.select
    split
    · rfl
    · exact hb.2 call env

theorem conditional {k : Literal ν} (ht : t.FoldsTo k) (ha : a.FoldsTo l) (hb : b.FoldsTo m) :
    (conditional t a b).FoldsTo (if k.isTruthy then l else m) := by
  refine ⟨?_, fun call env => ?_⟩
  · rw [simplify_conditional, ht.1, ha.1, hb.1, Simplify.conditional_literal]
    split <;> rfl
  · rw [evaluate, ht.2, pure_bind, Value.isTruthy]
    split
    · exact ha.2 call env
    · exact hb.2 call env

end FoldsTo

/-- Simplifying an expression without names gives one literal, which is what the expression
evaluates to. -/
theorem IsConstant.simplify_eq_literal {e : Expression ν} (he : e.IsConstant) :
    ∃ l, e.simplify = .literal l ∧
      ∀ (call : Caller ν) (env : Environment), e.evaluate call env = pure (.primitive l) := by
  change ∃ l, e.FoldsTo l
  induction he with
  | literal l => exact ⟨l, .literal l⟩
  | unary op _ ih =>
    obtain ⟨l, hl⟩ := ih
    exact ⟨_, hl.unary op⟩
  | binary op _ _ iha ihb =>
    obtain ⟨l, hl⟩ := iha
    obtain ⟨m, hm⟩ := ihb
    exact ⟨_, hl.binary op hm⟩
  | logical op _ _ iha ihb =>
    obtain ⟨l, hl⟩ := iha
    obtain ⟨m, hm⟩ := ihb
    exact ⟨_, hl.logical op hm⟩
  | conditional _ _ _ iht ihc iha =>
    obtain ⟨k, hk⟩ := iht
    obtain ⟨l, hl⟩ := ihc
    obtain ⟨m, hm⟩ := iha
    exact ⟨_, hk.conditional hl hm⟩

/-- The choice `"x" * 1 === NaN ? "" + -0 : null || typeof undefined`. -/
def mixedConstant : Expression Float :=
  .conditional
    (.binary .strictEqual (.binary .multiply (.literal (.string "x")) (.number Numeric.one))
      (.number Numeric.nan))
    (.binary .add (.literal (.string "")) (.unary .minus (.number Numeric.zero)))
    (.logical .or .null (.unary .typeOf .undefined))

theorem mixedConstant_simplify_eq_literal :
    mixedConstant.IsConstant ∧ ∃ l, mixedConstant.simplify = .literal l ∧
      ∀ (call : Caller Float) (env : Environment),
        mixedConstant.evaluate call env = pure (.primitive l) := by
  have hconstant : mixedConstant.IsConstant :=
    .conditional
      (.binary _ (.binary _ (.literal _) (.literal _)) (.literal _))
      (.binary _ (.literal _) (.unary _ (.literal _)))
      (.logical _ (.literal _) (.unary _ (.literal _)))
  exact ⟨hconstant, hconstant.simplify_eq_literal⟩

end Expression

end Waveform
