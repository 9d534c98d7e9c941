import Waveform.Proofs.Simplification.Measures

/-!
# The recursion of simplification

Simplification is given a depth that its recursion never reaches: no more operators and operands
come out of a simplification than went into it, so that the first half of a regrouped chain is
smaller than the chain it came from. Simplification therefore follows its own rules without any
bound, which the equations of `Expression.simplify` say. `Yields` is the recursion itself, whose
derivations are its finite runs.
-/

namespace Waveform

variable {ν : Type} [Numeric ν]

namespace Simplify

variable {op : BinaryOperator} {left right : Expression ν} {d d' : Nat}

omit [Numeric ν] in
theorem reach_pos (e : Expression ν) : 0 < e.reach := by
  unfold Expression.reach
  split <;> omega

theorem reach_upTo_le (depth : Nat) (e : Expression ν) : (upTo depth e).reach ≤ e.reach :=
  (steps_upTo depth e).reach_le

/-- The rules for a binary operation simplify nothing but the first half of a chain. -/
theorem binary_congr {again again' : Expression ν → Expression ν}
    (h : ∀ l r, right = .binary op l r → op.isAssociative = true →
      again (.binary op left l) = again' (.binary op left l)) :
    binary again op left right = binary again' op left right := by
  unfold binary
  split
  · rfl
  · split
    · rfl
    · split
      · rfl
      · split
        · next inner l r _ _ _ =>
          split
          · next hop =>
            rw [Bool.and_eq_true, beq_iff_eq] at hop
            obtain ⟨rfl, hassociative⟩ := hop
            rw [h l r rfl hassociative]
          · rfl
        · rfl

omit [Numeric ν] in
theorem reach_regrouped_lt {left' right' l r : Expression ν} (hleft : left'.reach ≤ left.reach)
    (hright : right'.reach ≤ right.reach) (hchain : right' = .binary op l r) :
    (Expression.binary op left' l).reach ≤ left.reach + right.reach := by
  rw [hchain] at hright
  simp only [Expression.reach] at hright ⊢
  omega

/-- Any two depths that cover the expression give the same. -/
theorem upTo_eq_upTo (e : Expression ν) (h : e.reach ≤ d) (h' : e.reach ≤ d') :
    upTo d e = upTo d' e := by
  induction d generalizing d' e with
  | zero =>
    have hpos := reach_pos e
    omega
  | succ d ih =>
    cases d' with
    | zero =>
      have hpos := reach_pos e
      omega
    | succ d' =>
      cases e with
      | unary op argument =>
        simp only [Expression.reach] at h h'
        have hargument : upTo d argument = upTo d' argument := ih argument (by omega) (by omega)
        rw [upTo, upTo, hargument]
      | binary op left right =>
        simp only [Expression.reach] at h h'
        have hleft : upTo d left = upTo d' left := ih left (by omega) (by omega)
        have hright : upTo d right = upTo d' right := ih right (by omega) (by omega)
        rw [upTo, upTo, ← hleft, ← hright]
        apply binary_congr
        intro l r hchain _
        have hlt := reach_regrouped_lt (reach_upTo_le d left) (reach_upTo_le d right) hchain
        exact ih _ (by omega) (by omega)
      | logical op left right =>
        simp only [Expression.reach] at h h'
        have hleft : upTo d left = upTo d' left := ih left (by omega) (by omega)
        have hright : upTo d right = upTo d' right := ih right (by omega) (by omega)
        rw [upTo, upTo, hleft, hright]
      | conditional test consequent alternate =>
        simp only [Expression.reach] at h h'
        have htest : upTo d test = upTo d' test := ih test (by omega) (by omega)
        have hconsequent : upTo d consequent = upTo d' consequent :=
          ih consequent (by omega) (by omega)
        have halternate : upTo d alternate = upTo d' alternate :=
          ih alternate (by omega) (by omega)
        rw [upTo, upTo, htest, hconsequent, halternate]
      | _ => rfl

end Simplify

namespace Expression

open Simplify

theorem simplify_eq_upTo {e : Expression ν} {d : Nat} (h : e.reach ≤ d) : e.simplify = upTo d e :=
  upTo_eq_upTo e le_rfl h

theorem reach_simplify_le (e : Expression ν) : e.simplify.reach ≤ e.reach :=
  reach_upTo_le e.reach e

@[simp] theorem simplify_literal (l : Literal ν) : (literal l).simplify = literal l := rfl

@[simp] theorem simplify_unary (op : UnaryOperator) (argument : Expression ν) :
    (unary op argument).simplify = Simplify.unary op argument.simplify := rfl

theorem simplify_binary (op : BinaryOperator) (left right : Expression ν) :
    (binary op left right).simplify =
      Simplify.binary simplify op left.simplify right.simplify := by
  have hleft : left.simplify = upTo (left.reach + right.reach) left :=
    simplify_eq_upTo (Nat.le_add_right ..)
  have hright : right.simplify = upTo (left.reach + right.reach) right :=
    simplify_eq_upTo (Nat.le_add_left ..)
  rw [simplify, reach, upTo, ← hleft, ← hright]
  apply binary_congr
  intro l r hchain _
  have hlt := reach_regrouped_lt left.reach_simplify_le right.reach_simplify_le hchain
  exact (simplify_eq_upTo hlt).symm

@[simp] theorem simplify_logical (op : LogicalOperator) (left right : Expression ν) :
    (logical op left right).simplify = Simplify.logical op left.simplify right.simplify := by
  rw [simplify, reach, upTo, ← simplify_eq_upTo (Nat.le_add_right ..),
    ← simplify_eq_upTo (Nat.le_add_left ..)]

@[simp] theorem simplify_conditional (test consequent alternate : Expression ν) :
    (conditional test consequent alternate).simplify =
      Simplify.conditional test.simplify consequent.simplify alternate.simplify := by
  have htest : test.simplify = upTo (test.reach + consequent.reach + alternate.reach) test :=
    simplify_eq_upTo (by omega)
  have hconsequent :
      consequent.simplify = upTo (test.reach + consequent.reach + alternate.reach) consequent :=
    simplify_eq_upTo (by omega)
  have halternate :
      alternate.simplify = upTo (test.reach + consequent.reach + alternate.reach) alternate :=
    simplify_eq_upTo (by omega)
  rw [simplify, reach, upTo, htest, hconsequent, halternate]

end Expression

namespace Simplify

/-- The recursion of simplification without a bound: the expression simplifies to the result. The
first half of a chain that may be regrouped is simplified again after both operands. -/
inductive Yields : Expression ν → Expression ν → Prop
  | unary (op) {a a'} (ha : Yields a a') : Yields (.unary op a) (unary op a')
  | binary (op) {a a' b b'} (again) (ha : Yields a a') (hb : Yields b b')
    (hagain : ∀ l r, b' = .binary op l r → op.isAssociative = true →
      Yields (.binary op a' l) (again (.binary op a' l))) :
    Yields (.binary op a b) (binary again op a' b')
  | logical (op) {a a' b b'} (ha : Yields a a') (hb : Yields b b') :
    Yields (.logical op a b) (logical op a' b')
  | conditional {t t' c c' a a'} (ht : Yields t t') (hc : Yields c c') (ha : Yields a a') :
    Yields (.conditional t c a) (conditional t' c' a')
  | assignment (op target value) :
    Yields (.assignment op target value) (assignment op target value)
  | literal (l) : Yields (.literal l) (.literal l)
  | identifier (name) : Yields (.identifier name) (.identifier name)
  | builtin (b) : Yields (.builtin b) (.builtin b)
  | array (items) : Yields (.array items) (.array items)
  | member (object property) : Yields (.member object property) (.member object property)
  | call (callee arguments) : Yields (.call callee arguments) (.call callee arguments)
  | function (params body home) : Yields (.function params body home) (.function params body home)
  | update (op isBefore target) : Yields (.update op isBefore target) (.update op isBefore target)

theorem Yields.eq_simplify {e r : Expression ν} (h : Yields e r) : r = e.simplify := by
  induction h with
  | unary op _ ih => rw [ih, Expression.simplify_unary]
  | binary op again _ _ _ iha ihb ihagain =>
    rw [Expression.simplify_binary, ← iha, ← ihb]
    exact binary_congr ihagain
  | logical op _ _ iha ihb => rw [iha, ihb, Expression.simplify_logical]
  | conditional _ _ _ iht ihc iha => rw [iht, ihc, iha, Expression.simplify_conditional]
  | _ => rfl

/-- The recursion ends on every expression. -/
theorem yields_simplify (e : Expression ν) : Yields e e.simplify := by
  induction hn : e.reach using Nat.strong_induction_on generalizing e with
  | _ n ih =>
    subst hn
    cases e with
    | unary op argument =>
      have ha := ih _ (Nat.lt_succ_self _) argument rfl
      rw [Expression.simplify_unary]
      exact .unary op ha
    | binary op left right =>
      have hleft := ih left.reach (by simp only [Expression.reach]; omega) left rfl
      have hright := ih right.reach (by simp only [Expression.reach]; omega) right rfl
      rw [Expression.simplify_binary]
      refine .binary op _ hleft hright fun l r hchain _ => ?_
      have hlt := reach_regrouped_lt left.reach_simplify_le right.reach_simplify_le hchain
      exact ih _ (Nat.lt_succ_of_le hlt) _ rfl
    | logical op left right =>
      have hleft := ih left.reach (by simp only [Expression.reach]; omega) left rfl
      have hright := ih right.reach (by simp only [Expression.reach]; omega) right rfl
      rw [Expression.simplify_logical]
      exact .logical op hleft hright
    | conditional test consequent alternate =>
      have htest := ih test.reach (by simp only [Expression.reach]; omega) test rfl
      have hconsequent :=
        ih consequent.reach (by simp only [Expression.reach]; omega) consequent rfl
      have halternate :=
        ih alternate.reach (by simp only [Expression.reach]; omega) alternate rfl
      rw [Expression.simplify_conditional]
      exact .conditional htest hconsequent halternate
    | assignment op target value => exact .assignment op target value
    | literal l => exact .literal l
    | identifier name => exact .identifier name
    | builtin b => exact .builtin b
    | array items => exact .array items
    | member object property => exact .member object property
    | call callee arguments => exact .call callee arguments
    | function params body home => exact .function params body home
    | update op isBefore target => exact .update op isBefore target

end Simplify

end Waveform
