import Waveform.Proofs.Renaming.Tree
import Waveform.Specialize.Simplify

/-!
# Simplification of renamed trees

Simplification looks at names only to compare them, so it comes to the same tree, renamed.
-/

namespace Waveform

variable {ν : Type} {ρ : String → String}

/-! ## Measures -/

mutual

theorem Expression.hasEffect_rename : (e : Expression ν) → (e.rename ρ).hasEffect = e.hasEffect
  | .literal _ | .identifier _ | .builtin _ | .function _ _ _ => rfl
  | .array items => Expression.anyEffect_rename items
  | .member object property => by
    rw [Expression.rename, Expression.hasEffect, object.hasEffect_rename,
      property.hasEffect_rename, Expression.hasEffect]
  | .unary _ argument => argument.hasEffect_rename
  | .binary _ left right | .logical _ left right => by
    rw [Expression.rename, Expression.hasEffect, left.hasEffect_rename, right.hasEffect_rename,
      Expression.hasEffect]
  | .conditional test consequent alternate => by
    rw [Expression.rename, Expression.hasEffect, test.hasEffect_rename,
      consequent.hasEffect_rename, alternate.hasEffect_rename, Expression.hasEffect]
  | .call _ _ | .assignment _ _ _ | .update _ _ _ => rfl

theorem Expression.anyEffect_rename : (es : List (Expression ν)) →
    Expression.anyEffect (Expression.renameAll ρ es) = Expression.anyEffect es
  | [] => rfl
  | e :: es => by
    rw [Expression.renameAll, Expression.anyEffect, e.hasEffect_rename,
      Expression.anyEffect_rename es, Expression.anyEffect]

end

theorem Expression.reach_rename : (e : Expression ν) → (e.rename ρ).reach = e.reach
  | .unary _ argument => by
    rw [Expression.rename, Expression.reach, argument.reach_rename, Expression.reach]
  | .binary _ left right | .logical _ left right => by
    rw [Expression.rename, Expression.reach, left.reach_rename, right.reach_rename,
      Expression.reach]
  | .conditional test consequent alternate => by
    rw [Expression.rename, Expression.reach, test.reach_rename, consequent.reach_rename,
      alternate.reach_rename, Expression.reach]
  | .literal _ | .identifier _ | .builtin _ | .array _ | .member _ _ | .call _ _
  | .function _ _ _ | .assignment _ _ _ | .update _ _ _ => rfl

/-! ## Rules for operators -/

namespace Simplify

variable [Numeric ν]

theorem unary_rename (op : UnaryOperator) (argument : Expression ν) :
    unary op (argument.rename ρ) = (unary op argument).rename ρ := by
  rw [unary, unary, Expression.asLiteral?_rename]
  cases argument.asLiteral? <;> rfl

omit [Numeric ν] in
theorem compareWithPrimitive_rename (op : BinaryOperator) (left right : Expression ν) :
    compareWithPrimitive op (left.rename ρ) (right.rename ρ) =
      compareWithPrimitive op left right := by
  cases left <;> cases right <;> rfl

theorem withLeftNumber_rename (op : BinaryOperator) (x : ν) (right : Expression ν) :
    withLeftNumber op x (right.rename ρ) =
      (withLeftNumber op x right).map (Expression.rename ρ) := by
  cases op with
  | add =>
    simp only [withLeftNumber]
    split <;> rfl
  | multiply =>
    simp only [withLeftNumber]
    split
    · rfl
    · split <;> rfl
  | _ => rfl

theorem withRightNumber_rename (op : BinaryOperator) (left : Expression ν) (x : ν) :
    withRightNumber op (left.rename ρ) x =
      (withRightNumber op left x).map (Expression.rename ρ) := by
  cases op with
  | add | subtract | divide =>
    simp only [withRightNumber]
    split <;> rfl
  | multiply =>
    simp only [withRightNumber]
    split
    · rfl
    · split <;> rfl
  | lessThan =>
    cases left with
    | identifier name =>
      simp only [Expression.rename, withRightNumber]
      split <;> rfl
    | _ => rfl
  | _ => rfl

theorem mergeNumbers_rename (op inner : BinaryOperator) (left right : Expression ν) (x : ν) :
    mergeNumbers op inner (left.rename ρ) (right.rename ρ) x =
      (mergeNumbers op inner left right x).map (Expression.rename ρ) := by
  simp only [mergeNumbers, Expression.asNumber?_rename]
  split
  · split <;> rfl
  · split
    · split <;> rfl
    · rfl

theorem finishBinary_rename (op : BinaryOperator) (left right : Expression ν) :
    finishBinary op (left.rename ρ) (right.rename ρ) = (finishBinary op left right).rename ρ := by
  rw [finishBinary, finishBinary, Expression.asNumber?_rename]
  cases right.asNumber? with
  | none => rfl
  | some x =>
    dsimp only
    rw [withRightNumber_rename]
    cases withRightNumber op left x with
    | some result => rfl
    | none =>
      cases left with
      | binary inner l r =>
        simp only [Expression.rename, Option.map_none, mergeNumbers_rename]
        cases mergeNumbers op inner l r x <;> rfl
      | _ => rfl

theorem binary_rename {again : Expression ν → Expression ν}
    (hagain : ∀ e : Expression ν, again (e.rename ρ) = (again e).rename ρ) (op : BinaryOperator)
    (left right : Expression ν) :
    binary again op (left.rename ρ) (right.rename ρ) = (binary again op left right).rename ρ := by
  have hnumber : ((left.rename ρ).asNumber?.bind fun x => withLeftNumber op x (right.rename ρ)) =
      (left.asNumber?.bind fun x => withLeftNumber op x right).map (Expression.rename ρ) := by
    rw [Expression.asNumber?_rename]
    cases left.asNumber? with
    | none => rfl
    | some x => exact withLeftNumber_rename op x right
  have hgroup (l : Expression ν) :
      again (.binary op (left.rename ρ) (l.rename ρ)) = (again (.binary op left l)).rename ρ :=
    hagain (.binary op left l)
  unfold binary
  rw [Expression.asLiteral?_rename, Expression.asLiteral?_rename, compareWithPrimitive_rename,
    hnumber]
  split
  · rfl
  · cases compareWithPrimitive op left right with
    | some b => rfl
    | none =>
      dsimp only
      cases left.asNumber?.bind fun x => withLeftNumber op x right with
      | some result => rfl
      | none =>
        cases right with
        | binary inner l r =>
          have hfinish := finishBinary_rename (ρ := ρ) op left (.binary inner l r)
          simp only [Expression.rename] at hfinish
          simp only [Expression.rename, Option.map_none, hgroup, hfinish]
          split <;> rfl
        | _ => exact finishBinary_rename op left _

def Bound.rename (ρ : String → String) (b : Bound ν) : Bound ν :=
  { b with name := ρ b.name }

theorem Bound.excludes_rename (hρ : Function.Injective ρ) (upper lower : Bound ν) :
    (upper.rename ρ).excludes (lower.rename ρ) = upper.excludes lower := by
  rw [excludes, excludes, rename, rename, beq_rename hρ]

omit [Numeric ν] in
theorem Bound.of?_rename (e : Expression ν) :
    Bound.of? (e.rename ρ) = (Bound.of? e).map (Bound.rename ρ) := by
  cases e with
  | binary op left right =>
    cases left with
    | identifier name =>
      cases right with
      | literal l =>
        cases l with
        | number x =>
          simp only [Expression.rename, of?]
          split <;> rfl
        | _ => rfl
      | _ => rfl
    | _ => rfl
  | _ => rfl

theorem logical_rename (hρ : Function.Injective ρ) (op : LogicalOperator)
    (left right : Expression ν) :
    logical op (left.rename ρ) (right.rename ρ) = (logical op left right).rename ρ := by
  unfold logical
  rw [Expression.asLiteral?_rename, Expression.asLiteral?_rename]
  cases left.asLiteral? with
  | some l =>
    dsimp only [LogicalOperator.select]
    split <;> rfl
  | none =>
    cases right.asLiteral? with
    | some r =>
      dsimp only
      split <;> rfl
    | none =>
      rw [Bound.of?_rename, Bound.of?_rename]
      cases op with
      | and =>
        cases Bound.of? left with
        | none => rfl
        | some upper =>
          cases Bound.of? right with
          | none => rfl
          | some lower =>
            simp only [Option.map_some, Bound.excludes_rename hρ]
            cases upper.excludes lower <;> rfl
      | _ => rfl

/-! ## Rules for choices -/

theorem whenTrue_rename (hρ : Function.Injective ρ) (test : Expression ν) : (e : Expression ν) →
    whenTrue (test.rename ρ) (e.rename ρ) = (whenTrue test e).rename ρ
  | .conditional inner consequent alternate => by
    rw [Expression.rename, whenTrue, whenTrue, Expression.same_rename hρ,
      whenTrue_rename hρ test consequent]
    split <;> rfl
  | .literal _ | .identifier _ | .builtin _ | .array _ | .member _ _ | .unary _ _ | .binary _ _ _
  | .logical _ _ _ | .call _ _ | .function _ _ _ | .assignment _ _ _ | .update _ _ _ => rfl

theorem whenFalse_rename (hρ : Function.Injective ρ) (test : Expression ν) : (e : Expression ν) →
    whenFalse (test.rename ρ) (e.rename ρ) = (whenFalse test e).rename ρ
  | .conditional inner consequent alternate => by
    rw [Expression.rename, whenFalse, whenFalse, Expression.same_rename hρ,
      whenFalse_rename hρ test alternate]
    split <;> rfl
  | .literal _ | .identifier _ | .builtin _ | .array _ | .member _ _ | .unary _ _ | .binary _ _ _
  | .logical _ _ _ | .call _ _ | .function _ _ _ | .assignment _ _ _ | .update _ _ _ => rfl

theorem decideInner_rename (hρ : Function.Injective ρ) (test e : Expression ν) :
    decideInner (test.rename ρ) (e.rename ρ) = (decideInner test e).rename ρ := by
  cases e with
  | conditional inner consequent alternate =>
    rw [Expression.rename, decideInner, decideInner, logical_rename hρ,
      Expression.asLiteral?_rename]
    cases (logical .and test inner).asLiteral? with
    | none => rfl
    | some l =>
      dsimp only
      split <;> rfl
  | _ => rfl

theorem conditional_rename (hρ : Function.Injective ρ) (test consequent alternate : Expression ν) :
    conditional (test.rename ρ) (consequent.rename ρ) (alternate.rename ρ) =
      (conditional test consequent alternate).rename ρ := by
  rw [conditional, conditional, Expression.asLiteral?_rename, Expression.same_rename hρ,
    Expression.hasEffect_rename, whenTrue_rename hρ, whenFalse_rename hρ, decideInner_rename hρ]
  cases test.asLiteral? with
  | some l =>
    dsimp only
    split <;> rfl
  | none =>
    dsimp only
    split <;> rfl

theorem assignment_rename (hρ : Function.Injective ρ) (op : AssignmentOperator) (target : String)
    (value : Expression ν) :
    assignment op (ρ target) (value.rename ρ) = (assignment op target value).rename ρ := by
  cases op with
  | assign =>
    cases value with
    | binary inner left right =>
      cases inner with
      | add =>
        cases left with
        | identifier name =>
          simp only [Expression.rename, assignment, beq_rename hρ, Expression.asNumber?_rename]
          split
          · split <;> rfl
          · rfl
        | _ => rfl
      | _ => rfl
    | _ => rfl
  | _ => rfl

theorem upTo_rename (hρ : Function.Injective ρ) (depth : Nat) (e : Expression ν) :
    upTo depth (e.rename ρ) = (upTo depth e).rename ρ := by
  induction depth generalizing e with
  | zero => rfl
  | succ depth ih =>
    cases e with
    | unary op argument => rw [Expression.rename, upTo, upTo, ih, unary_rename]
    | binary op left right => rw [Expression.rename, upTo, upTo, ih, ih, binary_rename ih]
    | logical op left right => rw [Expression.rename, upTo, upTo, ih, ih, logical_rename hρ]
    | conditional test consequent alternate =>
      rw [Expression.rename, upTo, upTo, ih, ih, ih, conditional_rename hρ]
    | assignment op target value => exact assignment_rename hρ op target value
    | _ => rfl

end Simplify

/-- A renamed tree is simplified to what the tree itself is simplified to, renamed. -/
theorem Expression.simplify_rename [Numeric ν] (hρ : Function.Injective ρ) (e : Expression ν) :
    (e.rename ρ).simplify = e.simplify.rename ρ := by
  rw [simplify, e.reach_rename, Simplify.upTo_rename hρ, simplify]

end Waveform
