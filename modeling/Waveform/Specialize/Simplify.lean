import Waveform.Syntax.Program

/-!
# Simplification

Local algebraic simplification of expressions. Operands are simplified before the rules for the
operator over them are tried, in the order in which they stand here, and the first that fits wins.
Literal operands are folded by the operators' own `evaluate`.

Regrouping a chain makes a new node whose operands are simplified once more. It is smaller than
the node that it came from, so the size of the expression bounds the depth of the recursion.
-/

namespace Waveform

section Effects

variable {ν : Type}

mutual

/-- Whether evaluating the expression might call, draw or write something. -/
def Expression.hasEffect : Expression ν → Bool
  | .literal _ | .identifier _ | .builtin _ | .function _ _ _ => false
  | .array items => Expression.anyEffect items
  | .member object property => object.hasEffect || property.hasEffect
  | .unary _ argument => argument.hasEffect
  | .binary _ left right | .logical _ left right => left.hasEffect || right.hasEffect
  | .conditional test consequent alternate =>
    test.hasEffect || consequent.hasEffect || alternate.hasEffect
  | .call _ _ | .assignment _ _ _ | .update _ _ _ => true

def Expression.anyEffect : List (Expression ν) → Bool
  | [] => false
  | e :: es => e.hasEffect || Expression.anyEffect es

end

/-- The count of operators and operands that simplification reaches. -/
def Expression.reach : Expression ν → Nat
  | .unary _ argument => argument.reach + 1
  | .binary _ left right | .logical _ left right => left.reach + right.reach + 1
  | .conditional test consequent alternate =>
    test.reach + consequent.reach + alternate.reach + 1
  | _ => 1

end Effects

namespace Simplify

variable {ν : Type} [Numeric ν]

/-- Whether the expression is a pair, a function or a builtin, none of which is a primitive. -/
def isStructure : Expression ν → Bool
  | .array _ | .function _ _ _ | .builtin _ => true
  | _ => false

/-- The outcome of comparing a literal with something that is no primitive. -/
def compareWithLiteral (op : BinaryOperator) (l : Literal ν) : Option Bool :=
  match op with
  | .strictEqual => some false
  | .strictNotEqual => some true
  | .equal => if l.isNullish then some false else none
  | .notEqual => if l.isNullish then some true else none
  | _ => none

def compareWithPrimitive (op : BinaryOperator) (left right : Expression ν) : Option Bool :=
  match left, right with
  | .literal l, value | value, .literal l =>
    if isStructure value then compareWithLiteral op l else none
  | _, _ => none

/-- Rules for a number on the left. -/
def withLeftNumber (op : BinaryOperator) (x : ν) (right : Expression ν) : Option (Expression ν) :=
  match op with
  | .add => if Numeric.isZero x then some right else none
  | .multiply =>
    if Numeric.isZero x then some (.number Numeric.zero)
    else if Numeric.isOne x then some right
    else none
  | _ => none

/-- Rules for a number on the right. A name stands for a number that is not negative. -/
def withRightNumber (op : BinaryOperator) (left : Expression ν) (x : ν) : Option (Expression ν) :=
  match op with
  | .add | .subtract => if Numeric.isZero x then some left else none
  | .multiply =>
    if Numeric.isZero x then some (.number Numeric.zero)
    else if Numeric.isOne x then some left
    else none
  | .divide => if Numeric.isOne x then some left else none
  | .lessThan =>
    match left with
    | .identifier _ => if Numeric.isZero x then some (.boolean false) else none
    | _ => none
  | _ => none

def fold (op : BinaryOperator) (x y : ν) : Expression ν :=
  .literal (op.evaluate (.number x) (.number y))

/-- Merges a number on the right into an operation on the left that has a number of its own. -/
def mergeNumbers (op inner : BinaryOperator) (left right : Expression ν) (x : ν) :
    Option (Expression ν) :=
  if inner == op && op.isAssociative then
    match left.asNumber?, right.asNumber? with
    | some l, _ => some (.binary op (fold op l x) right)
    | none, some r => some (.binary op left (fold op r x))
    | none, none => none
  else
    match right.asNumber? with
    | some r =>
      if inner == .subtract && (op == .subtract || op.isOrdering) then
        some (.binary op left (fold .add r x))
      else none
    | none => none

/-- The rules that look at a number on the right, and the plain operation if none fits. -/
def finishBinary (op : BinaryOperator) (left right : Expression ν) : Expression ν :=
  let plain := Expression.binary op left right
  match right.asNumber? with
  | none => plain
  | some x =>
    match withRightNumber op left x with
    | some result => result
    | none =>
      match left with
      | .binary inner l r => (mergeNumbers op inner l r x).getD plain
      | _ => plain

/-- The rules for a binary operation over simplified operands. A chain on the right is regrouped to
the left, and `again` simplifies its first half. -/
def binary (again : Expression ν → Expression ν) (op : BinaryOperator)
    (left right : Expression ν) : Expression ν :=
  match left.asLiteral?, right.asLiteral? with
  | some l, some r => .literal (op.evaluate l r)
  | _, _ =>
    match compareWithPrimitive op left right with
    | some b => .boolean b
    | none =>
      match left.asNumber?.bind fun x => withLeftNumber op x right with
      | some result => result
      | none =>
        match right with
        | .binary inner l r =>
          if inner == op && op.isAssociative then .binary op (again (.binary op left l)) r
          else finishBinary op left right
        | _ => finishBinary op left right

/-- A name compared with a number. -/
structure Bound (ν : Type) where
  name : String
  op : BinaryOperator
  value : ν

def Bound.of? : Expression ν → Option (Bound ν)
  | .binary op (.identifier name) (.literal (.number x)) =>
    if op.isOrdering then some ⟨name, op, x⟩ else none
  | _ => none

/-- Whether an upper bound and a lower bound of one name cannot both hold. -/
def Bound.excludes (upper lower : Bound ν) : Bool :=
  let isUpper := upper.op == .lessThan || upper.op == .lessThanOrEqual
  let isLower := lower.op == .greaterThan || lower.op == .greaterThanOrEqual
  upper.name == lower.name &&
    ((Numeric.lt upper.value lower.value && isUpper && isLower) ||
      (Numeric.eq upper.value lower.value && upper.op == .lessThan && lower.op == .greaterThan))

def logical (op : LogicalOperator) (left right : Expression ν) : Expression ν :=
  match left.asLiteral? with
  | some l => op.select left right l.isTruthy
  | none =>
    match right.asLiteral? with
    | some r => if op.decides r.isTruthy then right else left
    | none =>
      match op, Bound.of? left, Bound.of? right with
      | .and, some upper, some lower =>
        if upper.excludes lower then .boolean false else .logical op left right
      | _, _, _ => .logical op left right

/-- What a branch taken when the test holds comes to: inner choices by the same test are made. -/
def whenTrue (test : Expression ν) : Expression ν → Expression ν
  | .conditional inner consequent alternate =>
    if inner.same test then whenTrue test consequent
    else .conditional inner consequent alternate
  | e => e

def whenFalse (test : Expression ν) : Expression ν → Expression ν
  | .conditional inner consequent alternate =>
    if inner.same test then whenFalse test alternate
    else .conditional inner consequent alternate
  | e => e

def decideInner (test : Expression ν) : Expression ν → Expression ν
  | .conditional inner consequent alternate =>
    match (logical .and test inner).asLiteral? with
    | some l => if l.isTruthy then consequent else alternate
    | none => .conditional inner consequent alternate
  | e => e

def conditional (test consequent alternate : Expression ν) : Expression ν :=
  match test.asLiteral? with
  | some l => if l.isTruthy then consequent else alternate
  | none =>
    if consequent.same alternate && ! test.hasEffect then consequent
    else
      .conditional test (decideInner test (whenTrue test consequent)) (whenFalse test alternate)

def unary (op : UnaryOperator) (argument : Expression ν) : Expression ν :=
  match argument.asLiteral? with
  | some l => .literal (op.evaluate l)
  | none => .unary op argument

/-- Writes an assignment of a sum with its target in the shortest form. -/
def assignment (op : AssignmentOperator) (target : String) (value : Expression ν) :
    Expression ν :=
  match op, value with
  | .assign, .binary .add (.identifier name) right =>
    if name == target then
      if (right.asNumber?.map Numeric.isOne).getD false then .update .increment true target
      else .assignment .addAssign target right
    else .assignment op target value
  | _, _ => .assignment op target value

def upTo : Nat → Expression ν → Expression ν
  | 0, e => e
  | depth + 1, e =>
    match e with
    | .unary op argument => unary op (upTo depth argument)
    | .binary op left right => binary (upTo depth) op (upTo depth left) (upTo depth right)
    | .logical op left right => logical op (upTo depth left) (upTo depth right)
    | .conditional test consequent alternate =>
      conditional (upTo depth test) (upTo depth consequent) (upTo depth alternate)
    | .assignment op target value => assignment op target value
    | e => e

end Simplify

def Expression.simplify {ν : Type} [Numeric ν] (e : Expression ν) : Expression ν :=
  Simplify.upTo e.reach e

end Waveform
