import Waveform.Syntax.Printer

/-!
# Values

The values of a running program: primitives, pairs, closures and builtins. Pairs and closures have
an identity, given when they are made, and are equal only to themselves.
-/

namespace Waveform

/-- The frames that names are looked up in, the innermost first. -/
abbrev Environment := List Nat

/-- A function together with the environment that it was made in. -/
structure Closure (ν : Type) where
  identity : Nat
  name : Option String
  function : Function ν
  environment : Environment

inductive Value (ν : Type)
  | primitive (literal : Literal ν)
  | pair (identity : Nat) (head tail : Value ν)
  | closure (closure : Closure ν)
  | builtin (operation : Builtin)

instance {ν : Type} : Inhabited (Value ν) := ⟨.primitive .undefined⟩

namespace Value

variable {ν : Type}

def undefined : Value ν := primitive .undefined

def null : Value ν := primitive .null

def boolean (b : Bool) : Value ν := primitive (.boolean b)

def number (x : ν) : Value ν := primitive (.number x)

def string (s : String) : Value ν := primitive (.string s)

def asLiteral? : Value ν → Option (Literal ν)
  | primitive l => some l
  | _ => none

def asNumber? : Value ν → Option ν
  | primitive (.number x) => some x
  | _ => none

/-- The length of a chain of pairs whose last tail is null. -/
def listLength? : Value ν → Option Nat
  | primitive .null => some 0
  | pair _ _ tail => tail.listLength?.map (· + 1)
  | _ => none

def typeName : Value ν → String
  | primitive l => l.typeName
  | pair _ _ _ => "object"
  | closure _ | builtin _ => "function"

variable [Numeric ν]

def isTruthy : Value ν → Bool
  | primitive l => l.isTruthy
  | _ => true

def toNumber : Value ν → ν
  | primitive l => l.toNumber
  | _ => Numeric.nan

/-- Primitives are the same by value, pairs and closures by identity. -/
def same : Value ν → Value ν → Bool
  | primitive a, primitive b => a.same b
  | pair i _ _, pair j _ _ => i == j
  | closure a, closure b => a.identity == b.identity
  | builtin a, builtin b => a == b
  | _, _ => false

def text : Value ν → String
  | primitive l => l.text
  | pair _ head tail => "[" ++ head.text ++ ", " ++ tail.text ++ "]"
  | closure c =>
    match c.name with
    | some name => "<closure " ++ name ++ ">"
    | none => "<closure>"
  | builtin b => b.text

/-- The primitive that the value counts as in arithmetic and comparison. -/
def toPrimitive : Value ν → Literal ν
  | primitive l => l
  | v => .string v.text

end Value

section

variable {ν : Type} [Numeric ν]

def UnaryOperator.apply (op : UnaryOperator) (v : Value ν) : Value ν :=
  match op with
  | .typeOf => .string v.typeName
  | .not => .boolean (! v.isTruthy)
  | .minus | .plus => .primitive (op.evaluate v.toPrimitive)

def Value.looselyEqual (a b : Value ν) : Bool :=
  match a, b with
  | .primitive l, .primitive r => BinaryOperator.looselyEqual l r
  | .primitive l, v | v, .primitive l =>
    ! l.isNullish && BinaryOperator.looselyEqual l v.toPrimitive
  | _, _ => a.same b

def BinaryOperator.apply (op : BinaryOperator) (a b : Value ν) : Value ν :=
  match op with
  | .strictEqual => .boolean (a.same b)
  | .strictNotEqual => .boolean (! a.same b)
  | .equal => .boolean (a.looselyEqual b)
  | .notEqual => .boolean (! a.looselyEqual b)
  | op => .primitive (op.evaluate a.toPrimitive b.toPrimitive)

end

end Waveform
