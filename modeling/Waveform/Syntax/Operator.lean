import Waveform.Syntax.Literal

/-!
# Operators

The operators of programs: their text, how tightly they bind, and their values on literals. The
evaluator and the simplifier both compute through `UnaryOperator.evaluate` and
`BinaryOperator.evaluate`, so folding a literal operand gives what running the program gives.
-/

namespace Waveform

inductive UnaryOperator
  | minus | plus | not | typeOf
  deriving DecidableEq, Repr

inductive BinaryOperator
  | add | subtract | multiply | divide | remainder | exponent
  | strictEqual | strictNotEqual | equal | notEqual
  | lessThan | lessThanOrEqual | greaterThan | greaterThanOrEqual
  deriving DecidableEq, Repr

inductive LogicalOperator
  | and | or
  deriving DecidableEq, Repr

/-- Plain assignment, or assignment of the result of an operator on the current value. -/
inductive AssignmentOperator
  | assign | addAssign | subtractAssign | multiplyAssign | divideAssign | remainderAssign
  deriving DecidableEq, Repr

inductive UpdateOperator
  | increment | decrement
  deriving DecidableEq, Repr

namespace UnaryOperator

def text : UnaryOperator → String
  | minus => "-"
  | plus => "+"
  | not => "!"
  | typeOf => "typeof "

variable {ν : Type} [Numeric ν]

def evaluate : UnaryOperator → Literal ν → Literal ν
  | minus, l => .number (Numeric.neg l.toNumber)
  | plus, l => .number l.toNumber
  | not, l => .boolean (! l.isTruthy)
  | typeOf, l => .string l.typeName

end UnaryOperator

namespace BinaryOperator

def text : BinaryOperator → String
  | add => "+"
  | subtract => "-"
  | multiply => "*"
  | divide => "/"
  | remainder => "%"
  | exponent => "**"
  | strictEqual => "==="
  | strictNotEqual => "!=="
  | equal => "=="
  | notEqual => "!="
  | lessThan => "<"
  | lessThanOrEqual => "<="
  | greaterThan => ">"
  | greaterThanOrEqual => ">="

def precedence : BinaryOperator → Nat
  | exponent => 15
  | multiply | divide | remainder => 14
  | add | subtract => 13
  | lessThan | lessThanOrEqual | greaterThan | greaterThanOrEqual => 11
  | strictEqual | strictNotEqual | equal | notEqual => 10

def isOrdering : BinaryOperator → Bool
  | lessThan | lessThanOrEqual | greaterThan | greaterThanOrEqual => true
  | _ => false

def isRightAssociative : BinaryOperator → Bool
  | exponent => true
  | _ => false

def isAssociative : BinaryOperator → Bool
  | add | multiply => true
  | _ => false

variable {ν : Type} [Numeric ν]

def addLiterals : Literal ν → Literal ν → Literal ν
  | .string s, r => .string (s ++ r.toText)
  | l, .string t => .string (l.toText ++ t)
  | l, r => .number (Numeric.add l.toNumber r.toNumber)

/-- Two strings compare by their characters, anything else as numbers. -/
def isBefore : Literal ν → Literal ν → Bool
  | .string s, .string t => s < t
  | l, r => Numeric.lt l.toNumber r.toNumber

/-- The order of `isBefore` with equality, which an undefined number takes part in on no side. -/
def isAtMost : Literal ν → Literal ν → Bool
  | .string s, .string t => s ≤ t
  | l, r => Numeric.le l.toNumber r.toNumber

/-- Equality across kinds: missing values equal each other only, and values of two other kinds
compare as numbers. -/
def looselyEqual (l r : Literal ν) : Bool :=
  if l.isNullish || r.isNullish then l.isNullish && r.isNullish
  else
    match l, r with
    | .string _, .string _ | .number _, .number _ | .boolean _, .boolean _ => l.same r
    | _, _ => Numeric.eq l.toNumber r.toNumber

def evaluate (op : BinaryOperator) (l r : Literal ν) : Literal ν :=
  match op with
  | add => addLiterals l r
  | subtract => .number (Numeric.sub l.toNumber r.toNumber)
  | multiply => .number (Numeric.mul l.toNumber r.toNumber)
  | divide => .number (Numeric.div l.toNumber r.toNumber)
  | remainder => .number (Numeric.rem l.toNumber r.toNumber)
  | exponent => .number (Numeric.pow l.toNumber r.toNumber)
  | strictEqual => .boolean (l.same r)
  | strictNotEqual => .boolean (! l.same r)
  | equal => .boolean (looselyEqual l r)
  | notEqual => .boolean (! looselyEqual l r)
  | lessThan => .boolean (isBefore l r)
  | lessThanOrEqual => .boolean (isAtMost l r)
  | greaterThan => .boolean (isBefore r l)
  | greaterThanOrEqual => .boolean (isAtMost r l)

end BinaryOperator

namespace LogicalOperator

def text : LogicalOperator → String
  | and => "&&"
  | or => "||"

def precedence : LogicalOperator → Nat
  | and => 7
  | or => 6

/-- Whether the left operand alone decides, given its truth value. -/
def decides : LogicalOperator → Bool → Bool
  | and, leftIsTruthy => ! leftIsTruthy
  | or, leftIsTruthy => leftIsTruthy

/-- The operand that the operator's value comes from. -/
def select {α : Type} (op : LogicalOperator) (left right : α) (leftIsTruthy : Bool) : α :=
  if op.decides leftIsTruthy then left else right

end LogicalOperator

namespace AssignmentOperator

/-- The operator that combines the current value with the assigned one. -/
def binaryOperator? : AssignmentOperator → Option BinaryOperator
  | assign => none
  | addAssign => some .add
  | subtractAssign => some .subtract
  | multiplyAssign => some .multiply
  | divideAssign => some .divide
  | remainderAssign => some .remainder

def text (op : AssignmentOperator) : String :=
  match op.binaryOperator? with
  | none => "="
  | some b => b.text ++ "="

end AssignmentOperator

namespace UpdateOperator

def binaryOperator : UpdateOperator → BinaryOperator
  | increment => .add
  | decrement => .subtract

def text : UpdateOperator → String
  | increment => "++"
  | decrement => "--"

end UpdateOperator

end Waveform
