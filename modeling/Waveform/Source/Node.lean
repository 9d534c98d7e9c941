import Waveform.Number.Decimal
import Waveform.Syntax.Operator

/-!
# Source trees

What a source text says, before it is known whether programs may say it. Every construct that can
stand in a program, or that is turned away with a reason of its own, has a case here; the others
are one case, `unsupported`, which keeps where the construct starts and what it may stand for. A
tree keeps the parentheses of the text, since a name in parentheses is no plain name.
-/

namespace Waveform

namespace Source

inductive Constant
  | null
  | boolean (value : Bool)
  | number (value : Decimal)
  /-- A string; `isPlain` if it is written just as it reads. -/
  | string (value : String) (isPlain : Bool)

inductive Connective
  | operation (op : BinaryOperator)
  | logical (op : LogicalOperator)
  | coalesce
  | unsupported
  deriving DecidableEq

structure Role where
  /-- Whether values may be taken apart into it by an assignment. -/
  isTarget : Bool := false
  /-- Whether values may be taken apart into it by the parameters of an arrow function. -/
  isBinding : Bool := false
  /-- Whether it is a chain that ends early at a missing value. -/
  isOptionalChain : Bool := false
  /-- Whether a value may be assigned to it as a whole. -/
  isPlace : Bool := false
  /-- Whether it is a prefix operator with its operand. -/
  isUnary : Bool := false
  /-- Whether it is a function whose body ends it. -/
  isArrow : Bool := false

/-- A declared name, a pattern that a value is taken apart into, possibly with a value to take where
there is none, or the parameter for all arguments that are left. -/
inductive Binding
  | name (start : Nat) (name : String)
  | pattern (start : Nat)
  | rest (start : Nat)

namespace Binding

def start : Binding → Nat
  | name start _ | pattern start | rest start => start

def isName : Binding → Bool
  | name _ _ => true
  | pattern _ | rest _ => false

def isRest : Binding → Bool
  | rest _ => true
  | name _ _ | pattern _ => false

end Binding

inductive DeclarationWord
  | var | let_ | const
  deriving DecidableEq

mutual

inductive Node
  | identifier (start : Nat) (name : String)
  | constant (start : Nat) (value : Constant)
  | array (start : Nat) (elements : List Element)
  | group (start : Nat) (inner : Node)
  | member (start : Nat) (object property : Node)
  | field (start : Nat) (object : Node) (name : Option String)
  | unary (start : Nat) (op : UnaryOperator) (argument : Node)
  | binary (start : Nat) (op : Connective) (left right : Node)
  | conditional (start : Nat) (test consequent alternate : Node)
  | call (start : Nat) (callee : Node) (arguments : List Element)
  | arrow (start : Nat) (params : List Binding) (body : List Clause)
  | function (start : Nat) (params : List Binding) (body : List Clause)
  | assignment (start : Nat) (target : Node) (op : Option AssignmentOperator) (value : Node)
  | update (start : Nat) (op : UpdateOperator) (isBefore : Bool) (target : Node)
  | unsupported (start : Nat) (role : Role)

inductive Element
  | hole
  | item (value : Node)
  /-- The values of a list; `isLast` if no comma follows. -/
  | spread (value : Node) (isLast : Bool)

inductive Clause
  | empty
  | block (body : List Clause)
  | expression (value : Node)
  | result (value : Option Node)
  | branch (test : Node) (consequent : Clause) (alternate : Option Clause)
  | loop (init : LoopInit) (test update : Option Node) (body : Clause)
  | declarations (start : Nat) (word : DeclarationWord) (declarators : List Declarator)
  | function (name : String) (params : List Binding) (body : List Clause)
  | unsupported (start : Nat)

inductive LoopInit
  | absent
  | declarations (start : Nat) (word : DeclarationWord) (declarators : List Declarator)
  | expression (value : Node)

inductive Declarator
  | mk (binding : Binding) (init : Option Node)

end

instance : Inhabited Node := ⟨.unsupported 0 {}⟩

instance : Inhabited Clause := ⟨.empty⟩

namespace Node

def start : Node → Nat
  | identifier n _ | constant n _ | array n _ | group n _ | member n _ _ | field n _ _
  | unary n _ _ | binary n _ _ _ | conditional n _ _ _ | call n _ _ | arrow n _ _
  | function n _ _ | assignment n _ _ _ | update n _ _ _ | unsupported n _ => n

/-- Whether a value may be assigned to the construct as a whole. Strict code assigns to neither
`eval` nor `arguments`. -/
def isPlace (isStrict : Bool) : Node → Bool
  | identifier _ name => ! (isStrict && (name == "eval" || name == "arguments"))
  | member _ _ _ | field _ _ _ => true
  | group _ inner => inner.isPlace isStrict
  | unsupported _ role => role.isPlace
  | _ => false

mutual

def isTarget (isStrict : Bool) : Node → Bool
  | array _ elements => areTargets isStrict elements
  | unsupported _ role => role.isTarget || role.isPlace
  | n => n.isPlace isStrict

def areTargets (isStrict : Bool) : List Element → Bool
  | [] => true
  | [.spread value isLast] => isLast && value.isTarget isStrict
  | .hole :: rest => areTargets isStrict rest
  | .item (.assignment _ target (some .assign) _) :: rest =>
    target.isTarget isStrict && areTargets isStrict rest
  | .item value :: rest => value.isTarget isStrict && areTargets isStrict rest
  | .spread _ _ :: _ => false

end

mutual

/-- Whether an arrow function may take an argument apart into the construct. -/
def isBinding : Node → Bool
  | identifier _ _ => true
  | array _ elements => areBindings elements
  | unsupported _ role => role.isBinding
  | _ => false

/-- Whether the entries of an array are bindings. Behind a pattern with a value to take where there
is none, it is enough that the pattern is a target, since that is how it was read. -/
def areBindings : List Element → Bool
  | [] => true
  | [.spread value isLast] => isLast && value.isBinding
  | .hole :: rest => areBindings rest
  | .item (.assignment _ target (some .assign) _) :: rest =>
    (target.isBinding || ! target.isPlace false) && areBindings rest
  | .item value :: rest => value.isBinding && areBindings rest
  | .spread _ _ :: _ => false

end

/-- Whether the construct is one that nothing can be applied to without parentheses, as a function
is whose body ends it. -/
def isArrow : Node → Bool
  | arrow _ _ _ => true
  | unsupported _ role => role.isArrow
  | _ => false

def isOptionalChain : Node → Bool
  | unsupported _ role => role.isOptionalChain
  | _ => false

/-- Whether the construct is a prefix operator with its operand, which no power can be taken of. -/
def isUnary : Node → Bool
  | unary _ _ _ => true
  | unsupported _ role => role.isUnary
  | _ => false

def isLogical : Node → Bool
  | binary _ (.logical _) _ _ => true
  | _ => false

end Node

namespace Clause

def isDirective : Clause → Bool
  | expression (.constant _ (.string _ _)) => true
  | _ => false

def isStrictDirective : Clause → Bool
  | expression (.constant _ (.string text isPlain)) => isPlain && text == "use strict"
  | _ => false

/-- Whether one of the strings that the statements start with asks for the rules of strict code. -/
def askForStrict : List Clause → Bool
  | [] => false
  | c :: cs => c.isStrictDirective || (c.isDirective && askForStrict cs)

end Clause

end Source

end Waveform
