import Waveform.Syntax.Operator

/-!
# Programs

The trees that programs are made of. A function value carries the compile-time frame that it was
made in, once the specializer has made it; in a program as it is read there is none, and the frame
is no part of what the function is: `Expression.same` compares trees without it.
-/

namespace Waveform

inductive DeclarationKind
  | mutable
  | constant
  deriving DecidableEq, Repr

def DeclarationKind.text : DeclarationKind → String
  | mutable => "let"
  | constant => "const"

mutual

inductive Expression (ν : Type)
  | literal (value : Literal ν)
  | identifier (name : String)
  | builtin (operation : Builtin)
  | array (items : List (Expression ν))
  | member (object property : Expression ν)
  | unary (op : UnaryOperator) (argument : Expression ν)
  | binary (op : BinaryOperator) (left right : Expression ν)
  | logical (op : LogicalOperator) (left right : Expression ν)
  | conditional (test consequent alternate : Expression ν)
  | call (callee : Expression ν) (arguments : List (Expression ν))
  | function (params : List String) (body : List (Statement ν)) (home : Option Nat)
  | assignment (op : AssignmentOperator) (target : String) (value : Expression ν)
  | update (op : UpdateOperator) (isBefore : Bool) (target : String)

inductive Statement (ν : Type)
  | block (body : List (Statement ν))
  | expression (value : Expression ν)
  | result (value : Option (Expression ν))
  | branch (test : Expression ν) (consequent : Statement ν) (alternate : Option (Statement ν))
  | loop (start : LoopStart ν) (test update : Option (Expression ν)) (body : Statement ν)
  | declaration (kind : DeclarationKind) (name : String) (init : Option (Expression ν))
  | function (name : String) (params : List String) (body : List (Statement ν))

/-- What a loop does before its first test. -/
inductive LoopStart (ν : Type)
  | absent
  | declaration (kind : DeclarationKind) (name : String) (init : Option (Expression ν))
  | expression (value : Expression ν)

end

instance {ν : Type} : Inhabited (Expression ν) := ⟨.literal .undefined⟩

instance {ν : Type} : Inhabited (Statement ν) := ⟨.block []⟩

structure Function (ν : Type) where
  params : List String
  body : List (Statement ν)

structure FunctionDeclaration (ν : Type) where
  name : String
  function : Function ν

structure Program (ν : Type) where
  body : List (Statement ν)

namespace Expression

variable {ν : Type}

def undefined : Expression ν := literal .undefined

def null : Expression ν := literal .null

def boolean (b : Bool) : Expression ν := literal (.boolean b)

def number (x : ν) : Expression ν := literal (.number x)

def asLiteral? : Expression ν → Option (Literal ν)
  | literal l => some l
  | _ => none

def asNumber? : Expression ν → Option ν
  | literal (.number x) => some x
  | _ => none

def asIdentifier? : Expression ν → Option String
  | identifier name => some name
  | _ => none

end Expression

namespace Statement

variable {ν : Type}

def ofDeclaration (d : FunctionDeclaration ν) : Statement ν :=
  .function d.name d.function.params d.function.body

end Statement

section References

variable {ν : Type}

mutual

/-- Whether the name is read or written anywhere in the expression, also inside functions. -/
def Expression.references (name : String) : Expression ν → Bool
  | .literal _ | .builtin _ => false
  | .identifier n => n == name
  | .array items => Expression.anyReferences name items
  | .member object property => object.references name || property.references name
  | .unary _ argument => argument.references name
  | .binary _ left right | .logical _ left right => left.references name || right.references name
  | .conditional test consequent alternate =>
    test.references name || consequent.references name || alternate.references name
  | .call callee arguments => callee.references name || Expression.anyReferences name arguments
  | .function _ body _ => Statement.anyReferences name body
  | .assignment _ target value => target == name || value.references name
  | .update _ _ target => target == name

def Expression.anyReferences (name : String) : List (Expression ν) → Bool
  | [] => false
  | e :: es => e.references name || Expression.anyReferences name es

/-- Whether the name is read or written in the statement. Declaring it is neither. -/
def Statement.references (name : String) : Statement ν → Bool
  | .block body => Statement.anyReferences name body
  | .expression e => e.references name
  | .result value => Expression.optionReferences name value
  | .branch test consequent alternate =>
    test.references name || consequent.references name || Statement.optionReferences name alternate
  | .loop start test update body =>
    start.references name || Expression.optionReferences name test ||
      Expression.optionReferences name update || body.references name
  | .declaration _ _ init => Expression.optionReferences name init
  | .function _ _ body => Statement.anyReferences name body

def Statement.anyReferences (name : String) : List (Statement ν) → Bool
  | [] => false
  | s :: ss => s.references name || Statement.anyReferences name ss

def LoopStart.references (name : String) : LoopStart ν → Bool
  | .absent => false
  | .declaration _ _ init => Expression.optionReferences name init
  | .expression e => e.references name

def Expression.optionReferences (name : String) : Option (Expression ν) → Bool
  | none => false
  | some e => e.references name

def Statement.optionReferences (name : String) : Option (Statement ν) → Bool
  | none => false
  | some s => s.references name

end

end References

section Same

variable {ν : Type} [Numeric ν]

mutual

def Expression.same : Expression ν → Expression ν → Bool
  | .literal a, .literal b => a.same b
  | .identifier a, .identifier b => a == b
  | .builtin a, .builtin b => a == b
  | .array a, .array b => Expression.sameList a b
  | .member a b, .member c d => a.same c && b.same d
  | .unary op a, .unary op' b => op == op' && a.same b
  | .binary op a b, .binary op' c d => op == op' && a.same c && b.same d
  | .logical op a b, .logical op' c d => op == op' && a.same c && b.same d
  | .conditional a b c, .conditional d e f => a.same d && b.same e && c.same f
  | .call a b, .call c d => a.same c && Expression.sameList b d
  | .function p a _, .function q b _ => p == q && Statement.sameList a b
  | .assignment op t a, .assignment op' u b => op == op' && t == u && a.same b
  | .update op p t, .update op' q u => op == op' && p == q && t == u
  | _, _ => false
termination_by structural x => x

def Expression.sameList : List (Expression ν) → List (Expression ν) → Bool
  | [], [] => true
  | a :: as, b :: bs => a.same b && Expression.sameList as bs
  | _, _ => false
termination_by structural x => x

def Expression.sameOption : Option (Expression ν) → Option (Expression ν) → Bool
  | none, none => true
  | some a, some b => a.same b
  | _, _ => false
termination_by structural x => x

def Statement.same : Statement ν → Statement ν → Bool
  | .block a, .block b => Statement.sameList a b
  | .expression a, .expression b => a.same b
  | .result a, .result b => Expression.sameOption a b
  | .branch a b c, .branch d e f => a.same d && b.same e && Statement.sameOption c f
  | .loop a b c d, .loop e f g h =>
    a.same e && Expression.sameOption b f && Expression.sameOption c g && d.same h
  | .declaration k n a, .declaration l m b => k == l && n == m && Expression.sameOption a b
  | .function n p a, .function m q b => n == m && p == q && Statement.sameList a b
  | _, _ => false
termination_by structural x => x

def Statement.sameList : List (Statement ν) → List (Statement ν) → Bool
  | [], [] => true
  | a :: as, b :: bs => a.same b && Statement.sameList as bs
  | _, _ => false
termination_by structural x => x

def Statement.sameOption : Option (Statement ν) → Option (Statement ν) → Bool
  | none, none => true
  | some a, some b => a.same b
  | _, _ => false
termination_by structural x => x

def LoopStart.same : LoopStart ν → LoopStart ν → Bool
  | .absent, .absent => true
  | .declaration k n a, .declaration l m b => k == l && n == m && Expression.sameOption a b
  | .expression a, .expression b => a.same b
  | _, _ => false
termination_by structural x => x

end

end Same

end Waveform
