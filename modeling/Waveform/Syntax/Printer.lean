import Waveform.Syntax.Program

/-!
# Program text

Writes trees as text. Operands are put in parentheses exactly where their precedence asks for it.
Declared functions spread over indented lines; a function value stays on one line, and so do the
statements inside it.
-/

namespace Waveform

def openBrace : String := "\x7b"

def closeBrace : String := "\x7d"

def commaSeparated (items : List String) : String :=
  ", ".intercalate items

def isPropertyName (name : String) : Bool :=
  let isMark (c : Char) : Bool := c == '_' || c == '$'
  match name.toList with
  | [] => false
  | c :: cs => (c.isAlpha || isMark c) && cs.all fun c => c.isAlphanum || isMark c

def parenthesize (needed : Bool) (text : String) : String :=
  if needed then "(" ++ text ++ ")" else text

/-- The start of a line at the given depth; statements on one line have no depth. -/
def indentation : Option Nat → String
  | none => ""
  | some depth => String.ofList (List.replicate (2 * depth) ' ')

/-- Puts statements between braces, each on a line of its own one step deeper, or all on one
line. -/
def braced (depth : Option Nat) (statements : List String) : String :=
  match depth with
  | none => openBrace ++ String.join (statements.map (" " ++ ·)) ++ " " ++ closeBrace
  | some d =>
    openBrace ++ "\n" ++
      String.join (statements.map fun s => indentation (some (d + 1)) ++ s ++ "\n") ++
      indentation (some d) ++ closeBrace

section

variable {ν : Type} [Numeric ν]

namespace Expression

/-- How tightly the written expression holds together; higher binds tighter. -/
def precedence : Expression ν → Nat
  | .literal (.number x) => if Numeric.isNegative x then 16 else 20
  | .literal _ | .identifier _ | .builtin _ | .array _ => 20
  | .member _ _ | .call _ _ => 19
  | .update _ isBefore _ => if isBefore then 16 else 17
  | .unary _ _ => 16
  | .binary op _ _ => op.precedence
  | .logical op _ _ => op.precedence
  | .conditional _ _ _ => 4
  | .assignment _ _ _ | .function _ _ _ => 3

/-- Whether the written expression starts with a sign that a sign before it would run into. -/
def startsSigned : Expression ν → Bool
  | .literal (.number x) => Numeric.isNegative x
  | .unary .minus _ | .unary .plus _ => true
  | .update _ isBefore _ => isBefore
  | _ => false

end Expression

namespace Statement

/-- A branch or a loop body that is no block is put between braces all the same. -/
def isBlock : Statement ν → Bool
  | .block _ => true
  | _ => false

def isBranch : Statement ν → Bool
  | .branch _ _ _ => true
  | _ => false

end Statement

mutual

def Expression.text : Expression ν → String
  | .literal l => l.text
  | .identifier name => name
  | .builtin b => b.text
  | .array items => "[" ++ commaSeparated (Expression.texts items) ++ "]"
  | .member object property =>
    let objectText := parenthesize (object.precedence < 19) object.text
    match property with
    | .literal (.string name) =>
      if isPropertyName name then objectText ++ "." ++ name
      else objectText ++ "[" ++ property.text ++ "]"
    | _ => objectText ++ "[" ++ property.text ++ "]"
  | .unary op argument =>
    let needed := argument.precedence < 16 ||
      ((op == .minus || op == .plus) && argument.startsSigned)
    op.text ++ parenthesize needed argument.text
  | .binary op left right =>
    let p := op.precedence
    let leftNeeded := if op.isRightAssociative then left.precedence ≤ 16 else left.precedence < p
    let rightNeeded := if op.isRightAssociative then right.precedence < p else right.precedence ≤ p
    parenthesize leftNeeded left.text ++ " " ++ op.text ++ " " ++
      parenthesize rightNeeded right.text
  | .logical op left right =>
    let p := op.precedence
    parenthesize (left.precedence < p) left.text ++ " " ++ op.text ++ " " ++
      parenthesize (right.precedence ≤ p) right.text
  | .conditional test consequent alternate =>
    parenthesize (test.precedence ≤ 4) test.text ++ " ? " ++
      parenthesize (consequent.precedence < 3) consequent.text ++ " : " ++
      parenthesize (alternate.precedence < 3) alternate.text
  | .call callee arguments =>
    parenthesize (callee.precedence < 19) callee.text ++
      "(" ++ commaSeparated (Expression.texts arguments) ++ ")"
  | .function params body _ =>
    "(" ++ commaSeparated params ++ ") => " ++
      match Statement.returnedText? body with
      | some text => text
      | none => braced none (Statement.texts none body)
  | .assignment op target value =>
    target ++ " " ++ op.text ++ " " ++ parenthesize (value.precedence < 3) value.text
  | .update op isBefore target => if isBefore then op.text ++ target else target ++ op.text

def Expression.texts : List (Expression ν) → List String
  | [] => []
  | e :: es => e.text :: Expression.texts es

/-- The text of the value, if returning a value is all that the statements do. -/
def Statement.returnedText? : List (Statement ν) → Option String
  | [.result (some value)] => some value.text
  | _ => none

def Statement.render (depth : Option Nat) : Statement ν → String
  | .block body => braced depth (Statement.texts (depth.map (· + 1)) body)
  | .expression e =>
    match e with
    | .function _ _ _ => "(" ++ e.text ++ ");"
    | _ => e.text ++ ";"
  | .result none => "return;"
  | .result (some value) => "return " ++ value.text ++ ";"
  | .branch test consequent alternate =>
    "if (" ++ test.text ++ ") " ++
      (if consequent.isBlock then consequent.render depth
        else braced depth [consequent.render (depth.map (· + 1))]) ++
      match alternate with
      | none => ""
      | some s =>
        " else " ++
          if s.isBlock || s.isBranch then s.render depth
          else braced depth [s.render (depth.map (· + 1))]
  | .loop start test update body =>
    "for (" ++ start.text ++ ";" ++ Expression.clause test ++ ";" ++ Expression.clause update ++
      ") " ++
      if body.isBlock then body.render depth else braced depth [body.render (depth.map (· + 1))]
  | .declaration kind name init => kind.text ++ " " ++ name ++ Expression.initializer init ++ ";"
  | .function name params body =>
    "function " ++ name ++ "(" ++ commaSeparated params ++ ") " ++
      braced depth (Statement.texts (depth.map (· + 1)) body)

def Statement.texts (depth : Option Nat) : List (Statement ν) → List String
  | [] => []
  | s :: ss => s.render depth :: Statement.texts depth ss

def LoopStart.text : LoopStart ν → String
  | .absent => ""
  | .declaration kind name init => kind.text ++ " " ++ name ++ Expression.initializer init
  | .expression e => e.text

def Expression.clause : Option (Expression ν) → String
  | none => ""
  | some e => " " ++ e.text

def Expression.initializer : Option (Expression ν) → String
  | none => ""
  | some e => " = " ++ e.text

end

def Statement.text (s : Statement ν) : String :=
  s.render (some 0)

def Function.text (f : Function ν) : String :=
  (Expression.function f.params f.body none).text

def FunctionDeclaration.text (d : FunctionDeclaration ν) : String :=
  (Statement.ofDeclaration d).text

def Program.text (p : Program ν) : String :=
  "\n".intercalate (p.body.map Statement.text)

end

end Waveform
