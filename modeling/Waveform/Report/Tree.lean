import Waveform.Report.Document
import Waveform.Syntax.Program

/-!
# Trees as documents

A tree becomes a record with one field that names the kind of its root and holds the parts.
Cases without parts become plain strings. How a number is written is left to the caller.
-/

namespace Waveform

namespace Builtin

/-- The name of the operation in a document. -/
def tag (b : Builtin) : String :=
  b.name.capitalize

end Builtin

namespace UnaryOperator

def all : List UnaryOperator := [minus, plus, not, typeOf]

def tag : UnaryOperator → String
  | minus => "Minus"
  | plus => "Plus"
  | not => "Not"
  | typeOf => "TypeOf"

end UnaryOperator

namespace BinaryOperator

def all : List BinaryOperator :=
  [add, subtract, multiply, divide, remainder, exponent, strictEqual, strictNotEqual, equal,
    notEqual, lessThan, lessThanOrEqual, greaterThan, greaterThanOrEqual]

def tag : BinaryOperator → String
  | add => "Add"
  | subtract => "Subtract"
  | multiply => "Multiply"
  | divide => "Divide"
  | remainder => "Remainder"
  | exponent => "Exponent"
  | strictEqual => "StrictEqual"
  | strictNotEqual => "StrictNotEqual"
  | equal => "Equal"
  | notEqual => "NotEqual"
  | lessThan => "LessThan"
  | lessThanOrEqual => "LessThanOrEqual"
  | greaterThan => "GreaterThan"
  | greaterThanOrEqual => "GreaterThanOrEqual"

end BinaryOperator

namespace LogicalOperator

def all : List LogicalOperator := [and, or]

def tag : LogicalOperator → String
  | and => "And"
  | or => "Or"

end LogicalOperator

namespace AssignmentOperator

def all : List AssignmentOperator :=
  [assign, addAssign, subtractAssign, multiplyAssign, divideAssign, remainderAssign]

def tag : AssignmentOperator → String
  | assign => "Assign"
  | addAssign => "AddAssign"
  | subtractAssign => "SubtractAssign"
  | multiplyAssign => "MultiplyAssign"
  | divideAssign => "DivideAssign"
  | remainderAssign => "RemainderAssign"

end AssignmentOperator

namespace UpdateOperator

def all : List UpdateOperator := [increment, decrement]

def tag : UpdateOperator → String
  | increment => "Increment"
  | decrement => "Decrement"

end UpdateOperator

namespace DeclarationKind

def all : List DeclarationKind := [mutable, constant]

def tag : DeclarationKind → String
  | mutable => "Let"
  | constant => "Const"

end DeclarationKind

open Document (record tagged strings)

variable {ν : Type}

def Literal.toDocument (number : ν → Document) : Literal ν → Document
  | .undefined => .string "Undefined"
  | .null => .string "Null"
  | .boolean b => tagged "Boolean" (.boolean b)
  | .number x => tagged "Number" (number x)
  | .string s => tagged "String" (.string s)

mutual

def Expression.toDocument (number : ν → Document) : Expression ν → Document
  | .literal l => tagged "Literal" (l.toDocument number)
  | .identifier name => tagged "Identifier" (.string name)
  | .builtin b => tagged "Builtin" (tagged "type" (.string b.tag))
  | .array items => tagged "Array" (.list (Expression.toDocuments number items))
  | .member object property =>
    tagged "Member" (record
      [("object", object.toDocument number), ("property", property.toDocument number)])
  | .unary op argument =>
    tagged "Unary" (record [("operator", .string op.tag), ("argument", argument.toDocument number)])
  | .binary op left right =>
    tagged "Binary" (record
      [("operator", .string op.tag), ("left", left.toDocument number),
        ("right", right.toDocument number)])
  | .logical op left right =>
    tagged "Logical" (record
      [("operator", .string op.tag), ("left", left.toDocument number),
        ("right", right.toDocument number)])
  | .conditional test consequent alternate =>
    tagged "Conditional" (record
      [("test", test.toDocument number), ("consequent", consequent.toDocument number),
        ("alternate", alternate.toDocument number)])
  | .call callee arguments =>
    tagged "Call" (record
      [("callee", callee.toDocument number),
        ("arguments", .list (Expression.toDocuments number arguments))])
  | .function params body _ =>
    tagged "Function" (record
      [("params", strings params), ("body", .list (Statement.toDocuments number body))])
  | .assignment op target value =>
    tagged "Assignment" (record
      [("operator", .string op.tag), ("target", .string target),
        ("value", value.toDocument number)])
  | .update op isBefore target =>
    tagged "Update" (record
      [("operator", .string op.tag), ("prefix", .boolean isBefore), ("target", .string target)])

def Expression.toDocuments (number : ν → Document) : List (Expression ν) → List Document
  | [] => []
  | e :: es => e.toDocument number :: Expression.toDocuments number es

def Expression.optionToDocument (number : ν → Document) : Option (Expression ν) → Document
  | none => .null
  | some e => e.toDocument number

def Statement.toDocument (number : ν → Document) : Statement ν → Document
  | .block body => tagged "Block" (.list (Statement.toDocuments number body))
  | .expression e => tagged "Expression" (e.toDocument number)
  | .result value => tagged "Return" (Expression.optionToDocument number value)
  | .branch test consequent alternate =>
    tagged "If" (record
      [("test", test.toDocument number), ("consequent", consequent.toDocument number),
        ("alternate", Statement.optionToDocument number alternate)])
  | .loop start test update body =>
    tagged "For" (record
      [("init", start.toDocument number), ("test", Expression.optionToDocument number test),
        ("update", Expression.optionToDocument number update),
        ("body", body.toDocument number)])
  | .declaration kind name init =>
    tagged "Declaration" (record
      [("kind", .string kind.tag), ("name", .string name),
        ("init", Expression.optionToDocument number init)])
  | .function name params body =>
    tagged "Function" (record
      [("name", .string name),
        ("function", record
          [("params", strings params), ("body", .list (Statement.toDocuments number body))])])

def Statement.toDocuments (number : ν → Document) : List (Statement ν) → List Document
  | [] => []
  | s :: ss => s.toDocument number :: Statement.toDocuments number ss

def Statement.optionToDocument (number : ν → Document) : Option (Statement ν) → Document
  | none => .null
  | some s => s.toDocument number

def LoopStart.toDocument (number : ν → Document) : LoopStart ν → Document
  | .absent => .null
  | .declaration kind name init =>
    tagged "Declaration" (record
      [("kind", .string kind.tag), ("name", .string name),
        ("init", Expression.optionToDocument number init)])
  | .expression e => tagged "Expression" (e.toDocument number)

end

def Function.toDocument (number : ν → Document) (f : Function ν) : Document :=
  record [("params", strings f.params), ("body", .list (Statement.toDocuments number f.body))]

def FunctionDeclaration.toDocument (number : ν → Document) (d : FunctionDeclaration ν) : Document :=
  record [("name", .string d.name), ("function", d.function.toDocument number)]

def Program.toDocument (number : ν → Document) (p : Program ν) : Document :=
  record [("body", .list (Statement.toDocuments number p.body))]

end Waveform
