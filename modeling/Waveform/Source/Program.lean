import Waveform.Source.Error
import Waveform.Source.Parser
import Waveform.Syntax.Program

/-!
# Programs from source text

Turns a source tree into a program, or finds the first construct in it that programs may not
contain. `Program.ofText` is the whole way from a text to a program.
-/

namespace Waveform

namespace Source

variable {ν : Type} [Numeric ν]

abbrev Lowered (α : Type) := Except Rejection α

def reject {α : Type} (reason : Reason) (offset : Nat) : Lowered α :=
  throw ⟨reason, offset⟩

def Constant.toLiteral : Constant → Literal ν
  | null => .null
  | boolean b => .boolean b
  | number d => .number (Numeric.ofNumeral (.finite d))
  | string s _ => .string s

def nameExpression (name : String) : Expression ν :=
  match name with
  | "undefined" => .undefined
  | "NaN" => .number Numeric.nan
  | "Infinity" => .number Numeric.infinity
  | name => .identifier name

/-- A member of `Math`: a function or a constant. -/
def mathMember? (name : String) : Option (Expression ν) :=
  match Builtin.ofMathName? name with
  | some b => some (.builtin b)
  | none => (Waveform.Constant.ofName? name).map fun c => .number (Numeric.constant c)

def parameter : Binding → Lowered String
  | .name _ name => pure name
  | .pattern start | .rest start => reject .patternParameter start

def declared : Binding → Lowered String
  | .name _ name => pure name
  | .pattern start | .rest start => reject .destructuring start

def declarationKind (start : Nat) : DeclarationWord → Lowered DeclarationKind
  | .var => reject .varDeclaration start
  | .let_ => pure .mutable
  | .const => pure .constant

/-- A member access by name: only those of `Math` are known. -/
def namedMember (start : Nat) (object : Node) (name : Option String) : Lowered (Expression ν) :=
  match object, name with
  | .identifier _ "Math", some n =>
    match mathMember? n with
    | some e => pure e
    | none => reject .unknownMathMember start
  | _, _ => reject .namedMember start

def assignedName (start : Nat) (reason : Reason) : Node → Lowered String
  | .identifier _ name => pure name
  | _ => reject reason start

def Statement.ofList : List (Statement ν) → Statement ν
  | [s] => s
  | ss => .block ss

mutual

def Node.lower : Node → Lowered (Expression ν)
  | .identifier _ name => pure (nameExpression name)
  | .constant _ value => pure (.literal value.toLiteral)
  | .array start elements => do
    return .array (← lowerElements .holeOrSpread start elements)
  | .group _ inner => inner.lower
  | .member _ object property => do
    let object ← object.lower
    return .member object (← property.lower)
  | .field start object name => namedMember start object name
  | .unary _ op argument => do
    return .unary op (← argument.lower)
  | .binary start op left right => do
    let left ← left.lower
    let right ← right.lower
    match op with
    | .operation op => return .binary op left right
    | .logical op => return .logical op left right
    | .coalesce | .unsupported => reject .unsupportedSyntax start
  | .conditional _ test consequent alternate => do
    let test ← test.lower
    let consequent ← consequent.lower
    return .conditional test consequent (← alternate.lower)
  | .call start callee arguments => do
    let callee ← callee.lower
    return .call callee (← lowerElements .spreadArgument start arguments)
  | .arrow _ params body | .function _ params body => do
    let params ← params.mapM parameter
    return .function params (← lowerClauses body) none
  | .assignment start target op value => do
    let target ← assignedName start .assignedNonName target
    match op with
    | some op => return .assignment op target (← value.lower)
    | none => reject .unsupportedSyntax start
  | .update start op isBefore target => do
    return .update op isBefore (← assignedName start .updatedNonName target)
  | .unsupported start _ => reject .unsupportedSyntax start

/-- The values of a list that starts at the given place and may hold nothing but values. -/
def lowerElements (reason : Reason) (start : Nat) : List Element → Lowered (List (Expression ν))
  | [] => pure []
  | .item value :: rest => do
    let value ← value.lower
    return value :: (← lowerElements reason start rest)
  | _ :: _ => reject reason start

def lowerOption : Option Node → Lowered (Option (Expression ν))
  | none => pure none
  | some n => do
    return some (← n.lower)

def Clause.lower : Clause → Lowered (List (Statement ν))
  | .empty => pure []
  | .block body => do
    return [.block (← lowerClauses body)]
  | .expression value => do
    return [.expression (← value.lower)]
  | .result value => do
    return [.result (← lowerOption value)]
  | .branch test consequent alternate => do
    let test ← test.lower
    let consequent ← consequent.lower
    return [.branch test (Statement.ofList consequent) (← lowerAlternate alternate)]
  | .loop init test update body => do
    let init ← init.lower
    let test ← lowerOption test
    let update ← lowerOption update
    return [.loop init test update (Statement.ofList (← body.lower))]
  | .declarations start word declarators => do
    let kind ← declarationKind start word
    let declared ← lowerDeclarators kind declarators
    return declared.map fun (name, init) => .declaration kind name init
  | .function name params body => do
    let params ← params.mapM parameter
    return [.function name params (← lowerClauses body)]
  | .unsupported start => reject .unsupportedSyntax start

def lowerClauses : List Clause → Lowered (List (Statement ν))
  | [] => pure []
  | c :: cs => do
    let first ← c.lower
    return first ++ (← lowerClauses cs)

def lowerAlternate : Option Clause → Lowered (Option (Statement ν))
  | none => pure none
  | some c => do
    return some (Statement.ofList (← c.lower))

def LoopInit.lower : LoopInit → Lowered (LoopStart ν)
  | .absent => pure .absent
  | .declarations start word declarators => do
    let kind ← declarationKind start word
    match ← lowerDeclarators kind declarators with
    | [(name, init)] => return .declaration kind name init
    | _ => reject .severalLoopBindings start
  | .expression value => do
    return .expression (← value.lower)

def lowerDeclarators (kind : DeclarationKind) :
    List Declarator → Lowered (List (String × Option (Expression ν)))
  | [] => pure []
  | .mk binding init :: rest => do
    let name ← declared binding
    let init ← lowerOption init
    if init.isNone && kind == .constant then reject .missingInitializer binding.start
    else return (name, init) :: (← lowerDeclarators kind rest)

end

end Source

/-- Reads a program from its text. The path names the text in errors. -/
def Program.ofText {ν : Type} [Numeric ν] (text : String) (path : Option String) :
    Except Source.Error (Program ν) :=
  let cs := Source.withoutEncodingMark text.toList
  match Source.parse? cs with
  | none => throw .malformed
  | some clauses =>
    match Source.lowerClauses clauses with
    | .ok body => pure ⟨body⟩
    | .error r =>
      throw (.rejected r.reason (path.getD Source.anonymous) (.after (cs.take r.offset)))

end Waveform
