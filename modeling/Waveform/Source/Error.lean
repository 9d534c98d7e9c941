import Waveform.Source.Character

/-!
# Errors in source text

A text is malformed, or it is well formed but says something that programs may not say. The second
kind has a reason and a position.
-/

namespace Waveform

namespace Source

/-- Why a program may not say something. -/
inductive Reason
  | unsupportedSyntax
  | varDeclaration
  | destructuring
  | missingInitializer
  | namedMember
  | unknownMathMember
  | patternParameter
  | severalLoopBindings
  | holeOrSpread
  | spreadArgument
  | assignedNonName
  | updatedNonName
  deriving DecidableEq, Repr

def Reason.message : Reason → String
  | unsupportedSyntax => "Unsupported syntax"
  | varDeclaration => "Use let or const instead of var"
  | destructuring => "Destructuring is not supported"
  | missingInitializer => "Missing initializer in const declaration"
  | namedMember => "Only computed member access is supported"
  | unknownMathMember => "Unknown Math member"
  | patternParameter => "Only plain identifiers are supported as parameters"
  | severalLoopBindings => "Loops must declare a single binding"
  | holeOrSpread => "Array holes and spreads are not supported"
  | spreadArgument => "Spread arguments are not supported"
  | assignedNonName => "Only identifiers may be assigned"
  | updatedNonName => "Only identifiers may be updated"

/-- A construct that programs may not contain, by the count of characters before it. -/
structure Rejection where
  reason : Reason
  offset : Nat
  deriving DecidableEq, Repr

/-- A line and a column of a text, both counted from one. -/
structure Position where
  line : Nat
  column : Nat
  deriving DecidableEq, Repr

/-- The position reached from another one over the characters. A carriage return and a line feed
each end a line, and both together end one. -/
def Position.moved : List Char → Position → Position
  | [], p => p
  | '\r' :: '\n' :: cs, p => moved cs ⟨p.line + 1, 1⟩
  | c :: cs, p =>
    moved cs
      (if c == '\n' || c == '\r' then ⟨p.line + 1, 1⟩ else ⟨p.line, p.column + columns c⟩)

/-- The position reached after the characters from the start of a text. -/
def Position.after (cs : List Char) : Position :=
  .moved cs ⟨1, 1⟩

inductive Error
  | malformed
  | rejected (reason : Reason) (file : String) (position : Position)
  deriving DecidableEq, Repr

/-- The name that a text without a file goes by. -/
def anonymous : String := "<anon>"

def Error.message : Error → String
  | malformed => "Syntax error"
  | rejected reason file position =>
    file ++ ":" ++ toString position.line ++ ":" ++ toString position.column ++ ": " ++
      reason.message

end Source

end Waveform
