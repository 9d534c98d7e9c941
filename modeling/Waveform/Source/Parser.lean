import Waveform.Source.Statements

/-!
# The parser

Ties the parsers for all goals together. Each goal inside another costs one of a fixed supply, and
every chain of goals that takes no character is shorter than `depthPerCharacter`, so a supply in
proportion to the length of the text is enough for every text.
-/

namespace Waveform

namespace Source

/-- One step of the grammar: the parser for each goal over a grammar for the goals inside. -/
def grammarStep (g : Grammar) : Grammar
  | .expression ctx => expression g ctx
  | .assignment ctx => assignment g ctx
  | .operands ctx level => operands g ctx level
  | .operandsAfter ctx level left => operandsAfter g ctx level left
  | .unary ctx => unary g ctx
  | .constructed ctx => constructed g ctx
  | .operand ctx => operand g ctx
  | .suffixes ctx allowsCalls base => suffixes g ctx allowsCalls base
  | .elements ctx closing allowsHoles => elements g ctx closing allowsHoles
  | .properties ctx role => properties g ctx role
  | .arrayPattern ctx => arrayPattern g ctx
  | .objectPattern ctx => objectPattern g ctx
  | .members ctx hasConstructor => members g ctx hasConstructor
  | .template ctx isTagged text offset => template g ctx isTagged text offset
  | .statement ctx declares => statement g ctx declares
  | .statements ctx atTop inPrologue => statements g ctx atTop inPrologue
  | .declarators ctx word inHeader => declarators g ctx word inHeader
  | .params ctx => params g ctx
  | .cases ctx hasDefault => cases g ctx hasDefault

def grammar : Nat → Grammar
  | 0, _ => failure
  | supply + 1, goal => grammarStep (grammar supply) goal

def depthPerCharacter : Nat := 12

def withoutEncodingMark : List Char → List Char
  | c :: cs => if c.toNat == 0xFEFF then cs else c :: cs
  | [] => []

def withoutInterpreterLine : List Char → List Char × Nat
  | '#' :: '!' :: cs =>
    let line := cs.takeWhile (! isLineEnd ·)
    (cs.drop line.length, line.length + 2)
  | cs => (cs, 0)

/-- Reads a whole text as a list of statements, if it is well formed. -/
def parse? (text : List Char) : Option (List Clause) :=
  let (code, offset) := withoutInterpreterLine text
  let supply := depthPerCharacter * (text.length + 2)
  (lexeme? code offset true).bind fun first =>
    match (grammar supply (.statements {} true true)).run first with
    | some (clauses, last) => if last.token == .finish then some clauses else none
    | none => none

end Source

end Waveform
