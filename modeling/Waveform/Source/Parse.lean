import Waveform.Source.Node
import Waveform.Source.Token

/-!
# Parsing steps

A parser reads from the current token on and either fails or answers with what it read and the
token after it. There is one failure and it says nothing: a text that is not well formed is just
that.

The grammar is recursive through `Goal`: `Grammar` is a parser for every goal, and the parsers for
the parts of a construct are given one such grammar for the goals inside it. Tying them together
takes a bound on the depth of nesting, which the length of the text gives.
-/

namespace Waveform

namespace Source

abbrev Parse := StateT Lexeme Option

/-- Where in a text a construct stands, as far as that decides what may stand there. -/
structure Context where
  isStrict : Bool := false
  /-- Whether there is something to return from. -/
  inFunction : Bool := false
  /-- Whether this is inside the parameters of a function that is no arrow. -/
  inParams : Bool := false
  inAsync : Bool := false
  inGenerator : Bool := false
  /-- Whether this is inside a block of a class that runs once for the class. -/
  inStaticBlock : Bool := false
  /-- Whether `arguments` is no name here, as where a field of a class is given its value. -/
  inField : Bool := false
  inLoop : Bool := false
  /-- Whether there is something to break out of. -/
  inBreakable : Bool := false
  allowsNewTarget : Bool := false
  allowsSuperMember : Bool := false
  /-- Whether `in` is an operator here; in the header of a loop it may not be. -/
  allowsIn : Bool := false
  labels : List String := []

namespace Context

/-- Inside a function that is not a member of anything. -/
def enterFunction (ctx : Context) : Context :=
  { ctx with allowsSuperMember := false, inField := false }

def enterMethod (ctx : Context) : Context :=
  { ctx with allowsSuperMember := true, inField := false }

def enterParams (ctx : Context) (isAsync isGenerator : Bool) : Context :=
  { ctx with
    inFunction := false, inParams := true, inAsync := isAsync, inGenerator := isGenerator
    allowsNewTarget := true }

/-- Inside the body of a function. What an arrow function may say of the function around it, it
may say in its body as well. -/
def enterBody (ctx : Context) (isAsync isGenerator : Bool) : Context :=
  { ctx with
    inFunction := true, inAsync := isAsync, inGenerator := isGenerator, inStaticBlock := false
    inLoop := false, inBreakable := false, labels := [] }

def enterClass (ctx : Context) : Context :=
  { ctx with isStrict := true, allowsNewTarget := true }

def enterLoop (ctx : Context) : Context :=
  { ctx with inLoop := true, inBreakable := true }

def withIn (ctx : Context) : Context :=
  { ctx with allowsIn := true }

/-- Whether `await` may take an operand here: in the body of a function only if that is
asynchronous, in parameters never, and outside of functions always. -/
def allowsAwait (ctx : Context) : Bool :=
  if ctx.inFunction then ctx.inAsync else ! ctx.inParams

/-- Whether `yield` may take an operand here. -/
def allowsYield (ctx : Context) : Bool :=
  ctx.inGenerator && (ctx.inFunction || ! ctx.inParams)

end Context

/-! ## Tokens -/

def current : Parse Lexeme := get

def resume (text : List Char) (offset : Nat) : Parse Unit := do
  match lexeme? text offset false with
  | some l => set l
  | none => failure

def advance : Parse Unit := do
  let l ← current
  resume l.rest l.stop

/-- The token after the current one, if the text is well formed up to there. -/
def next? : Parse (Option Lexeme) := do
  let l ← current
  return lexeme? l.rest l.stop false

def guardThat (condition : Bool) : Parse Unit :=
  if condition then pure () else failure

def atMark (text : String) : Parse Bool := do
  return (← current).token.isMark text

def atWord (name : String) : Parse Bool := do
  return (← current).token.isWord name

def acceptMark (text : String) : Parse Bool := do
  if ← atMark text then
    advance
    return true
  else return false

def acceptWord (name : String) : Parse Bool := do
  if ← atWord name then
    advance
    return true
  else return false

def expectMark (text : String) : Parse Unit := do
  guardThat (← atMark text)
  advance

def expectWord (name : String) : Parse Unit := do
  guardThat (← atWord name)
  advance

def atImpliedEnd : Parse Bool := do
  let l ← current
  return l.afterLineEnd || l.token == .finish || l.token.isMark "\x7d"

def atStatementEnd : Parse Bool := do
  return (← atMark ";") || (← atImpliedEnd)

def statementEnd : Parse Unit := do
  if ← acceptMark ";" then pure ()
  else guardThat (← atImpliedEnd)

/-! ## Names -/

def laterKeywords : List String :=
  ["implements", "interface", "package", "private", "protected", "public"]

def isReserved (ctx : Context) (name : String) : Bool :=
  keywords.contains name ||
    (ctx.isStrict && (laterKeywords.contains name || name == "let" || name == "yield")) ||
    (ctx.inGenerator && name == "yield") ||
    ((ctx.inAsync || ctx.inStaticBlock) && name == "await")

/-- Whether the token is a keyword of the given place that is written with escapes. -/
def isDisguised (ctx : Context) (t : Token) : Bool :=
  match t with
  | .word name escaped => escaped && isReserved ctx name
  | _ => false

def wordOf? (ctx : Context) (t : Token) : Option String :=
  match t with
  | .word name _ => if isDisguised ctx t then none else some name
  | _ => none

/-- The variable that the token stands for in the given place. Strict code may use `let` as one. -/
def referenceOf? (ctx : Context) (t : Token) : Option String :=
  (wordOf? ctx t).filter fun name =>
    ! (isReserved ctx name && name != "let") && ! (ctx.inField && name == "arguments")

/-- The name that the token gives to something in the given place. Strict code may give all names
that other code may give. -/
def bindingOf? (ctx : Context) (t : Token) : Option String :=
  (wordOf? ctx t).filter fun name =>
    ! isReserved { ctx with isStrict := false } name && ! (ctx.inField && name == "arguments")

def optionalBindingOf? (ctx : Context) (t : Token) : Option String :=
  (bindingOf? ctx t).filter fun name => ! isReserved ctx name

def bindingName (ctx : Context) : Parse String := do
  match bindingOf? ctx (← current).token with
  | some n =>
    advance
    return n
  | none => failure

/-! ## Goals -/

inductive Goal
  | expression (ctx : Context)
  | assignment (ctx : Context)
  /-- Operands joined by operators that bind at least as tightly as the level. -/
  | operands (ctx : Context) (level : Nat)
  | operandsAfter (ctx : Context) (level : Nat) (left : Node)
  | unary (ctx : Context)
  /-- What `new` is applied to. -/
  | constructed (ctx : Context)
  /-- What operators apply to. -/
  | operand (ctx : Context)
  | suffixes (ctx : Context) (allowsCalls : Bool) (base : Node)
  | elements (ctx : Context) (closing : String) (allowsHoles : Bool)
  | properties (ctx : Context) (role : Role)
  | arrayPattern (ctx : Context)
  | objectPattern (ctx : Context)
  | members (ctx : Context) (hasConstructor : Bool)
  | template (ctx : Context) (isTagged : Bool) (text : List Char) (offset : Nat)
  | statement (ctx : Context) (declares : Bool)
  /-- Statements up to what ends them: those of the text itself, or those of a block. -/
  | statements (ctx : Context) (atTop inPrologue : Bool)
  | declarators (ctx : Context) (word : DeclarationWord) (inHeader : Bool)
  | params (ctx : Context)
  | cases (ctx : Context) (hasDefault : Bool)

/-- What is read for each goal. A list of elements comes with whether a comma ends it. -/
@[reducible] def Goal.Result : Goal → Type
  | .expression _ | .assignment _ | .operands _ _ | .operandsAfter _ _ _ | .unary _
  | .constructed _ | .operand _ | .suffixes _ _ _ => Node
  | .elements _ _ _ => List Element × Bool
  | .properties _ _ => Role
  | .arrayPattern _ | .objectPattern _ | .members _ _ | .template _ _ _ _ | .cases _ _ => Unit
  | .statement _ _ => Clause
  | .statements _ _ _ => List Clause
  | .declarators _ _ _ => List Declarator
  | .params _ => List Binding

abbrev Grammar := (g : Goal) → Parse g.Result

end Source

end Waveform
