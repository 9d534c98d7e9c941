import Waveform.Source.Parse

/-!
# Parsing expressions

The parsers for the goals that are expressions, each over a grammar for the goals inside it.

Parentheses before an arrow hold parameters, and braces or brackets before an equals sign hold
targets. All of these are read as expressions first; `Node.isBinding` and `Node.isTarget` say
afterwards whether they can be the other thing. What a declaration binds is read as a pattern from
the start.
-/

namespace Waveform

namespace Source

def Grammar.value (g : Grammar) (ctx : Context) : Parse Node :=
  g (.assignment ctx.withIn)

def Grammar.wholeExpression (g : Grammar) (ctx : Context) : Parse Node :=
  g (.expression ctx.withIn)

/-- A function body between braces. Only plain parameters go with a body that asks to be strict. -/
def Grammar.functionBody (g : Grammar) (ctx : Context) (inPrologue : Bool)
    (params : List Binding) : Parse (List Clause) := do
  expectMark "\x7b"
  let body ← g (.statements ctx false inPrologue)
  expectMark "\x7d"
  guardThat (params.all Binding.isName || ! Clause.askForStrict body)
  return body

/-- Parameters and body of a function that is no arrow, from the opening parenthesis on. -/
def Grammar.functionRest (g : Grammar) (ctx : Context) (isAsync isGenerator : Bool) :
    Parse (List Binding × List Clause) := do
  let inner := ctx.enterParams isAsync isGenerator
  expectMark "("
  let params ← g (.params inner)
  let body ← g.functionBody (inner.enterBody isAsync isGenerator).withIn true params
  return (params, body)

/-! ## Names of properties -/

/-- A name of a property: a word, a string, or one that no rule asks about. -/
inductive PropertyName
  | word (name : String)
  | text (value : String)
  | other
  deriving DecidableEq

def PropertyName.isConstructor : PropertyName → Bool
  | word n | text n => n == "constructor"
  | other => false

def Grammar.propertyName (g : Grammar) (ctx : Context) : Parse PropertyName := do
  let token := (← current).token
  match token with
  | .word _ _ =>
    match wordOf? ctx token with
    | some name =>
      advance
      return .word name
    | none => failure
  | .string value legacy =>
    guardThat (! (legacy && ctx.isStrict))
    advance
    return .text value
  | .number _ legacy =>
    guardThat (! (legacy && ctx.isStrict))
    advance
    return .other
  | .bigNumber =>
    advance
    return .other
  | .mark "[" =>
    advance
    let _ ← g.value ctx
    expectMark "]"
    return .other
  | _ => failure

def privateName (ctx : Context) : Parse String := do
  let l ← current
  expectMark "#"
  let word ← current
  guardThat (word.start == l.stop)
  match wordOf? ctx word.token with
  | some name =>
    advance
    return name
  | none => failure

/-! ## Bindings -/

def Grammar.binding (g : Grammar) (ctx : Context) : Parse Binding := do
  let l ← current
  if ← acceptMark "[" then
    g (.arrayPattern ctx)
    return .pattern l.start
  else if ← acceptMark "\x7b" then
    g (.objectPattern ctx)
    return .pattern l.start
  else return .name l.start (← bindingName ctx)

def Grammar.bindingElement (g : Grammar) (ctx : Context) : Parse Binding := do
  let binding ← g.binding ctx
  if ← acceptMark "=" then
    let _ ← g.value ctx
    return .pattern binding.start
  else return binding

def arrayPattern (g : Grammar) (ctx : Context) : Parse Unit := do
  if ← acceptMark "]" then pure ()
  else if ← acceptMark "," then g (.arrayPattern ctx)
  else if ← acceptMark "..." then
    let _ ← g.binding ctx
    expectMark "]"
  else
    let _ ← g.bindingElement ctx
    if ← acceptMark "," then g (.arrayPattern ctx)
    else expectMark "]"

def objectPattern (g : Grammar) (ctx : Context) : Parse Unit := do
  if ← acceptMark "\x7d" then pure ()
  else if ← acceptMark "..." then
    let _ ← bindingName ctx
    expectMark "\x7d"
  else
    let key ← g.propertyName ctx
    if ← acceptMark ":" then
      let _ ← g.bindingElement ctx
    else
      let isWord : Bool :=
        match key with
        | .word _ => true
        | .text _ | .other => false
      guardThat isWord
      if ← acceptMark "=" then
        let _ ← g.value ctx
    if ← acceptMark "," then g (.objectPattern ctx)
    else expectMark "\x7d"

def params (g : Grammar) (ctx : Context) : Parse (List Binding) := do
  let l ← current
  if ← acceptMark ")" then return []
  else if ← acceptMark "..." then
    let _ ← g.binding ctx
    expectMark ")"
    return [.rest l.start]
  else
    let binding ← g.bindingElement ctx
    if ← acceptMark "," then return binding :: (← g (.params ctx))
    else
      expectMark ")"
      return [binding]

/-- Turns what stands between parentheses into parameters. The points before a last parameter are
not part of it. -/
def bindingOfElement? : Element → Option Binding
  | .item (.identifier start name) => some (.name start name)
  | .item (.assignment start target (some .assign) _) =>
    if target.isBinding || ! target.isPlace false then some (.pattern start) else none
  | .item value => if value.isBinding then some (.pattern value.start) else none
  | .spread value isLast => if isLast && value.isBinding then some (.rest value.start) else none
  | .hole => none

def onlyLastSpreads : List Element → Bool
  | [] | [_] => true
  | .spread _ _ :: _ => false
  | _ :: rest => onlyLastSpreads rest

def bindingsOfElements? (elements : List Element) : Option (List Binding) :=
  if onlyLastSpreads elements then elements.mapM bindingOfElement? else none

/-! ## Arrow functions -/

def atArrow : Parse Bool := do
  let l ← current
  return l.token.isMark "=>" && ! l.afterLineEnd

/-- An arrow function whose parameters are read, from the arrow on. A bare value as its body stands
for returning it, and a body between braces has no strings that ask for anything. -/
def Grammar.arrow (g : Grammar) (ctx : Context) (start : Nat) (isAsync : Bool)
    (params : List Binding) : Parse Node := do
  let inner := ctx.enterBody isAsync false
  expectMark "=>"
  let body ←
    if ← atMark "\x7b" then g.functionBody inner false params
    else pure [.result (some (← g (.assignment inner)))]
  return if isAsync then .unsupported start { isArrow := true } else .arrow start params body

/-! ## Lists between brackets -/

def elements (g : Grammar) (ctx : Context) (closing : String) (allowsHoles : Bool) :
    Parse (List Element × Bool) := do
  let goal := Goal.elements ctx closing allowsHoles
  if ← acceptMark closing then return ([], false)
  else if ← atMark "," then
    guardThat allowsHoles
    advance
    let (rest, trailing) ← g goal
    return (.hole :: rest, trailing)
  else
    let spreads ← acceptMark "..."
    let value ← g.value ctx
    let entry (isLast : Bool) : Element := if spreads then .spread value isLast else .item value
    if ← acceptMark "," then
      let (rest, trailing) ← g goal
      return (entry false :: rest, trailing || rest.isEmpty)
    else
      expectMark closing
      return ([entry true], false)

def Grammar.arguments (g : Grammar) (ctx : Context) : Parse (List Element) := do
  expectMark "("
  let (elements, _) ← g (.elements ctx ")" false)
  return elements

/-- Parentheses around expressions, unless an arrow makes parameters of them. -/
def Grammar.groupOrArrow (g : Grammar) (ctx : Context) : Parse Node := do
  let start := (← current).start
  let elements ← g.arguments ctx
  if ← atArrow then
    match bindingsOfElements? elements with
    | some params => g.arrow ctx start false params
    | none => failure
  else
    let values ← (elements.mapM fun
      | .item value => some value
      | _ => none : Option (List Node))
    match values with
    | [] => failure
    | [value] => return .group start value
    | first :: _ => return .group start (.unsupported first.start {})

/-! ## Objects -/

def Grammar.method (g : Grammar) (ctx : Context) (isAsync isGenerator : Bool) :
    Parse (List Binding) := do
  let (params, _) ← g.functionRest ctx.enterMethod isAsync isGenerator
  return params

/-- Whether a member behind the word may have the parameters: one that reads a property has none,
and one that writes it has one. -/
def fitsAccess (word : String) (params : List Binding) : Bool :=
  match word with
  | "get" => params.isEmpty
  | "set" => params.length == 1 && params.all (! ·.isRest)
  | _ => true

def propertyValue (g : Grammar) (ctx : Context) : Parse Role := do
  match ← g.value ctx with
  | .assignment _ target (some .assign) _ =>
    return {
      isTarget := target.isTarget ctx.isStrict
      isBinding := target.isBinding || ! target.isPlace false }
  | value => return { isTarget := value.isTarget ctx.isStrict, isBinding := value.isBinding }

def propertyOfWord (g : Grammar) (ctx : Context) (word : String) : Parse Role := do
  if ← acceptMark "=" then
    let _ ← g.value ctx
    return { isTarget := true, isBinding := true }
  else if (← atMark ",") || (← atMark "\x7d") then
    return { isTarget := true, isBinding := true }
  else
    guardThat (["get", "set", "async"].contains word)
    let isAsync := word == "async"
    let isGenerator ← if isAsync then acceptMark "*" else pure false
    let _ ← g.propertyName ctx
    let params ← g.method ctx isAsync isGenerator
    guardThat (fitsAccess word params)
    return {}

def property (g : Grammar) (ctx : Context) : Parse Role := do
  if ← acceptMark "..." then
    let value ← g.value ctx
    let isLast ← atMark "\x7d"
    let isName := match value with
      | .identifier _ _ => true
      | _ => false
    return { isTarget := isLast && value.isTarget ctx.isStrict, isBinding := isLast && isName }
  else if ← acceptMark "*" then
    let _ ← g.propertyName ctx
    let _ ← g.method ctx false true
    return {}
  else
    let key ← g.propertyName ctx
    if ← acceptMark ":" then propertyValue g ctx
    else if ← atMark "(" then
      let _ ← g.method ctx false false
      return {}
    else
      match key with
      | .word word => propertyOfWord g ctx word
      | .text _ | .other => failure

def properties (g : Grammar) (ctx : Context) (role : Role) : Parse Role := do
  if ← acceptMark "\x7d" then return role
  else
    let r ← property g ctx
    let role : Role :=
      { isTarget := role.isTarget && r.isTarget, isBinding := role.isBinding && r.isBinding }
    if ← acceptMark "," then g (.properties ctx role)
    else
      expectMark "\x7d"
      return role

/-! ## Classes -/

def memberName (g : Grammar) (ctx : Context) : Parse PropertyName := do
  if ← atMark "#" then
    let name ← privateName ctx
    guardThat (name != "constructor")
    return .other
  else g.propertyName ctx

def field (g : Grammar) (ctx : Context) : Parse Unit := do
  if ← acceptMark "=" then
    let _ ← g.value { ctx with inField := true }
  statementEnd

/-- Whether a member that is only a name ends here, not counting the end of a line. -/
def atFieldEnd : Parse Bool := do
  return (← atMark "=") || (← atMark ";") || (← atMark "\x7d")

/-- A method behind a word or a mark that changes what it is, which cannot be the one that
constructs. -/
def modifiedMethod (g : Grammar) (ctx : Context) (word : String) (isGenerator : Bool) :
    Parse Unit := do
  let key ← memberName g ctx
  guardThat (! key.isConstructor)
  let params ← g.method ctx (word == "async") isGenerator
  guardThat (fitsAccess word params)

/-- A member of a class after any `static`, and whether it is the one that constructs. That one is
never static. -/
def member (g : Grammar) (ctx : Context) (isStatic : Bool) : Parse Bool := do
  if ← acceptMark "*" then
    modifiedMethod g ctx "" true
    return false
  else
    let key ← memberName g ctx
    let l ← current
    let isAccess := (key == .word "get" || key == .word "set") && ! (← atFieldEnd) &&
      ! (l.afterLineEnd && l.token.isMark "*")
    if l.token.isMark "(" then
      guardThat (! (key.isConstructor && isStatic))
      let _ ← g.method ctx false false
      return key.isConstructor
    else if isAccess then
      modifiedMethod g ctx (if key == .word "get" then "get" else "set") false
      return false
    else if (← atFieldEnd) || l.afterLineEnd then
      guardThat (! key.isConstructor)
      field g ctx
      return false
    else
      guardThat (key == .word "async")
      modifiedMethod g ctx "async" (← acceptMark "*")
      return false

/-- A member of a class from the word `static` on, which may also be its name. -/
def staticMember (g : Grammar) (ctx : Context) : Parse Bool := do
  expectWord "static"
  if ← atMark "(" then
    let _ ← g.method ctx false false
    return false
  else if ← atFieldEnd then
    field g ctx
    return false
  else if ← acceptMark "\x7b" then
    let _ ← g (.statements { ctx with inStaticBlock := true, inField := true } false false)
    expectMark "\x7d"
    return false
  else
    let isBlock : Bool ← do
      if ← atWord "static" then pure ((← next?).any (·.token.isMark "\x7b"))
      else pure false
    guardThat (! isBlock)
    member g ctx true

/-- The members of a class up to the closing brace, which is taken as well. One member at most
constructs. -/
def members (g : Grammar) (ctx : Context) (hasConstructor : Bool) : Parse Unit := do
  if ← acceptMark "\x7d" then pure ()
  else if ← acceptMark ";" then g (.members ctx hasConstructor)
  else
    let constructs ← if ← atWord "static" then staticMember g ctx else member g ctx false
    guardThat (! (hasConstructor && constructs))
    g (.members ctx (hasConstructor || constructs))

def Grammar.class_ (g : Grammar) (ctx : Context) (needsName : Bool) : Parse Unit := do
  expectWord "class"
  let ctx := ctx.enterClass
  if needsName || (optionalBindingOf? ctx (← current).token).isSome then
    let n ← bindingName ctx
    guardThat (n != "let")
  if ← acceptWord "extends" then
    let base ← g (.operand ctx)
    guardThat (! base.isArrow)
  expectMark "\x7b"
  g (.members { ctx with allowsSuperMember := true } false)

/-! ## Templates -/

def template (g : Grammar) (ctx : Context) (isTagged : Bool) (text : List Char) (offset : Nat) :
    Parse Unit := do
  match templateChunk? (text.length + 1) text true 0 with
  | none => failure
  | some r =>
    guardThat (isTagged || r.value.wellFormed)
    resume r.rest (offset + r.count)
    if r.value.closes then pure ()
    else
      let _ ← g.wholeExpression ctx
      let l ← current
      guardThat (l.token == .mark "\x7d")
      g (.template ctx isTagged l.rest l.stop)

/-! ## Primary expressions -/

/-- A function value, from its keyword on; `start` is where its first word stands. -/
def Grammar.functionValue (g : Grammar) (ctx : Context) (start : Nat) (isAsync : Bool) :
    Parse Node := do
  expectWord "function"
  let isGenerator ← acceptMark "*"
  let ctx := ctx.enterFunction
  if ! (← atMark "(") then
    let inner := { ctx with inAsync := isAsync, inGenerator := isGenerator }
    guardThat (optionalBindingOf? inner (← current).token).isSome
    advance
  let (params, body) ← g.functionRest ctx isAsync isGenerator
  return if isAsync || isGenerator then .unsupported start {} else .function start params body

/-- A variable, or the one parameter of an arrow function, which is never called `let`. -/
def Grammar.nameOrArrow (g : Grammar) (ctx : Context) : Parse Node := do
  let start := (← current).start
  match referenceOf? ctx (← current).token with
  | none => failure
  | some n =>
    advance
    if (← atArrow) && n != "let" then g.arrow ctx start false [.name start n]
    else return .identifier start n

/-- What can stand behind the word `async`: a function of either kind, or the name itself. -/
def Grammar.async (g : Grammar) (ctx : Context) : Parse Node := do
  let start := (← current).start
  match ← next? with
  | none => failure
  | some l =>
    if l.afterLineEnd then g.nameOrArrow ctx
    else if l.token.isWord "function" then
      advance
      g.functionValue ctx start true
    else if l.token.isMark "(" then
      advance
      let arguments ← g.arguments ctx
      if ← atArrow then
        match bindingsOfElements? arguments with
        | some params => g.arrow ctx start true params
        | none => failure
      else return .call start (.identifier start "async") arguments
    else if (optionalBindingOf? ctx l.token).isSome then
      advance
      let parameterStart := (← current).start
      let n ← bindingName ctx
      g.arrow ctx start true [.name parameterStart n]
    else g.nameOrArrow ctx

/-- What can stand behind the word `super`: arguments anywhere, and members where there is an object
to have them. -/
def Grammar.superclass (g : Grammar) (ctx : Context) : Parse Node := do
  let start := (← current).start
  expectWord "super"
  if ← atMark "(" then
    let _ ← g.arguments ctx
    return .unsupported start {}
  else
    guardThat ctx.allowsSuperMember
    if ← acceptMark "." then
      guardThat (wordOf? ctx (← current).token).isSome
      advance
    else
      expectMark "["
      let _ ← g.wholeExpression ctx
      expectMark "]"
    return .unsupported start { isPlace := true }

/-- What can stand behind the word `new`: what is constructed, with arguments or without. -/
def Grammar.construction (g : Grammar) (ctx : Context) : Parse Node := do
  let start := (← current).start
  expectWord "new"
  if ← acceptMark "." then
    guardThat ctx.allowsNewTarget
    expectWord "target"
    return .unsupported start {}
  else
    let isSuperCall : Bool ← do
      if ← atWord "super" then pure ((← next?).any (·.token.isMark "("))
      else pure false
    guardThat (! isSuperCall && ! (← atWord "import"))
    let base ← g (.constructed ctx)
    guardThat (! base.isArrow)
    if ← atMark "(" then
      let _ ← g.arguments ctx
    return .unsupported start {}

/-- What can stand behind the word `import` in an expression: arguments that no comma ends, possibly
behind the name of a phase. -/
def Grammar.importCall (g : Grammar) (ctx : Context) : Parse Node := do
  let start := (← current).start
  expectWord "import"
  if ← acceptMark "." then
    guardThat ((← atWord "source") || (← atWord "defer"))
    advance
  expectMark "("
  let (_, trailing) ← g (.elements ctx ")" false)
  guardThat (! trailing)
  return .unsupported start {}

def Grammar.keyword (g : Grammar) (ctx : Context) (start : Nat) (word : String) : Parse Node := do
  match word with
  | "null" =>
    advance
    return .constant start .null
  | "true" =>
    advance
    return .constant start (.boolean true)
  | "false" =>
    advance
    return .constant start (.boolean false)
  | "this" =>
    advance
    return .unsupported start {}
  | "function" => g.functionValue ctx start false
  | "class" =>
    g.class_ ctx false
    return .unsupported start {}
  | "new" => g.construction ctx
  | "super" => g.superclass ctx
  | "import" => g.importCall ctx
  | "async" => g.async ctx
  | _ => g.nameOrArrow ctx

/-- An expression that starts with a mark. A private name stands for itself with space or without
behind its mark. -/
def Grammar.marked (g : Grammar) (ctx : Context) (l : Lexeme) (mark : String) : Parse Node := do
  match mark with
  | "(" => g.groupOrArrow ctx
  | "[" =>
    advance
    let (elements, _) ← g (.elements ctx "]" true)
    return .array l.start elements
  | "\x7b" =>
    advance
    let role ← g (.properties ctx { isTarget := true, isBinding := true })
    return .unsupported l.start role
  | "\x60" =>
    g (.template ctx false l.rest l.stop)
    return .unsupported l.start {}
  | "#" =>
    advance
    guardThat (wordOf? ctx (← current).token).isSome
    advance
    return .unsupported l.start {}
  | "/" | "/=" =>
    match regularExpression? l.text with
    | some r =>
      resume r.rest (l.offset + r.count)
      return .unsupported l.start {}
    | none => failure
  | _ => failure

def Grammar.primary (g : Grammar) (ctx : Context) : Parse Node := do
  let l ← current
  match l.token with
  | .word word _ => g.keyword ctx l.start word
  | .number value legacy =>
    guardThat (! (legacy && ctx.isStrict))
    advance
    return .constant l.start (.number value)
  | .string value legacy =>
    guardThat (! (legacy && ctx.isStrict))
    advance
    return .constant l.start (.string value (l.stop - l.offset == value.length + 2))
  | .bigNumber =>
    advance
    return .unsupported l.start {}
  | .mark m => g.marked ctx l m
  | .finish => failure

/-! ## Calls and members -/

def fieldName (ctx : Context) : Parse (Option String) := do
  if ← atMark "#" then
    let _ ← privateName ctx
    return none
  else
    match wordOf? ctx (← current).token with
    | some n =>
      advance
      return some n
    | none => failure

def atOptionalLink : Parse Bool := do
  if ← atMark "?" then return (← next?).any (·.token.isMark ".")
  else return false

/-- A link of a chain that may end early: a name, or brackets or parentheses. -/
def Grammar.optionalLink (g : Grammar) (ctx : Context) : Parse Unit := do
  expectMark "?"
  expectMark "."
  if ← atMark "(" then
    let _ ← g.arguments ctx
  else if ← acceptMark "[" then
    let _ ← g.wholeExpression ctx
    expectMark "]"
  else
    let _ ← fieldName ctx

/-- Member accesses and, where they are allowed, calls behind an expression. -/
def suffixes (g : Grammar) (ctx : Context) (allowsCalls : Bool) (base : Node) : Parse Node := do
  let chain (n : Node) : Node :=
    if base.isOptionalChain then .unsupported base.start { isOptionalChain := true } else n
  if base.isArrow then return base
  else if ← acceptMark "." then
    let n ← fieldName ctx
    g (.suffixes ctx allowsCalls (chain (.field base.start base n)))
  else if ← acceptMark "[" then
    let property ← g.wholeExpression ctx
    expectMark "]"
    g (.suffixes ctx allowsCalls (chain (.member base.start base property)))
  else if ← atMark "\x60" then
    guardThat (! base.isOptionalChain)
    let l ← current
    g (.template ctx true l.rest l.stop)
    g (.suffixes ctx allowsCalls (.unsupported base.start {}))
  else if ← atOptionalLink then
    guardThat allowsCalls
    g.optionalLink ctx
    g (.suffixes ctx allowsCalls (.unsupported base.start { isOptionalChain := true }))
  else if allowsCalls && (← atMark "(") then
    let arguments ← g.arguments ctx
    g (.suffixes ctx allowsCalls (chain (.call base.start base arguments)))
  else return base

/-- What `new` is applied to: an expression with member accesses but no calls. -/
def constructed (g : Grammar) (ctx : Context) : Parse Node := do
  let base ← g.primary ctx
  g (.suffixes ctx false base)

def operand (g : Grammar) (ctx : Context) : Parse Node := do
  let base ← g.primary ctx
  g (.suffixes ctx true base)

/-! ## Operators -/

def prefixOperator? : String → Option (Option UnaryOperator)
  | "-" => some (some .minus)
  | "+" => some (some .plus)
  | "!" => some (some .not)
  | "~" => some none
  | _ => none

def wordOperator? : String → Option (Option UnaryOperator)
  | "typeof" => some (some .typeOf)
  | "void" | "delete" => some none
  | _ => none

def updateOperator? : Token → Option UpdateOperator
  | .mark "++" => some .increment
  | .mark "--" => some .decrement
  | _ => none

def unaryOperator? : Token → Option (Option UnaryOperator)
  | .mark m => prefixOperator? m
  | .word w _ => wordOperator? w
  | _ => none

/-- What the word `await` says: an operator with its operand, or a name where no operand can
follow. -/
def Grammar.awaited (g : Grammar) (ctx : Context) : Parse Node := do
  let start := (← current).start
  expectWord "await"
  if (← atStatementEnd) || (← atMark ")") || (← atMark "]") || (← atMark ",") then
    guardThat (! ctx.inAsync)
    return .identifier start "await"
  else
    guardThat ctx.allowsAwait
    let argument ← g (.unary ctx)
    guardThat (! argument.isArrow)
    return .unsupported start { isUnary := true }

/-- An operand that no operator stands before, or one increment or decrement behind it. -/
def Grammar.updated (g : Grammar) (ctx : Context) : Parse Node := do
  let operand ← g (.operand ctx)
  let after ← current
  match updateOperator? after.token with
  | some op =>
    if operand.isArrow || after.afterLineEnd then return operand
    else
      guardThat (operand.isPlace ctx.isStrict)
      advance
      return .update operand.start op false operand
  | none => return operand

/-- An operand: operators before it, or one increment or decrement behind it. -/
def unary (g : Grammar) (ctx : Context) : Parse Node := do
  let l ← current
  guardThat (! isDisguised ctx l.token)
  match unaryOperator? l.token, updateOperator? l.token with
  | some op, _ =>
    advance
    let argument ← g (.unary ctx)
    guardThat (! argument.isArrow)
    match op with
    | some op => return .unary l.start op argument
    | none => return .unsupported l.start { isUnary := true }
  | none, some op =>
    advance
    let target ← g (.unary ctx)
    guardThat (target.isPlace ctx.isStrict)
    return .update l.start op true target
  | none, none => if l.token.isWord "await" then g.awaited ctx else g.updated ctx

def connective? (ctx : Context) : Token → Option (Connective × Nat)
  | .mark m =>
    match m with
    | "??" => some (.coalesce, 1)
    | "||" => some (.logical .or, 2)
    | "&&" => some (.logical .and, 3)
    | "|" => some (.unsupported, 4)
    | "^" => some (.unsupported, 5)
    | "&" => some (.unsupported, 6)
    | "===" => some (.operation .strictEqual, 7)
    | "!==" => some (.operation .strictNotEqual, 7)
    | "==" => some (.operation .equal, 7)
    | "!=" => some (.operation .notEqual, 7)
    | "<" => some (.operation .lessThan, 8)
    | "<=" => some (.operation .lessThanOrEqual, 8)
    | ">" => some (.operation .greaterThan, 8)
    | ">=" => some (.operation .greaterThanOrEqual, 8)
    | "<<" | ">>" | ">>>" => some (.unsupported, 9)
    | "+" => some (.operation .add, 10)
    | "-" => some (.operation .subtract, 10)
    | "*" => some (.operation .multiply, 11)
    | "/" => some (.operation .divide, 11)
    | "%" => some (.operation .remainder, 11)
    | "**" => some (.operation .exponent, 12)
    | _ => none
  | .word "instanceof" _ => some (.unsupported, 8)
  | .word "in" _ => if ctx.allowsIn then some (.unsupported, 8) else none
  | _ => none

/-- Whether an operator may join two operands without parentheses around either. -/
def mayJoin (op : Connective) (left right : Node) : Bool :=
  match op with
  | .coalesce => ! left.isLogical && ! right.isLogical
  | .operation .exponent => ! left.isUnary
  | _ => true

def operands (g : Grammar) (ctx : Context) (level : Nat) : Parse Node := do
  let first ← g (.unary ctx)
  g (.operandsAfter ctx level first)

/-- Further operands behind a first one. Powers group to the right, all else to the left. -/
def operandsAfter (g : Grammar) (ctx : Context) (level : Nat) (left : Node) : Parse Node := do
  if left.isArrow then return left
  else
    match connective? ctx (← current).token with
    | none => return left
    | some (op, tightness) =>
      if tightness < level then return left
      else
        advance
        let right ← g (.operands ctx (if op == .operation .exponent then 12 else tightness + 1))
        guardThat (! right.isArrow && mayJoin op left right)
        g (.operandsAfter ctx level (.binary left.start op left right))

/-- The operator of an assignment; `none` inside for those that programs may not use. -/
def assignmentOperator? : Token → Option (Option AssignmentOperator)
  | .mark m =>
    match m with
    | "=" => some (some .assign)
    | "+=" => some (some .addAssign)
    | "-=" => some (some .subtractAssign)
    | "*=" => some (some .multiplyAssign)
    | "/=" => some (some .divideAssign)
    | "%=" => some (some .remainderAssign)
    | "**=" | "<<=" | ">>=" | ">>>=" | "&=" | "|=" | "^=" | "&&=" | "||=" | "??=" => some none
    | _ => none
  | _ => none

/-- The operand of `yield`, if one follows. -/
def Grammar.yielded (g : Grammar) (ctx : Context) : Parse Node := do
  let l ← current
  guardThat (ctx.allowsYield && ! isDisguised ctx l.token)
  advance
  let result : Node := .unsupported l.start { isArrow := true }
  let endsHere ← [")", "]", ",", ":"].anyM atMark
  if endsHere || (← atStatementEnd) || (← atWord "in") then return result
  else
    let _ ← acceptMark "*"
    let _ ← g (.assignment ctx)
    return result

def Grammar.choice (g : Grammar) (ctx : Context) : Parse Node := do
  let test ← g (.operands ctx 1)
  if test.isArrow then return test
  else if ← acceptMark "?" then
    let consequent ← g.value ctx
    expectMark ":"
    let alternate ← g (.assignment ctx)
    return .conditional test.start test consequent alternate
  else return test

def assignment (g : Grammar) (ctx : Context) : Parse Node := do
  if ctx.inGenerator && (← atWord "yield") then g.yielded ctx
  else
    let left ← g.choice ctx
    match assignmentOperator? (← current).token with
    | none => return left
    | some op =>
      guardThat (! left.isArrow)
      guardThat
        (if op == some .assign then left.isTarget ctx.isStrict else left.isPlace ctx.isStrict)
      advance
      return .assignment left.start left op (← g (.assignment ctx))

def expression (g : Grammar) (ctx : Context) : Parse Node := do
  let first ← g (.assignment ctx)
  if ← acceptMark "," then
    let _ ← g (.expression ctx)
    return .unsupported first.start {}
  else return first

end Source

end Waveform
