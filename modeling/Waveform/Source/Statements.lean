import Waveform.Source.Expressions

/-!
# Parsing statements

The parsers for the goals that are statements. A statement that programs may not contain is read to
its end all the same, so that a text is either well formed as a whole or not at all.
-/

namespace Waveform

namespace Source

def Grammar.block (g : Grammar) (ctx : Context) : Parse (List Clause) := do
  expectMark "\x7b"
  let body ← g (.statements ctx false false)
  expectMark "\x7d"
  return body

def Grammar.test (g : Grammar) (ctx : Context) : Parse Node := do
  expectMark "("
  let n ← g.wholeExpression ctx
  expectMark ")"
  return n

/-- The statement that a branch or a loop governs, which cannot be a declaration. -/
def Grammar.substatement (g : Grammar) (ctx : Context) : Parse Clause :=
  g (.statement ctx false)

/-! ## Declarations -/

def atLoopHead : Parse Bool := do
  return (← atWord "of") || (← atWord "in")

/-- Declared names or patterns with their initial values. A pattern needs one, and so does a
constant in strict code, except in the header of a loop over the members of something. -/
def declarators (g : Grammar) (ctx : Context) (word : DeclarationWord) (inHeader : Bool) :
    Parse (List Declarator) := do
  let binding ← g.binding ctx
  let isAllowed : Bool :=
    match binding with
    | .name _ n => word == .var || n != "let"
    | .pattern _ | .rest _ => true
  guardThat isAllowed
  let init ←
    if ← acceptMark "=" then pure (some (← g (.assignment ctx)))
    else
      let needsInit := ! binding.isName || (word == .const && ctx.isStrict)
      guardThat (! needsInit || (inHeader && (← atLoopHead)))
      pure none
  let declarator := Declarator.mk binding init
  if ← acceptMark "," then return declarator :: (← g (.declarators ctx word inHeader))
  else return [declarator]

/-- Whether the token can follow `let` in a declaration. -/
def startsBinding : Token → Bool
  | .word w _ => ! keywords.contains w
  | .mark m => m == "[" || m == "\x7b"
  | _ => false

def declarationWord? : Parse (Option DeclarationWord) := do
  if ← atWord "var" then return some .var
  else if ← atWord "const" then return some .const
  else if ← atWord "let" then
    return if (← next?).any (startsBinding ·.token) then some .let_ else none
  else return none

/-- A function declaration, from its keyword on; `start` is where its first word stands. -/
def Grammar.functionDeclaration (g : Grammar) (ctx : Context) (start : Nat) (isAsync : Bool) :
    Parse Clause := do
  expectWord "function"
  let isGenerator ← acceptMark "*"
  let ctx := ctx.enterFunction
  let n ← bindingName ctx
  let (params, body) ← g.functionRest ctx isAsync isGenerator
  return if isAsync || isGenerator then .unsupported start else .function n params body

/-! ## Loops -/

/-- The rest of a loop with a test and an update, after its first semicolon. -/
def Grammar.countedLoop (g : Grammar) (ctx : Context) (init : LoopInit) : Parse Clause := do
  let test ← if ← atMark ";" then pure none else pure (some (← g.wholeExpression ctx))
  expectMark ";"
  let update ← if ← atMark ")" then pure none else pure (some (← g.wholeExpression ctx))
  expectMark ")"
  let body ← g.substatement ctx.enterLoop
  return .loop init test update body

/-- The rest of a loop over the members of something, from `in` or `of` on. Only members behind `of`
are waited for. -/
def Grammar.memberLoop (g : Grammar) (ctx : Context) (start : Nat) (awaits : Bool) :
    Parse Clause := do
  if ← acceptWord "of" then
    let _ ← g.value ctx
  else
    guardThat (! awaits)
    expectWord "in"
    let _ ← g.wholeExpression ctx
  expectMark ")"
  let _ ← g.substatement ctx.enterLoop
  return .unsupported start

/-- Whether the header of a loop that waits for members starts with `async` as a variable. -/
def atAsyncVariable : Parse Bool := do
  let l ← current
  if l.token.isWord "async" then
    match ← next? with
    | some of_ =>
      let isArrow := (lexeme? of_.rest of_.stop false).any (·.token.isMark "=>")
      return of_.token.isWord "of" && ! of_.afterLineEnd && ! isArrow
    | none => return false
  else return false

/-- A loop of one of the kinds that start with `for`. In its header `in` is an operator only in the
declarations of block variables, or where a `var` stands in a place of its own. -/
def Grammar.forLoop (g : Grammar) (ctx : Context) : Parse Clause := do
  let start := (← current).start
  expectWord "for"
  let awaits ← acceptWord "await"
  expectMark "("
  let head := (← current).start
  match ← declarationWord? with
  | some word =>
    advance
    let headCtx := if word == .var then ctx else ctx.withIn
    let declarators ← g (.declarators headCtx word true)
    if ← atLoopHead then
      match declarators with
      | [.mk _ init] =>
        guardThat (init.isNone || (! ctx.isStrict && (← atWord "in")))
        g.memberLoop ctx start awaits
      | _ => failure
    else
      guardThat (! awaits)
      expectMark ";"
      g.countedLoop ctx (.declarations head word declarators)
  | none =>
    if ← acceptMark ";" then
      guardThat (! awaits)
      g.countedLoop ctx .absent
    else if awaits && (← atAsyncVariable) then
      advance
      g.memberLoop ctx start awaits
    else
      let n ← g (.expression { ctx with allowsIn := false })
      if ← atLoopHead then
        guardThat (n.isTarget ctx.isStrict)
        g.memberLoop ctx start awaits
      else
        guardThat (! awaits)
        expectMark ";"
        g.countedLoop ctx (.expression n)

/-! ## Other statements -/

def Grammar.branch (g : Grammar) (ctx : Context) : Parse Clause := do
  expectWord "if"
  let test ← g.test ctx
  let consequent ← g.substatement ctx
  if ← acceptWord "else" then return .branch test consequent (some (← g.substatement ctx))
  else return .branch test consequent none

def Grammar.returned (g : Grammar) (ctx : Context) : Parse Clause := do
  guardThat ctx.inFunction
  expectWord "return"
  if ← atStatementEnd then
    statementEnd
    return .result none
  else
    let n ← g.wholeExpression ctx
    statementEnd
    return .result (some n)

/-- A jump out of a loop or to its next round, by label or without. A label alone is enough to jump
out of what it stands before. -/
def jump (ctx : Context) (word : String) : Parse Clause := do
  let start := (← current).start
  expectWord word
  if ← atStatementEnd then guardThat (if word == "break" then ctx.inBreakable else ctx.inLoop)
  else
    let label ← bindingName ctx
    guardThat (ctx.labels.contains label && (word == "break" || ctx.inLoop))
  statementEnd
  return .unsupported start

/-- The cases of a switch up to the closing brace, which is taken as well. -/
def cases (g : Grammar) (ctx : Context) (hasDefault : Bool) : Parse Unit := do
  if ← acceptMark "\x7d" then pure ()
  else if ← acceptWord "case" then
    let _ ← g.wholeExpression ctx
    expectMark ":"
    let _ ← g (.statements ctx false false)
    g (.cases ctx hasDefault)
  else
    expectWord "default"
    guardThat (! hasDefault)
    expectMark ":"
    let _ ← g (.statements ctx false false)
    g (.cases ctx true)

def Grammar.handlers (g : Grammar) (ctx : Context) : Parse Unit := do
  let catches ← acceptWord "catch"
  if catches then
    if ← acceptMark "(" then
      let _ ← g.binding ctx
      expectMark ")"
    let _ ← g.block ctx
  if ← acceptWord "finally" then
    let _ ← g.block ctx
  else guardThat catches

/-- A statement that starts with a keyword, if it does. One that starts with an import needs nothing
that ends it. -/
def Grammar.keywordStatement? (g : Grammar) (ctx : Context) (declares : Bool) (l : Lexeme)
    (word : String) : Parse (Option Clause) := do
  match word with
  | "if" => some <$> g.branch ctx
  | "for" => some <$> g.forLoop ctx
  | "return" => some <$> g.returned ctx
  | "break" | "continue" => some <$> jump ctx word
  | "while" =>
    advance
    let _ ← g.test ctx
    let _ ← g.substatement ctx.enterLoop
    return some (.unsupported l.start)
  | "do" =>
    advance
    let _ ← g.substatement ctx.enterLoop
    expectWord "while"
    let _ ← g.test ctx
    let _ ← acceptMark ";"
    return some (.unsupported l.start)
  | "throw" =>
    advance
    guardThat (! (← current).afterLineEnd)
    let _ ← g.wholeExpression ctx
    statementEnd
    return some (.unsupported l.start)
  | "try" =>
    advance
    let _ ← g.block ctx
    g.handlers ctx
    return some (.unsupported l.start)
  | "switch" =>
    advance
    let _ ← g.test ctx
    expectMark "\x7b"
    g (.cases { ctx with inBreakable := true } false)
    return some (.unsupported l.start)
  | "with" =>
    advance
    let _ ← g.test ctx
    let _ ← g.substatement { ctx with inFunction := true }
    return some (.unsupported l.start)
  | "debugger" =>
    advance
    statementEnd
    return some (.unsupported l.start)
  | "function" =>
    guardThat declares
    some <$> g.functionDeclaration ctx l.start false
  | "class" =>
    guardThat declares
    g.class_ ctx true
    return some (.unsupported l.start)
  | "async" =>
    match ← next? with
    | some following =>
      if following.token.isWord "function" && ! following.afterLineEnd then
        advance
        some <$> g.functionDeclaration ctx l.start true
      else return none
    | none => return none
  | "import" =>
    let n ← g (.expression ctx)
    let _ ← acceptMark ";"
    return some (.expression n)
  | _ => return none

/-- A statement behind a label, which may also be a function if that is no generator. -/
def Grammar.labelled (g : Grammar) (ctx : Context) (start : Nat) (label : String) :
    Parse Clause := do
  guardThat (! ctx.labels.contains label)
  advance
  expectMark ":"
  let inner := { ctx with labels := label :: ctx.labels, inBreakable := true }
  let isFunction ← atWord "function"
  let isGenerator := isFunction && (← next?).any (·.token.isMark "*")
  guardThat (! isGenerator)
  let _ ← g (.statement inner (isFunction && ! ctx.isStrict))
  return .unsupported start

def Grammar.plainStatement (g : Grammar) (ctx : Context) (l : Lexeme) : Parse Clause := do
  let label? := (referenceOf? ctx l.token).filter (· != "await")
  match label?, (← next?).any (·.token.isMark ":") with
  | some n, true => g.labelled ctx l.start n
  | _, _ =>
    let n ← g.wholeExpression ctx
    statementEnd
    return .expression n

/-- A statement; one that `declares` may be a declaration that lasts as long as its block. -/
def statement (g : Grammar) (ctx : Context) (declares : Bool) : Parse Clause := do
  let l ← current
  guardThat (! isDisguised ctx l.token)
  match l.token with
  | .mark "\x7b" => return .block (← g.block ctx)
  | .mark ";" =>
    advance
    return .empty
  | _ =>
    match ← declarationWord? with
    | some word =>
      if declares || word == .var then
        advance
        let declarators ← g (.declarators ctx.withIn word false)
        statementEnd
        return .declarations l.start word declarators
      else
        guardThat (word == .let_)
        g.plainStatement ctx l
    | none =>
      match l.token with
      | .word word _ =>
        match ← g.keywordStatement? ctx declares l word with
        | some clause => return clause
        | none => g.plainStatement ctx l
      | _ => g.plainStatement ctx l

def atStatementsEnd : Parse Bool := do
  match (← current).token with
  | .finish => return true
  | .mark m => return m == "\x7d"
  | .word w _ => return w == "case" || w == "default"
  | _ => return false

/-- Lets the current token pass as one that other code than strict code may hold. -/
def forgive : Parse Unit := do
  let l ← current
  let token : Token :=
    match l.token with
    | .number value _ => .number value false
    | .string value _ => .string value false
    | t => t
  set { l with token }

/-- Statements up to what ends them. Only the first of them can ask for the rules of strict code,
and it does not for the token behind it unless a semicolon stands between. At the top of a text no
statement starts with `await`. -/
def statements (g : Grammar) (ctx : Context) (atTop inPrologue : Bool) :
    Parse (List Clause) := do
  if ← atStatementsEnd then return []
  else
    guardThat (! (atTop && (← atWord "await")))
    let string ← current
    let first ← g (.statement ctx true)
    let isAsked := inPrologue && first.isStrictDirective
    if isAsked && ! (lexeme? string.rest string.stop false).any (·.token.isMark ";") then forgive
    let ctx := { ctx with isStrict := ctx.isStrict || isAsked }
    return first :: (← g (.statements ctx atTop false))

end Source

end Waveform
