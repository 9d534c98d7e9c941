import Waveform.Specialize.Inlining

/-!
# Residual expressions

Reduces a function to the expression that it returns. Calls of known functions are replaced by the
values of their bodies, branches by known tests are taken, variables are followed from value to
value, and loops are unrolled. What depends on the parameters of the function is left over.

Expressions and statements are inlined by recursion on their structure. Only a call goes on in
another tree, and calls may be nested up to a limit.
-/

namespace Waveform

variable {ν : Type} [Numeric ν]

mutual

def Expression.inline (residual : List Builtin) (reduce : Reducer ν) (floors : Floors)
    (scope : Nat) : Expression ν → Inlining ν (Expression ν)
  | .literal l => pure (.literal l)
  | .builtin b => pure (.builtin b)
  | .identifier name => Inlining.read scope name
  | .array items => do
    return .array (← Expression.inlineAll residual reduce floors scope items)
  | .member object property => do
    let object ← object.inline residual reduce floors scope
    let property ← property.inline residual reduce floors scope
    Inlining.member object property
  | .unary op argument => do
    let argument ← argument.inline residual reduce floors scope
    return (Expression.unary op argument).simplify
  | .binary op left right => do
    let left ← left.inline residual reduce floors scope
    let right ← right.inline residual reduce floors scope
    return (Expression.binary op left right).simplify
  | .logical op left right => do
    let left ← left.inline residual reduce floors scope
    match left.asLiteral? with
    | some l =>
      if op.decides l.isTruthy then return left
      else right.inline residual reduce floors scope
    | none =>
      let right ← Inlining.branching floors fun floors =>
        right.inline residual reduce floors scope
      return (Expression.logical op left right).simplify
  | .conditional test consequent alternate => do
    let test ← test.inline residual reduce floors scope
    match test.asLiteral? with
    | some l =>
      if l.isTruthy then consequent.inline residual reduce floors scope
      else alternate.inline residual reduce floors scope
    | none =>
      let consequent ← Inlining.branching floors fun floors =>
        consequent.inline residual reduce floors scope
      let alternate ← Inlining.branching floors fun floors =>
        alternate.inline residual reduce floors scope
      return (Expression.conditional test consequent alternate).simplify
  | .call callee arguments => do
    let callee ← callee.inline residual reduce floors scope
    let arguments ← Expression.inlineAll residual reduce floors scope arguments
    match callee with
    | .function params body home => reduce floors scope ⟨params, body⟩ home arguments
    | .builtin b => Inlining.applyBuiltin residual b arguments
    | callee => throw (.notCallable callee)
  | .function params body _ => pure (.function params body (some scope))
  | .assignment op target value => do
    let value ← value.inline residual reduce floors scope
    let (_, updated) ← Inlining.assign floors scope target fun current =>
      match op.binaryOperator? with
      | some op => (Expression.binary op current value).simplify
      | none => value
    return updated
  | .update op isBefore target => do
    let (previous, updated) ← Inlining.assign floors scope target fun current =>
      (Expression.binary op.binaryOperator current (.number Numeric.one)).simplify
    return if isBefore then updated else (Expression.unary .plus previous).simplify

def Expression.inlineAll (residual : List Builtin) (reduce : Reducer ν) (floors : Floors)
    (scope : Nat) : List (Expression ν) → Inlining ν (List (Expression ν))
  | [] => pure []
  | e :: es => do
    let first ← e.inline residual reduce floors scope
    return first :: (← Expression.inlineAll residual reduce floors scope es)

end

/-! ## Loops -/

/-- A loop that counts up by one and adds a term to a variable in every round. -/
structure Accumulation (ν : Type) where
  counter : String
  start : ν
  bound : ν
  isInclusive : Bool
  accumulator : String
  term : Expression ν

namespace Accumulation

def hasRound (a : Accumulation ν) (index : ν) : Bool :=
  if a.isInclusive then Numeric.le index a.bound else Numeric.lt index a.bound

def isIncrement (counter : String) (update : Option (Expression ν)) : Bool :=
  match update.map Expression.simplify with
  | some (.update .increment _ target) => target == counter
  | some (.assignment .addAssign target value) =>
    target == counter && (value.asNumber?.map Numeric.isOne).getD false
  | _ => false

def bodyExpression? : Statement ν → Option (Expression ν)
  | .expression e | .block [.expression e] => some e
  | _ => none

/-- The variable and the term of a body that adds a term without the variable to it. -/
def ofBody? (counter : String) (body : Statement ν) : Option (String × Expression ν) :=
  match (bodyExpression? body).map Expression.simplify with
  | some (.assignment .addAssign target value) =>
    if target != counter && ! value.references target then some (target, value) else none
  | _ => none

/-- Adds up the terms of the rounds from the index on, after those of earlier rounds. No more than
the given count of rounds may follow. -/
def unroll (inline : Nat → Expression ν → Inlining ν (Expression ν)) (a : Accumulation ν)
    (limit scope : Nat) :
    (rounds : Nat) → (index : ν) → (sum : Option (Expression ν)) →
      Inlining ν (Option (Expression ν))
  | 0, index, sum =>
    if a.hasRound index then throw (.loop (.tooLong a.counter limit)) else pure sum
  | rounds + 1, index, sum =>
    if a.hasRound index then do
      let iteration ← Inlining.child scope .loop
      Inlining.define iteration a.counter (.constant (.number index))
      let term ← inline iteration a.term
      let sum :=
        match sum with
        | some sum => (Expression.binary .add sum term).simplify
        | none => term
      unroll inline a limit scope rounds (Numeric.add index Numeric.one) (some sum)
    else pure sum

end Accumulation

section Loop

variable (inline : Nat → Expression ν → Inlining ν (Expression ν))

def LoopStart.counter (scope : Nat) : LoopStart ν → Inlining ν (String × ν)
  | .declaration .mutable name (some init) => do
    match (← inline scope init).asNumber? with
    | some start => return (name, start)
    | none => throw (.loop (.unknownStart name))
  | _ => throw (.loop .noCounter)

/-- The bound of a loop, and whether the loop has a round for the bound itself. -/
def Expression.upperBound (scope : Nat) (counter : String) :
    Option (Expression ν) → Inlining ν (ν × Bool)
  | some (.binary op (.identifier name) right) => do
    if name == counter && (op == .lessThan || op == .lessThanOrEqual) then
      match (← inline scope right).asNumber? with
      | some bound => return (bound, op == .lessThanOrEqual)
      | none => throw (.loop (.unknownBound counter))
    else throw (.loop (.noUpperBound counter))
  | _ => throw (.loop (.noUpperBound counter))

def Inlining.loop (limit : Nat) (floors : Floors) (scope : Nat) (start : LoopStart ν)
    (test update : Option (Expression ν)) (body : Statement ν) : Inlining ν Unit := do
  let (counter, first) ← start.counter inline scope
  let (bound, isInclusive) ← Expression.upperBound inline scope counter test
  if Accumulation.isIncrement counter update then
    match Accumulation.ofBody? counter body with
    | none => throw (.loop .noAccumulation)
    | some (accumulator, term) =>
      let a : Accumulation ν := ⟨counter, first, bound, isInclusive, accumulator, term⟩
      let outer ← Inlining.child scope .loop
      match ← a.unroll inline limit outer limit first none with
      | none => return
      | some sum =>
        let _ ← Inlining.assign floors scope accumulator fun current =>
          (Expression.binary .add current sum).simplify
  else throw (.loop (.noIncrement counter))

end Loop

/-! ## Statements -/

/-- What a statement comes to in its place. -/
inductive Step (ν : Type)
  | done (flow : Flow ν)
  /-- A branch by a test that is not known, with a side that returns. -/
  | split (test : Expression ν) (consequent alternate : Flow ν)

namespace Inlining

/-- Takes a branch, or both branches when the test is not known. -/
def choose (floors : Floors) (test : Expression ν)
    (consequent alternate : Floors → Inlining ν (Flow ν)) : Inlining ν (Step ν) := do
  match test.asLiteral? with
  | some l => return .done (← if l.isTruthy then consequent floors else alternate floors)
  | none =>
    let left ← branching floors consequent
    let right ← branching floors alternate
    return if left.isReturn || right.isReturn then .split test left right else .done .continues

/-- Inlines what follows a split. Only a side that does not return reaches it, and the function
returns after it, so it may write the variables of the function. -/
def follow (floors : Floors) (scope : Nat) (consequent alternate : Flow ν)
    (rest : Floors → Nat → Inlining ν (Flow ν)) : Inlining ν (Flow ν) :=
  if consequent.isReturn && alternate.isReturn then pure .continues
  else do
    let block ← child scope .block
    rest { floors with branch := max floors.branch floors.call } block

/-- The value of the function on a side of a split, given what follows the split. -/
def finish (isTail : Bool) (side following : Flow ν) : Inlining ν (Expression ν) :=
  match side, following with
  | .returned value, _ => pure value
  | .continues, .returned value => pure value
  | .continues, .continues => if isTail then pure .undefined else throw .conditionalResult

/-- Joins the two sides of a split with the statements that follow it. -/
def merge (floors : Floors) (scope : Nat) (isTail : Bool) (test : Expression ν)
    (consequent alternate : Flow ν) (rest : Floors → Nat → Inlining ν (Flow ν)) :
    Inlining ν (Flow ν) := do
  let following ← follow floors scope consequent alternate rest
  let consequent ← finish isTail consequent following
  let alternate ← finish isTail alternate following
  return .returned (Expression.conditional test consequent alternate).simplify

/-- The frame of a statement that stands alone. A branch and a function get one of their own. -/
def place (scope : Nat) : Statement ν → Inlining ν Nat
  | .branch _ _ _ | .function _ _ _ => child scope .block
  | _ => pure scope

def conclude (floors : Floors) (scope : Nat) (isTail : Bool) : Step ν → Inlining ν (Flow ν)
  | .done flow => pure flow
  | .split test consequent alternate =>
    merge floors scope isTail test consequent alternate fun _ _ => pure .continues

def alone (floors : Floors) (scope : Nat) (isTail : Bool) (s : Statement ν)
    (step : (scope : Nat) → Inlining ν (Step ν)) : Inlining ν (Flow ν) := do
  let place ← place scope s
  modify (·.hoist place [s])
  conclude floors place isTail (← step place)

end Inlining

def DeclarationKind.binding (value : Expression ν) : DeclarationKind → Scope.Binding ν
  | .mutable => .mutable value
  | .constant => .constant value

def Inlining.declare (inline : Nat → Expression ν → Inlining ν (Expression ν)) (scope : Nat)
    (kind : DeclarationKind) (name : String) (init : Option (Expression ν)) :
    Inlining ν Unit := do
  let value ←
    match init with
    | some e => inline scope e
    | none => pure .undefined
  Inlining.define scope name (kind.binding value)

mutual

/-- Inlines a statement in its frame. It is in tail position when the function returns after
it. -/
def Statement.step (options : SpecializationOptions) (reduce : Reducer ν) (floors : Floors)
    (scope : Nat) (isTail : Bool) : Statement ν → Inlining ν (Step ν)
  | .block body => do
    let block ← Inlining.child scope .block
    modify (·.hoist block body)
    return .done (← Statement.inlineAll options reduce floors block isTail body)
  | .branch test consequent alternate => do
    let test ← test.inline options.residualBuiltins reduce floors scope
    Inlining.choose floors test
      (fun floors => Inlining.alone floors scope isTail consequent fun place =>
        consequent.step options reduce floors place isTail)
      (fun floors =>
        match alternate with
        | none => pure .continues
        | some s => Inlining.alone floors scope isTail s fun place =>
          s.step options reduce floors place isTail)
  | .function _ _ _ => pure (.done .continues)
  | .expression e => do
    let _ ← e.inline options.residualBuiltins reduce floors scope
    return .done .continues
  | .result none => pure (.done (.returned .undefined))
  | .result (some e) => do
    return .done (.returned (← e.inline options.residualBuiltins reduce floors scope))
  | .declaration kind name init => do
    Inlining.declare (Expression.inline options.residualBuiltins reduce floors) scope kind name
      init
    return .done .continues
  | .loop start test update body => do
    Inlining.loop (Expression.inline options.residualBuiltins reduce floors)
      options.maxLoopIterations floors scope start test update body
    return .done .continues

/-- Inlines the statements of a block in order. The functions among them are bound before. -/
def Statement.inlineAll (options : SpecializationOptions) (reduce : Reducer ν) (floors : Floors)
    (scope : Nat) (isTail : Bool) : List (Statement ν) → Inlining ν (Flow ν)
  | [] => pure .continues
  | s :: rest => do
    match ← s.step options reduce floors scope (isTail && rest.isEmpty) with
    | .done (.returned value) => return .returned value
    | .done .continues => Statement.inlineAll options reduce floors scope isTail rest
    | .split test consequent alternate =>
      Inlining.merge floors scope isTail test consequent alternate fun floors block => do
        modify (·.hoist block rest)
        Statement.inlineAll options reduce floors block isTail rest

end

/-! ## Functions -/

def Inlining.reduce (options : SpecializationOptions) : (depth : Nat) → Reducer ν
  | 0, _, _, f, _, _ => throw (.tooDeep options.maxInlineDepth f)
  | depth + 1, floors, scope, f, home, arguments => do
    let substitute ← Inlining.child (home.getD scope) .substitute
    modify (·.defineArguments substitute f.params arguments)
    let block ← Inlining.child substitute .block
    modify (·.hoist block f.body)
    let flow ← Statement.inlineAll options (Inlining.reduce options depth)
      { floors with call := substitute } block true f.body
    match flow with
    | .returned value => return value.simplify
    | .continues => return .undefined

/-- The expression that a function returns, in terms of its parameters. The name starts the paths
of the frames that are made on the way. -/
def Function.residual (f : Function ν) (name : String) (options : SpecializationOptions) :
    Except (SpecializationError ν) (Expression ν) :=
  let (root, scopes) := (Scopes.empty options.hardcodedBuiltins).root .closure name
  let (block, scopes) := (scopes.defineParameters root f.params).child root .block
  let reduce := Inlining.reduce options options.maxInlineDepth
  match (Statement.inlineAll options reduce ⟨0, 0⟩ block true f.body).run
      (scopes.hoist block f.body) with
  | .ok (.returned value, _) => .ok value
  | .ok (.continues, _) => .ok .undefined
  | .error e => .error e

end Waveform
