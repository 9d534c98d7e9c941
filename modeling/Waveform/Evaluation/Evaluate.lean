import Waveform.Evaluation.Run

/-!
# Evaluation

Runs expressions, statements and programs. Trees are evaluated by recursion on their structure.
Only a call and another round of a loop can go on for ever: both use up patience, of which a run
has more than any machine has time for, and whatever ends with some patience ends in the same way
with more.
-/

namespace Waveform

/-- How a statement ends: the next one follows, or the function around it has its result. -/
inductive Completion (ν : Type)
  | normal
  | returned (value : Value ν)

/-- Repeats the body while the test holds, unless the body returns. -/
def Run.rounds {ν : Type} (test : Run ν Bool) (body : Run ν (Completion ν)) :
    Nat → Run ν (Completion ν)
  | 0 => throw .exhausted
  | patience + 1 => do
    if ← test then
      match ← body with
      | .returned value => pure (.returned value)
      | .normal => Run.rounds test body patience
    else pure .normal

/-- Functions of a block can be called before the place where they are declared. -/
def Statement.hoist {ν : Type} (env : Environment) : List (Statement ν) → Run ν Unit
  | [] => pure ()
  | .function name params body :: rest => do
    Run.define env name (← Run.makeClosure (some name) ⟨params, body⟩ env)
    hoist env rest
  | _ :: rest => hoist env rest

/-- Opens the frame of a block with the functions that the block declares. -/
def Run.enter {ν : Type} (env : Environment) (body : List (Statement ν)) : Run ν Environment := do
  let inner ← Run.extend env
  Statement.hoist inner body
  return inner

abbrev Caller (ν : Type) := Value ν → List (Value ν) → Run ν (Value ν)

section

variable {ν : Type} [Numeric ν]

mutual

def Expression.evaluate (call : Caller ν) (env : Environment) : Expression ν → Run ν (Value ν)
  | .literal l => pure (.primitive l)
  | .identifier name => Run.read env name
  | .builtin b => pure (.builtin b)
  | .array [head, tail] => do
    let head ← head.evaluate call env
    let tail ← tail.evaluate call env
    Run.makePair head tail
  | .array items => Run.fail (.notAPair items.length)
  | .member object property => do
    let object ← object.evaluate call env
    let property ← property.evaluate call env
    Run.member object property
  | .unary op argument => do
    return op.apply (← argument.evaluate call env)
  | .binary op left right => do
    let left ← left.evaluate call env
    let right ← right.evaluate call env
    return op.apply left right
  | .logical op left right => do
    let left ← left.evaluate call env
    if op.decides left.isTruthy then return left
    else right.evaluate call env
  | .conditional test consequent alternate => do
    if (← test.evaluate call env).isTruthy then consequent.evaluate call env
    else alternate.evaluate call env
  | .call callee arguments => do
    let callee ← callee.evaluate call env
    let arguments ← Expression.evaluateAll call env arguments
    call callee arguments
  | .function params body _ => Run.makeClosure none ⟨params, body⟩ env
  | .assignment op target value => do
    let value ← value.evaluate call env
    let value ←
      match op.binaryOperator? with
      | some op => do pure (op.apply (← Run.read env target) value)
      | none => pure value
    Run.assign env target value
    return value
  | .update op isBefore target => do
    let previous := Value.number (← Run.read env target).toNumber
    let updated := op.binaryOperator.apply previous (.number Numeric.one)
    Run.assign env target updated
    return if isBefore then updated else previous

def Expression.evaluateAll (call : Caller ν) (env : Environment) :
    List (Expression ν) → Run ν (List (Value ν))
  | [] => pure []
  | e :: es => do
    let value ← e.evaluate call env
    return value :: (← Expression.evaluateAll call env es)

end

/-- Binds a declared name. A function that is declared by a name is called by it. -/
def Run.declare (call : Caller ν) (env : Environment) (name : String)
    (init : Option (Expression ν)) : Run ν Unit := do
  let value ←
    match init with
    | some (.function params body _) => Run.makeClosure (some name) ⟨params, body⟩ env
    | some e => e.evaluate call env
    | none => pure .undefined
  Run.define env name value

/-- Starts a loop, and gives the name that each round has a copy of. -/
def LoopStart.run (call : Caller ν) (env : Environment) : LoopStart ν → Run ν (Option String)
  | .absent => pure none
  | .declaration kind name init => do
    Run.declare call env name init
    return if kind == .mutable then some name else none
  | .expression e => do
    let _ ← e.evaluate call env
    return none

/-- Copies the value that a name has in one environment into the innermost frame of another. -/
def Run.copyIn (source target : Environment) : Option String → Run ν Unit
  | none => pure ()
  | some name => do
    Run.define target name (((← get).lookup? name source).getD .undefined)

/-- Copies the value that a name has in one environment back to where another binds it. -/
def Run.copyOut (source target : Environment) : Option String → Run ν Unit
  | none => pure ()
  | some name => do
    Run.assign target name (((← get).lookup? name source).getD .undefined)

def Run.holds (call : Caller ν) (scope : Environment) : Option (Expression ν) → Run ν Bool
  | none => pure true
  | some test => do
    return (← test.evaluate call scope).isTruthy

def Run.proceed (call : Caller ν) (scope : Environment) : Option (Expression ν) → Run ν Unit
  | none => pure ()
  | some update => do
    let _ ← update.evaluate call scope

/-- One round of a loop. It has its own copy of the name that the loop starts with. -/
def Run.round (call : Caller ν) (scope : Environment) (copied : Option String)
    (update : Option (Expression ν)) (body : Environment → Run ν (Completion ν)) :
    Run ν (Completion ν) := do
  let iteration ← Run.extend scope
  Run.copyIn scope iteration copied
  match ← body iteration with
  | .returned value => return .returned value
  | .normal =>
    Run.copyOut iteration scope copied
    Run.proceed call scope update
    return .normal

mutual

/-- Runs a statement whose loops may take the given count of rounds. -/
def Statement.execute (patience : Nat) (call : Caller ν) (env : Environment) :
    Statement ν → Run ν (Completion ν)
  | .block body => do
    let inner ← Run.enter env body
    Statement.executeAll patience call inner body
  | .expression e => do
    let _ ← e.evaluate call env
    return .normal
  | .result none => pure (.returned .undefined)
  | .result (some e) => do
    return .returned (← e.evaluate call env)
  | .branch test consequent alternate => do
    if (← test.evaluate call env).isTruthy then
      let inner ← Run.enter env [consequent]
      consequent.execute patience call inner
    else
      match alternate with
      | none => return .normal
      | some s => do
        let inner ← Run.enter env [s]
        s.execute patience call inner
  | .loop start test update body => do
    let scope ← Run.extend env
    let copied ← start.run call scope
    let round := Run.round call scope copied update fun iteration => do
      let inner ← Run.enter iteration [body]
      body.execute patience call inner
    Run.rounds (Run.holds call scope test) round patience
  | .declaration _ name init => do
    Run.declare call env name init
    return .normal
  | .function _ _ _ => pure .normal

def Statement.executeAll (patience : Nat) (call : Caller ν) (env : Environment) :
    List (Statement ν) → Run ν (Completion ν)
  | [] => pure .normal
  | s :: rest => do
    match ← s.execute patience call env with
    | .returned value => return .returned value
    | .normal => Statement.executeAll patience call env rest

end

def Run.block (patience : Nat) (call : Caller ν) (env : Environment)
    (body : List (Statement ν)) : Run ν (Completion ν) := do
  Statement.hoist env body
  Statement.executeAll patience call env body

def Run.body (patience : Nat) (call : Caller ν) (c : Closure ν) (args : List (Value ν)) :
    Run ν (Value ν) := do
  let env ← Run.extend c.environment
  Run.defineParams env c.function.params args
  match ← Run.block patience call env c.function.body with
  | .returned value => return value
  | .normal => return .undefined

/-- The value of a call from inside the given count of other calls, of which there may be no more
than the limit. -/
def Run.call (limit : Option Nat) : (patience : Nat) → (depth : Nat) → Caller ν
  | 0, _, _, _ => throw .exhausted
  | patience + 1, depth, target, args =>
    match target with
    | .closure c =>
      if limit.any (· ≤ depth) then Run.fail .tooManyCalls
      else Run.body patience (Run.call limit patience (depth + 1)) c args
    | .builtin b => Run.applyBuiltin b args
    | v => Run.fail (.notAFunction v)

end

end Waveform
