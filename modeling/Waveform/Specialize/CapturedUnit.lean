import Waveform.Evaluation.Store
import Waveform.Specialize.ClosureNames
import Waveform.Specialize.Inlining

/-!
# Captured units

A closure of a run as a function declaration that stands by itself: each name that the function
does not bind is replaced by the value that it has in the closure's environment. Another closure
that is reached in this way goes by a name, and is captured into a unit of its own later.
-/

namespace Waveform

/-- A closure that has a name and is still to be captured. -/
structure ClosureTask (ν : Type) where
  name : String
  closure : Closure ν

structure CaptureState (ν : Type) where
  scopes : Scopes ν
  names : ClosureNames
  /-- The closures that were named on the way, the latest first. -/
  found : List (ClosureTask ν)

/-- Names that a capture has given stay given even when it fails. -/
abbrev Capturing (ν : Type) := ExceptT (SpecializationError ν) (StateM (CaptureState ν))

namespace Capturing

variable {ν : Type}

def child (scope : Nat) (kind : Scope.Kind) : Capturing ν Nat :=
  modifyGet fun s =>
    let (i, scopes) := s.scopes.child scope kind
    (i, { s with scopes })

def define (scope : Nat) (name : String) (binding : Scope.Binding ν) : Capturing ν Unit :=
  modify fun s => { s with scopes := s.scopes.define scope name binding }

def declared : DeclarationKind → Scope.Binding ν
  | .mutable => .mutable .undefined
  | .constant => .parameter

/-- Binds the names that a block declares, before its first statement. -/
def predeclare (scope : Nat) : List (Statement ν) → Capturing ν Unit
  | [] => pure ()
  | .function name _ _ :: rest => do
    define scope name .parameter
    predeclare scope rest
  | .declaration kind name _ :: rest => do
    define scope name (declared kind)
    predeclare scope rest
  | _ :: rest => predeclare scope rest

/-- Binds the parameters of a function in its frame, and gives the frame of its body. -/
def enter (scope : Nat) (params : List String) (body : List (Statement ν)) : Capturing ν Nat := do
  modify fun s => { s with scopes := s.scopes.defineParameters scope params }
  let block ← child scope .block
  predeclare block body
  return block

def ensureWritable (scope : Nat) (name : String) : Capturing ν Unit := do
  match (← get).scopes.lookupForWrite? scope name with
  | .ok (some (_, .mutable _)) => pure ()
  | .ok _ => throw (.impure name)
  | .error e => throw e

def closure (scope : Nat) (hint : String) (c : Closure ν) : Capturing ν (Expression ν) :=
  modifyGet fun s =>
    let ((name, isNew), names) := s.names.resolve c.identity (s.scopes.freshName scope hint)
    (.identifier name, { s with names, found := if isNew then ⟨name, c⟩ :: s.found else s.found })

/-- A value as an expression. The hint is the name that it was reached by. -/
def value (scope : Nat) (hint : String) : Value ν → Capturing ν (Expression ν)
  | .primitive l => pure (.literal l)
  | .builtin b => pure (.builtin b)
  | .pair _ head tail => do
    let head ← value scope (hint ++ "_0") head
    let tail ← value scope (hint ++ "_1") tail
    return .array [head, tail]
  | .closure c => closure scope hint c

/-- What a name stands for: itself when the function binds it, and else its value. -/
def identifier (store : Store ν) (env : Environment) (scope : Nat) (name : String) :
    Capturing ν (Expression ν) := do
  match (← get).scopes.lookup? scope name with
  | some (_, .parameter) | some (_, .mutable _) => return .identifier name
  | some (_, .constant e) | some (_, .hardcoded e) => return e
  | none =>
    match store.lookup? name env with
    | some v => value scope name v
    | none => throw (.unbound name)

end Capturing

section

variable {ν : Type} (store : Store ν) (env : Environment)

mutual

def Expression.capture (scope : Nat) : Expression ν → Capturing ν (Expression ν)
  | .literal l => pure (.literal l)
  | .builtin b => pure (.builtin b)
  | .identifier name => Capturing.identifier store env scope name
  | .array items => do
    return .array (← Expression.captureAll scope items)
  | .member object property => do
    let object ← object.capture scope
    return .member object (← property.capture scope)
  | .unary op argument => do
    return .unary op (← argument.capture scope)
  | .binary op left right => do
    let left ← left.capture scope
    return .binary op left (← right.capture scope)
  | .logical op left right => do
    let left ← left.capture scope
    return .logical op left (← right.capture scope)
  | .conditional test consequent alternate => do
    let test ← test.capture scope
    let consequent ← consequent.capture scope
    return .conditional test consequent (← alternate.capture scope)
  | .call callee arguments => do
    let callee ← callee.capture scope
    return .call callee (← Expression.captureAll scope arguments)
  | .function params body _ => do
    let inner ← Capturing.child scope .function
    let block ← Capturing.enter inner params body
    return .function params (← Statement.captureAll block body) none
  | .assignment op target value => do
    Capturing.ensureWritable scope target
    return .assignment op target (← value.capture scope)
  | .update op isBefore target => do
    Capturing.ensureWritable scope target
    return .update op isBefore target

def Expression.captureAll (scope : Nat) : List (Expression ν) → Capturing ν (List (Expression ν))
  | [] => pure []
  | e :: es => do
    let first ← e.capture scope
    return first :: (← Expression.captureAll scope es)

def Expression.captureOption (scope : Nat) :
    Option (Expression ν) → Capturing ν (Option (Expression ν))
  | none => pure none
  | some e => do
    return some (← e.capture scope)

def Statement.capture (scope : Nat) : Statement ν → Capturing ν (Statement ν)
  | .block body => do
    let block ← Capturing.child scope .block
    Capturing.predeclare block body
    return .block (← Statement.captureAll block body)
  | .expression e => do
    return .expression (← e.capture scope)
  | .result value => do
    return .result (← Expression.captureOption scope value)
  | .branch test consequent alternate => do
    let test ← test.capture scope
    let consequent ← consequent.capture scope
    match alternate with
    | none => return .branch test consequent none
    | some s => return .branch test consequent (some (← s.capture scope))
  | .loop start test update body => do
    let inner ← Capturing.child scope .loop
    let start ← start.capture inner
    let test ← Expression.captureOption inner test
    let update ← Expression.captureOption inner update
    return .loop start test update (← body.capture inner)
  | .declaration kind name init => do
    let init ← Expression.captureOption scope init
    Capturing.define scope name (Capturing.declared kind)
    return .declaration kind name init
  | .function name params body => do
    let inner ← Capturing.child scope .function
    let block ← Capturing.enter inner params body
    return .function name params (← Statement.captureAll block body)

def Statement.captureAll (scope : Nat) : List (Statement ν) → Capturing ν (List (Statement ν))
  | [] => pure []
  | s :: ss => do
    let first ← s.capture scope
    return first :: (← Statement.captureAll scope ss)

def LoopStart.capture (scope : Nat) : LoopStart ν → Capturing ν (LoopStart ν)
  | .absent => pure .absent
  | .declaration kind name init => do
    let init ← Expression.captureOption scope init
    Capturing.define scope name (Capturing.declared kind)
    return .declaration kind name init
  | .expression e => do
    return .expression (← e.capture scope)

end

/-- Captures a closure into a unit of the given name, with the closures that are named by it in the
order in which they are met. The path sets the names that it gives apart from those of other
units. -/
def ClosureTask.capture (task : ClosureTask ν) (path : String) (hardcoded : List Builtin)
    (names : ClosureNames) :
    Except (SpecializationError ν) (FunctionDeclaration ν × List (ClosureTask ν)) ×
      ClosureNames :=
  let f := task.closure.function
  let (root, scopes) := (Scopes.empty hardcoded).root .closure path
  let body : Capturing ν (List (Statement ν)) := do
    let block ← Capturing.enter root f.params f.body
    Statement.captureAll store task.closure.environment block f.body
  let (result, state) := StateT.run (ExceptT.run body) ⟨scopes, names, []⟩
  match result with
  | .ok body => (.ok (⟨task.name, f.params, body⟩, state.found.reverse), state.names)
  | .error e => (.error e, state.names)

end

end Waveform
