import Waveform.Specialize.Options
import Waveform.Specialize.Scope
import Waveform.Specialize.Simplify

/-!
# Inlining

The state in which a function is reduced to the expression that it returns, and the steps of the
reduction that look at no subtrees: reading and writing names, choosing from pairs, and calls of
builtins.
-/

namespace Waveform

abbrev Inlining (ν : Type) := StateT (Scopes ν) (Except (SpecializationError ν))

/-- Which variables may be written. Under a test that is not known, no frame that was there before
may change. -/
structure Floors where
  /-- Variables of frames before this one may not be written. -/
  branch : Nat
  /-- The first frame of the function that is being inlined. -/
  call : Nat

/-- How inlining a statement ends: the next one follows, or the function around it has its
result. -/
inductive Flow (ν : Type)
  | continues
  | returned (value : Expression ν)

/-- Inlines a call, from a frame, of a function that was made in its home frame. -/
abbrev Reducer (ν : Type) :=
  Floors → (scope : Nat) → Function ν → (home : Option Nat) → List (Expression ν) →
    Inlining ν (Expression ν)

def Flow.isReturn {ν : Type} : Flow ν → Bool
  | continues => false
  | returned _ => true

/-- Binds the functions that a block declares, before its first statement. -/
def Scopes.hoist {ν : Type} (s : Scopes ν) (scope : Nat) : List (Statement ν) → Scopes ν
  | [] => s
  | .function name params body :: rest =>
    (s.define scope name (.constant (.function params body (some scope)))).hoist scope rest
  | _ :: rest => s.hoist scope rest

/-- Binds the parameters of a function whose values are not known. -/
def Scopes.defineParameters {ν : Type} (s : Scopes ν) (scope : Nat) (params : List String) :
    Scopes ν :=
  params.foldl (fun s p => s.define scope p .parameter) s

/-- Binds the parameters of a call. Parameters without an argument are undefined, and arguments
without a parameter are dropped. -/
def Scopes.defineArguments {ν : Type} (s : Scopes ν) (scope : Nat) :
    List String → List (Expression ν) → Scopes ν
  | [], _ => s
  | p :: ps, [] => (s.define scope p (.constant .undefined)).defineArguments scope ps []
  | p :: ps, e :: es => (s.define scope p (.constant e)).defineArguments scope ps es

def Expression.listLength? {ν : Type} : Expression ν → Option Nat
  | .literal .null => some 0
  | .array [_, tail] => tail.listLength?.map (· + 1)
  | _ => none

def Expression.ofList {ν : Type} (items : List (Expression ν)) : Expression ν :=
  items.foldr (fun head tail => .array [head, tail]) .null

namespace Inlining

variable {ν : Type}

def child (scope : Nat) (kind : Scope.Kind) : Inlining ν Nat :=
  modifyGet (·.child scope kind)

def define (scope : Nat) (name : String) (binding : Scope.Binding ν) : Inlining ν Unit :=
  modify (·.define scope name binding)

def branching {α : Type} (floors : Floors) (inner : Floors → Inlining ν α) : Inlining ν α := do
  inner { floors with branch := (← get).size }

def read (scope : Nat) (name : String) : Inlining ν (Expression ν) := do
  match (← get).lookup? scope name with
  | some (_, .parameter) => return .identifier name
  | some (_, .mutable value) | some (_, .constant value) | some (_, .hardcoded value) =>
    return value
  | none => throw (.unresolvedName name)

/-- Replaces the value of a variable, and gives the value before and after. -/
def assign (floors : Floors) (scope : Nat) (target : String)
    (update : Expression ν → Expression ν) : Inlining ν (Expression ν × Expression ν) := do
  let scopes ← get
  match ← scopes.lookupForWrite? scope target with
  | some (owner, .mutable current) =>
    if owner < floors.branch then throw (.conditionalAssignment target)
    else
      let updated := update current
      set (← scopes.assign owner target updated)
      return (current, updated)
  | some _ => throw (.impure target)
  | none => throw (.unbound target)

variable [Numeric ν]

/-- An entry of a written array by its number; literals have no entries, and what is not known yet
stays as it is. -/
def member (object property : Expression ν) : Inlining ν (Expression ν) :=
  match object, property.asNumber? with
  | .array items, some x =>
    pure (((Numeric.toNat? x).bind fun i => items[i]?).getD .undefined)
  | .literal l, _ => throw (.memberOfLiteral l)
  | _, _ => pure (.member object property)

def foldBuiltin? (b : Builtin) (arguments : List (Expression ν)) : Option ν :=
  if b.isDeterministic then do
    let literals ← arguments.mapM (·.asLiteral?)
    Numeric.apply b (literals.map Literal.toNumber)
  else none

def applyBuiltin (residual : List Builtin) (b : Builtin) (arguments : List (Expression ν)) :
    Inlining ν (Expression ν) :=
  match b with
  | .length =>
    let list := arguments.headD .undefined
    match list.listLength? with
    | some n => pure (.number (Numeric.ofNat n))
    | none => throw (.notAList list)
  | .list => pure (.ofList arguments)
  | b =>
    if residual.contains b then
      match foldBuiltin? b arguments with
      | some x => pure (.number x)
      | none => pure (.call (.builtin b) arguments)
    else throw (.notCallable (.builtin b))

end Inlining

end Waveform
