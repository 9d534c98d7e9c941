import Waveform.Evaluation.Error
import Waveform.Evaluation.Store

/-!
# Runs

A run changes the store and ends with a value or is stopped. What it has done to the store by then
stays done. The operations here are the steps that evaluation is made of.
-/

namespace Waveform

abbrev Run (ν : Type) := ExceptT (Stop ν) (StateM (Store ν))

namespace Run

variable {ν : Type}

def fail {α : Type} (cause : RuntimeError ν) : Run ν α :=
  throw (.error cause)

def extend (env : Environment) : Run ν Environment :=
  modifyGet (·.extend env)

def define (env : Environment) (name : String) (value : Value ν) : Run ν Unit :=
  modify (·.define env name value)

def read (env : Environment) (name : String) : Run ν (Value ν) := do
  match (← get).lookup? name env with
  | some value => pure value
  | none => fail (.undefinedName name)

/-- Replaces the value of a name in the nearest frame that binds it. -/
def assign (env : Environment) (name : String) (value : Value ν) : Run ν Unit := do
  match (← get).owner? name env with
  | some i => modify (·.bind i name value)
  | none => fail (.undeclaredTarget name)

def makePair (head tail : Value ν) : Run ν (Value ν) :=
  modifyGet (·.makePair head tail)

def makeClosure (name : Option String) (function : Function ν) (env : Environment) :
    Run ν (Value ν) := do
  return .closure (← modifyGet (·.makeClosure name function env))

def makeList : List (Value ν) → Run ν (Value ν)
  | [] => pure .null
  | v :: vs => do makePair v (← makeList vs)

/-- Binds the parameters of a call. Parameters without an argument are undefined, and arguments
without a parameter are dropped. -/
def defineParams (env : Environment) : List String → List (Value ν) → Run ν Unit
  | [], _ => pure ()
  | p :: ps, [] => do
    define env p .undefined
    defineParams env ps []
  | p :: ps, v :: vs => do
    define env p v
    defineParams env ps vs

variable [Numeric ν]

/-- The entry of a pair, which is asked for by number; other values have no properties. -/
def member (object property : Value ν) : Run ν (Value ν) :=
  match object with
  | .pair _ head tail =>
    match property.asNumber? with
    | some x =>
      if Numeric.isZero x then pure head
      else if Numeric.isOne x then pure tail
      else pure .undefined
    | none => pure .undefined
  | .primitive .undefined | .primitive .null => fail (.noProperties object property)
  | _ => pure .undefined

def draw : Run ν (Value ν) :=
  modifyGet fun s => (.number (Numeric.draw s.draws), { s with draws := s.draws + 1 })

def applyBuiltin (b : Builtin) (args : List (Value ν)) : Run ν (Value ν) :=
  match b with
  | .length =>
    let value := args.headD .undefined
    match value.listLength? with
    | some n => pure (.number (Numeric.ofNat n))
    | none => fail (.notAList value)
  | .list => makeList args
  | .random => draw
  | b =>
    match Numeric.apply b (args.map Value.toNumber) with
    | some x => pure (.number x)
    | none => fail (.notNumeric b)

end Run

end Waveform
