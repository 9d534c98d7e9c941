import Waveform.Evaluation.Evaluate

/-!
# Runs of programs

A program runs in the global frame, which holds the builtins and the named numbers before its
first statement. What it leaves behind in that frame is its result: values can be looked up there,
and functions called.
-/

namespace Waveform

structure RunOptions where
  /-- Whether calls are reported while they are made. -/
  tracesCalls : Bool
  /-- How many calls may be under way at once. -/
  callLimit : Option Nat

namespace RunOptions

def standard : RunOptions := ⟨false, some 1024⟩

def tracing : RunOptions := { standard with tracesCalls := true }

end RunOptions

/-- More rounds of a loop, or calls inside calls, than a run can come to. -/
def patience : Nat := 1000000000000000

def Environment.global : Environment := [0]

section

variable {ν : Type} [Numeric ν]

def globals : List (String × Value ν) :=
  Builtin.all.map (fun b => (b.globalName, .builtin b)) ++
    Constant.all.map (fun c => (c.globalName, .number (Numeric.constant c))) ++
    [("NaN", .number Numeric.nan), ("Infinity", .number Numeric.infinity)]

def Store.initial : Store ν :=
  ⟨#[⟨globals⟩], 0, 0⟩

namespace Run

def apply (options : RunOptions) (target : Value ν) (args : List (Value ν)) : Run ν (Value ν) :=
  Run.call options.callLimit patience 0 target args

def program (options : RunOptions) (p : Program ν) : Run ν Unit := do
  match ← Run.block patience (Run.call options.callLimit patience 0) .global p.body with
  | .normal => pure ()
  | .returned _ => fail .illegalResult

/-- The outcome of a run from a store, with the store that it leaves behind. -/
def outcome {α : Type} (run : Run ν α) (store : Store ν) : Except (Stop ν) α × Store ν :=
  StateT.run (ExceptT.run run) store

end Run

def Program.run (options : RunOptions) (p : Program ν) : Except (Stop ν) (Store ν) :=
  match Run.outcome (Run.program options p) .initial with
  | (.ok _, store) => .ok store
  | (.error stop, _) => .error stop

end

end Waveform
