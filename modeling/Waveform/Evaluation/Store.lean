import Waveform.Bindings
import Waveform.Evaluation.Value
import Waveform.Text.Escaped

/-!
# The store of a run

The frames that a run has made, and what it has counted: identities given to pairs and closures,
and random draws. A frame is never removed, so an environment stays valid for the rest of the run.
-/

namespace Waveform

structure Store (ν : Type) where
  frames : Array (Bindings (Value ν))
  /-- How many pairs and closures have been made. -/
  made : Nat
  /-- How many random numbers have been drawn. -/
  draws : Nat

namespace Store

variable {ν : Type}

def empty : Store ν := ⟨#[], 0, 0⟩

instance : Inhabited (Store ν) := ⟨empty⟩

def frame (s : Store ν) (i : Nat) : Bindings (Value ν) :=
  s.frames.getD i .empty

/-- A new frame inside the environment. -/
def extend (s : Store ν) (env : Environment) : Environment × Store ν :=
  (s.frames.size :: env, { s with frames := s.frames.push .empty })

def bind (s : Store ν) (i : Nat) (name : String) (value : Value ν) : Store ν :=
  { s with frames := s.frames.modify i (·.insert name value) }

def define (s : Store ν) (env : Environment) (name : String) (value : Value ν) : Store ν :=
  match env with
  | [] => s
  | i :: _ => s.bind i name value

def lookup? (s : Store ν) (name : String) : Environment → Option (Value ν)
  | [] => none
  | i :: outer =>
    match (s.frame i).find? name with
    | some value => some value
    | none => s.lookup? name outer

def owner? (s : Store ν) (name : String) : Environment → Option Nat
  | [] => none
  | i :: outer => if (s.frame i).contains name then some i else s.owner? name outer

def binds (s : Store ν) (env : Environment) (name : String) : Bool :=
  match env with
  | [] => false
  | i :: _ => (s.frame i).contains name

/-- The names that the innermost frame binds, in alphabetical order. -/
def names (s : Store ν) (env : Environment) : List String :=
  match env with
  | [] => []
  | i :: _ => (s.frame i).names.mergeSort fun a b => decide (a ≤ b)

/-- The innermost frame for display: how deep it lies and what it binds. -/
def describe (s : Store ν) (env : Environment) : String :=
  "<environment depth=" ++ toString (env.length - 1) ++ " names=[" ++
    ", ".intercalate ((s.names env).map escaped) ++ "]>"

def makePair (s : Store ν) (head tail : Value ν) : Value ν × Store ν :=
  (.pair s.made head tail, { s with made := s.made + 1 })

def makeClosure (s : Store ν) (name : Option String) (function : Function ν)
    (env : Environment) : Closure ν × Store ν :=
  (⟨s.made, name, function, env⟩, { s with made := s.made + 1 })

theorem frame_extend (s : Store ν) (env : Environment) (j : Nat) :
    (s.extend env).2.frame j = s.frame j := by
  simp only [extend, frame, Array.getD_eq_getD_getElem?, Array.getElem?_push]
  by_cases hj : j = s.frames.size
  · subst hj
    simp
  · simp [hj]

theorem frame_bind (s : Store ν) (i j : Nat) (name : String) (value : Value ν)
    (h : i < s.frames.size) :
    (s.bind i name value).frame j = if j = i then (s.frame i).insert name value else s.frame j := by
  simp only [bind, frame, Array.getD_eq_getD_getElem?, Array.getElem?_modify]
  by_cases hj : j = i
  · subst hj
    simp [h]
  · have : ¬ i = j := fun e => hj e.symm
    simp [hj, this]

end Store

end Waveform
