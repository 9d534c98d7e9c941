import Waveform.Bindings
import Waveform.Specialize.Error

/-!
# Scopes

The frames that the specializer keeps track of names in. Frames are numbered in the order in which
they are made and never removed, so a frame made later has the greater number. Each knows the
frames around it, the nearest first, and these are older than the frame itself.
-/

namespace Waveform

namespace Scope

inductive Kind
  /-- The closure that is specialized. Nothing outside it may be written. -/
  | closure
  | function
  | block
  | loop
  /-- The parameters of a call that is replaced by its value. -/
  | substitute
  deriving DecidableEq, Repr

/-- The letter of the kind in the path of a frame. -/
def Kind.letter : Kind → String
  | closure => "C"
  | function => "F"
  | block => "B"
  | loop => "L"
  | substitute => "S"

inductive Binding (ν : Type)
  /-- The name stays a name. -/
  | parameter
  /-- A variable with its current value. -/
  | mutable (value : Expression ν)
  /-- The name stands for its value wherever it occurs. -/
  | constant (value : Expression ν)
  /-- A builtin that the name stands for because nothing binds it. -/
  | hardcoded (value : Expression ν)

end Scope

structure Scope (ν : Type) where
  kind : Scope.Kind
  /-- Spells out where the frame lies, differently for every frame. -/
  path : String
  bindings : Bindings (Scope.Binding ν)
  /-- The numbers of the frames around it, the nearest first. -/
  outer : List Nat

structure Scopes (ν : Type) where
  frames : Array (Scope ν)
  hardcoded : List Builtin

namespace Scopes

variable {ν : Type}

def empty (hardcoded : List Builtin) : Scopes ν := ⟨#[], hardcoded⟩

def size (s : Scopes ν) : Nat := s.frames.size

def frame (s : Scopes ν) (i : Nat) : Scope ν :=
  s.frames.getD i ⟨.block, "", .empty, []⟩

def parent? (s : Scopes ν) (i : Nat) : Option Nat :=
  (s.frame i).outer.head?

/-- A frame with nothing around it. -/
def root (s : Scopes ν) (kind : Scope.Kind) (path : String) : Nat × Scopes ν :=
  (s.size, { s with frames := s.frames.push ⟨kind, path, .empty, []⟩ })

def child (s : Scopes ν) (i : Nat) (kind : Scope.Kind) : Nat × Scopes ν :=
  let around := s.frame i
  let path := around.path ++ kind.letter ++ toString s.size
  (s.size, { s with frames := s.frames.push ⟨kind, path, .empty, i :: around.outer⟩ })

def define (s : Scopes ν) (i : Nat) (name : String) (binding : Scope.Binding ν) : Scopes ν :=
  { s with
    frames := s.frames.modify i fun f => { f with bindings := f.bindings.insert name binding } }

def findIn? (s : Scopes ν) (name : String) : List Nat → Option (Nat × Scope.Binding ν)
  | [] => none
  | i :: outer =>
    match (s.frame i).bindings.find? name with
    | some binding => some (i, binding)
    | none => s.findIn? name outer

/-- What a name means where it is read: what the nearest frame binds it to, or else the hardcoded
builtin of that name. -/
def lookup? (s : Scopes ν) (i : Nat) (name : String) : Option (Nat × Scope.Binding ν) :=
  match s.findIn? name (i :: (s.frame i).outer) with
  | some found => some found
  | none =>
    (s.hardcoded.find? (·.globalName == name)).map fun b => (i, .hardcoded (.builtin b))

/-- The first of the frames that binds the name, up to the first one of a closure. -/
def findForWriteIn? (s : Scopes ν) (name : String) :
    List Nat → Except (SpecializationError ν) (Option (Nat × Scope.Binding ν))
  | [] => pure none
  | i :: outer =>
    match (s.frame i).bindings.find? name with
    | some binding => pure (some (i, binding))
    | none =>
      if (s.frame i).kind == .closure then throw (.impure name)
      else s.findForWriteIn? name outer

/-- What a name means where it is written. Leaving a closure is an error. -/
def lookupForWrite? (s : Scopes ν) (i : Nat) (name : String) :
    Except (SpecializationError ν) (Option (Nat × Scope.Binding ν)) :=
  s.findForWriteIn? name (i :: (s.frame i).outer)

def assign (s : Scopes ν) (i : Nat) (name : String) (value : Expression ν) :
    Except (SpecializationError ν) (Scopes ν) :=
  match (s.frame i).bindings.find? name with
  | some (.mutable _) => pure (s.define i name (.mutable value))
  | some _ => throw (.impure name)
  | none => throw (.undeclaredTarget name)

/-- A name that spells out the frame, for something that goes by the given name there. -/
def freshName (s : Scopes ν) (i : Nat) (name : String) : String :=
  "$" ++ (s.frame i).path ++ "_" ++ name

@[simp] theorem size_define (s : Scopes ν) (i : Nat) (name : String) (b : Scope.Binding ν) :
    (s.define i name b).size = s.size := by
  simp [define, size]

@[simp] theorem size_child (s : Scopes ν) (i : Nat) (kind : Scope.Kind) :
    (s.child i kind).2.size = s.size + 1 := by
  simp [child, size]

theorem frame_child_of_lt (s : Scopes ν) (i j : Nat) (kind : Scope.Kind) (h : j < s.size) :
    (s.child i kind).2.frame j = s.frame j := by
  simp only [child, frame, Array.getD_eq_getD_getElem?, Array.getElem?_push]
  have : ¬ j = s.frames.size := by
    unfold size at h
    omega
  simp [this]

end Scopes

end Waveform
