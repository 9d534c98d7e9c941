import Waveform.Builtin

/-!
# Options of the specializer
-/

namespace Waveform

structure SpecializationOptions where
  /-- How many calls may be inlined inside each other. -/
  maxInlineDepth : Nat
  /-- How many rounds a loop may be unrolled to. -/
  maxLoopIterations : Nat
  /-- The builtins that specialized functions may call. -/
  residualBuiltins : List Builtin
  /-- The builtins that a name can stand for even where it is not bound. -/
  hardcodedBuiltins : List Builtin
  deriving DecidableEq, Repr

namespace SpecializationOptions

def standard : SpecializationOptions := ⟨256, 65536, Builtin.math, [.length]⟩

/-- Tight limits, which show early what does not come to an end. -/
def tight : SpecializationOptions :=
  { standard with maxInlineDepth := 32, maxLoopIterations := 1024 }

end SpecializationOptions

end Waveform
