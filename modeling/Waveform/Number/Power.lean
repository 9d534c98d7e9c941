/-!
# Powers

Powers of the two bases that numbers are held and written in.
-/

namespace Waveform

def pow2 (k : Nat) : Nat := Nat.pow 2 k

def pow10 (k : Nat) : Nat := Nat.pow 10 k

end Waveform
