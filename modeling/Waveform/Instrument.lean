import Waveform.Number.Double

/-!
# Instruments

The instruments of the prelude, each a function of a note and of a duration in seconds.
-/

namespace Waveform

inductive Instrument
  | trombone | piano | bell | violin | cello
  deriving DecidableEq, Repr

namespace Instrument

def all : List Instrument :=
  [trombone, piano, bell, violin, cello]

def name : Instrument → String
  | trombone => "trombone"
  | piano => "piano"
  | bell => "bell"
  | violin => "violin"
  | cello => "cello"

def play (i : Instrument) (note : Nat) (duration : Float) : String :=
  i.name ++ "(" ++ toString note ++ ", " ++ Double.write .plain duration ++ ")"

end Instrument

end Waveform
