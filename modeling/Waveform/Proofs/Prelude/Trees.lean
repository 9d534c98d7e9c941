import Waveform.Syntax.Program

/-!
# Trees of the prelude

The functions of the prelude that pairs, lists and sounds are put together with, as trees. The
numbers that they mention are given by their values.
-/

namespace Waveform

namespace Prelude

variable {ν : Type} (number : Nat → ν)

def pair : Function ν :=
  ⟨["x", "xs"], [.result (some (.array [.identifier "x", .identifier "xs"]))]⟩

def head : Function ν :=
  ⟨["xs"], [.result (some (.member (.identifier "xs") (.number (number 0))))]⟩

def tail : Function ν :=
  ⟨["xs"], [.result (some (.member (.identifier "xs") (.number (number 1))))]⟩

def isNull : Function ν :=
  ⟨["xs"], [.result (some (.binary .strictEqual (.identifier "xs") .null))]⟩

def accumulate : Function ν :=
  ⟨["op", "initial", "sequence"],
    [.branch (.call (.identifier "is_null") [.identifier "sequence"])
      (.block [.result (some (.identifier "initial"))])
      (some (.block [.result (some (.call (.identifier "op")
        [.call (.identifier "head") [.identifier "sequence"],
          .call (.identifier "accumulate") [.identifier "op", .identifier "initial",
            .call (.identifier "tail") [.identifier "sequence"]]]))]))]⟩

/-- The wave that a sound of the given duration has, which is silent at its end. -/
def endingWave : Expression ν :=
  .function ["t"] [.result (some (.conditional
    (.binary .greaterThanOrEqual (.identifier "t") (.identifier "duration"))
    (.number (number 0))
    (.call (.identifier "wave") [.identifier "t"])))] none

def makeSound : Function ν :=
  ⟨["wave", "duration"],
    [.result (some (.call (.identifier "pair") [endingWave number, .identifier "duration"]))]⟩

def silenceSound : Function ν :=
  ⟨["duration"],
    [.result (some (.call (.identifier "make_sound")
      [.function ["t"] [.result (some (.number (number 0)))] none, .identifier "duration"]))]⟩

def partsOfTwo : List (Statement ν) :=
  [.declaration .constant "wave1" (some (.call (.identifier "head") [.identifier "ss1"])),
    .declaration .constant "wave2" (some (.call (.identifier "head") [.identifier "ss2"])),
    .declaration .constant "dur1" (some (.call (.identifier "tail") [.identifier "ss1"])),
    .declaration .constant "dur2" (some (.call (.identifier "tail") [.identifier "ss2"]))]

def consecTwo : Function ν :=
  ⟨["ss1", "ss2"], partsOfTwo ++
    [.declaration .constant "new_wave" (some (.function ["t"] [.result (some (.conditional
      (.binary .lessThan (.identifier "t") (.identifier "dur1"))
      (.call (.identifier "wave1") [.identifier "t"])
      (.call (.identifier "wave2")
        [.binary .subtract (.identifier "t") (.identifier "dur1")])))] none)),
    .result (some (.call (.identifier "pair") [.identifier "new_wave",
      .binary .add (.identifier "dur1") (.identifier "dur2")]))]⟩

def consecutively : Function ν :=
  ⟨["list_of_sounds"],
    [.function "consec_two" ["ss1", "ss2"] (consecTwo : Function ν).body,
      .result (some (.call (.identifier "accumulate") [.identifier "consec_two",
        .call (.identifier "silence_sound") [.number (number 0)], .identifier "list_of_sounds"]))]⟩

def musher : Function ν :=
  ⟨["ss1", "ss2"], partsOfTwo ++
    [.declaration .constant "new_wave" (some (.function ["t"] [.result (some (.binary .add
      (.call (.identifier "wave1") [.identifier "t"])
      (.call (.identifier "wave2") [.identifier "t"])))] none)),
    .declaration .constant "new_dur" (some (.conditional
      (.binary .lessThan (.identifier "dur1") (.identifier "dur2"))
      (.identifier "dur2") (.identifier "dur1"))),
    .result (some (.call (.identifier "pair") [.identifier "new_wave", .identifier "new_dur"]))]⟩

/-- The names that `simultaneously` binds after it has put the sounds together. -/
def lateNames : List String :=
  ["mushed_sounds", "normalised_wave", "highest_duration"]

def simultaneously : Function ν :=
  ⟨["list_of_sounds"],
    [.function "musher" ["ss1", "ss2"] (musher : Function ν).body,
      .declaration .constant "mushed_sounds" (some (.call (.identifier "accumulate")
        [.identifier "musher", .call (.identifier "silence_sound") [.number (number 0)],
          .identifier "list_of_sounds"])),
      .declaration .constant "normalised_wave" (some (.function ["t"]
        [.result (some (.binary .divide
          (.call (.call (.identifier "head") [.identifier "mushed_sounds"]) [.identifier "t"])
          (.call (.identifier "length") [.identifier "list_of_sounds"])))] none)),
      .declaration .constant "highest_duration"
        (some (.call (.identifier "tail") [.identifier "mushed_sounds"])),
      .result (some (.call (.identifier "pair")
        [.identifier "normalised_wave", .identifier "highest_duration"]))]⟩

def functions : List (String × Function ν) :=
  [("pair", pair), ("head", head number), ("tail", tail number), ("is_null", isNull),
    ("accumulate", accumulate), ("make_sound", makeSound number),
    ("silence_sound", silenceSound number), ("consecutively", consecutively number),
    ("simultaneously", simultaneously number)]

end Prelude

end Waveform
