/-!
# Names of closures

The names that specialized closures go by. A closure keeps the name that it is first given, and a
name that is taken gets a number appended that makes it free.
-/

namespace Waveform

structure ClosureNames where
  /-- Closures, by their identity, with their names. -/
  assigned : List (Nat × String)
  taken : List String
  /-- The names that something refers to. -/
  referenced : List String

namespace ClosureNames

def empty : ClosureNames := ⟨[], [], []⟩

def name? (names : ClosureNames) (closure : Nat) : Option String :=
  names.assigned.lookup closure

def isTaken (names : ClosureNames) (name : String) : Bool :=
  names.taken.contains name

def isReferenced (names : ClosureNames) (name : String) : Bool :=
  names.referenced.contains name

/-- Gives a closure a name, whatever it was called before. -/
def register (names : ClosureNames) (closure : Nat) (name : String) : ClosureNames :=
  { names with
    assigned := (closure, name) :: names.assigned
    taken := name :: names.taken }

def numbered (candidate : String) (number : Nat) : String :=
  if number == 0 then candidate else candidate ++ "_" ++ toString number

/-- The first of the numbered candidates that is not taken, looking at no more than the given count
of taken ones. -/
def firstFree (taken : List String) (candidate : String) : Nat → Nat → String
  | 0, number => numbered candidate number
  | tries + 1, number =>
    if taken.contains (numbered candidate number) then
      firstFree taken candidate tries (number + 1)
    else numbered candidate number

/-- A name that is not taken. There are as many tries as taken names, so the last cannot fail. -/
def freeName (names : ClosureNames) (candidate : String) : String :=
  firstFree names.taken candidate names.taken.length 0

def refer (names : ClosureNames) (name : String) : ClosureNames :=
  { names with referenced := name :: names.referenced }

/-- The name of a closure that is referred to, and whether it is new. -/
def resolve (names : ClosureNames) (closure : Nat) (candidate : String) :
    (String × Bool) × ClosureNames :=
  match names.name? closure with
  | some name => ((name, false), names.refer name)
  | none =>
    let name := names.freeName candidate
    ((name, true), (names.register closure name).refer name)

theorem name?_register (names : ClosureNames) (closure other : Nat) (name : String) :
    (names.register closure name).name? other =
      if other = closure then some name else names.name? other := by
  by_cases h : other = closure
  · simp [register, name?, h]
  · have : (other == closure) = false := beq_eq_false_iff_ne.2 h
    simp [register, name?, List.lookup_cons, h, this]

theorem name?_resolve (names : ClosureNames) (closure : Nat) (candidate : String) :
    (names.resolve closure candidate).2.name? closure =
      some (names.resolve closure candidate).1.1 := by
  unfold resolve
  split
  · next h => simpa [refer, name?] using h
  · simp [refer, register, name?]

end ClosureNames

end Waveform
