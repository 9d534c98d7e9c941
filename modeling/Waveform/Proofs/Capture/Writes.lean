import Waveform.Proofs.Capture.Captured

/-!
# Writes of a closure

The assignments and updates of a function, those in nested functions and in code that never runs
included, each with the nearest binding of its target. A `let` makes a variable. Parameters,
constants and the names of functions are fixed, and what the function does not bind at all lies
outside.

The start value of a loop sees the name that the loop declares. A write to that name in there is
told apart from other writes, since its binding is not there yet when the value is made.
-/

namespace Waveform

variable {ν : Type}

/-- What binds a name where it is written. -/
inductive Nearest
  | mutable
  | fixed
  | outside
  /-- The declaration of a loop, seen from the start value of the loop. -/
  | starting (kind : DeclarationKind)
  deriving DecidableEq, Repr

namespace Nearest

def ofKind : DeclarationKind → Nearest
  | .mutable => mutable
  | .constant => fixed

/-- Whether the name is a variable. -/
def isMutable : Nearest → Bool
  | mutable | starting .mutable => true
  | fixed | outside | starting .constant => false

def isStarting : Nearest → Bool
  | starting _ => true
  | mutable | fixed | outside => false

end Nearest

abbrev Names := String → Nearest

namespace Names

def none : Names := fun _ => .outside

def bind (n : Names) (name : String) (b : Nearest) : Names :=
  fun other => if other = name then b else n other

def bindAll (n : Names) : List String → Names
  | [] => n
  | p :: ps => (n.bind p .fixed).bindAll ps

def after (n : Names) : Statement ν → Names
  | .declaration kind name _ => n.bind name (.ofKind kind)
  | _ => n

def within (n : Names) : List (Statement ν) → Names
  | [] => n
  | .function name _ _ :: rest => (n.bind name .fixed).within rest
  | .declaration kind name _ :: rest => (n.bind name (.ofKind kind)).within rest
  | _ :: rest => n.within rest

theorem bind_bind (n : Names) (name : String) (b b' : Nearest) :
    (n.bind name b).bind name b' = n.bind name b' := by
  funext other
  by_cases hname : other = name <;> simp [bind, hname]

theorem after_of_standsAlone (n : Names) {st : Statement ν} (h : st.standsAlone = true) :
    n.after st = n := by
  cases st with
  | declaration kind name init => cases h
  | _ => rfl

end Names

def LoopStart.names (n : Names) : LoopStart ν → Names
  | .declaration kind name _ => n.bind name (.ofKind kind)
  | .absent | .expression _ => n

mutual

def Expression.writes (n : Names) : Expression ν → List Nearest
  | .literal _ | .builtin _ | .identifier _ => []
  | .array items => Expression.allWrites n items
  | .member object property => object.writes n ++ property.writes n
  | .unary _ argument => argument.writes n
  | .binary _ left right | .logical _ left right => left.writes n ++ right.writes n
  | .conditional test consequent alternate =>
    test.writes n ++ (consequent.writes n ++ alternate.writes n)
  | .call callee arguments => callee.writes n ++ Expression.allWrites n arguments
  | .function params body _ => Statement.allWrites ((n.bindAll params).within body) body
  | .assignment _ target value => n target :: value.writes n
  | .update _ _ target => [n target]

def Expression.allWrites (n : Names) : List (Expression ν) → List Nearest
  | [] => []
  | e :: es => e.writes n ++ Expression.allWrites n es

def Expression.optionWrites (n : Names) : Option (Expression ν) → List Nearest
  | none => []
  | some e => e.writes n

def Statement.writes (n : Names) : Statement ν → List Nearest
  | .block body => Statement.allWrites (n.within body) body
  | .expression e => e.writes n
  | .result value => Expression.optionWrites n value
  | .branch test consequent alternate =>
    test.writes n ++ (consequent.writes n ++ Statement.optionWrites n alternate)
  | .loop start test update body =>
    start.writes n ++ (Expression.optionWrites (start.names n) test ++
      (Expression.optionWrites (start.names n) update ++ body.writes (start.names n)))
  | .declaration _ _ init => Expression.optionWrites n init
  | .function _ params body => Statement.allWrites ((n.bindAll params).within body) body

def Statement.allWrites (n : Names) : List (Statement ν) → List Nearest
  | [] => []
  | st :: rest => st.writes n ++ Statement.allWrites (n.after st) rest

def Statement.optionWrites (n : Names) : Option (Statement ν) → List Nearest
  | none => []
  | some st => st.writes n

def LoopStart.writes (n : Names) : LoopStart ν → List Nearest
  | .absent => []
  | .declaration kind name init => Expression.optionWrites (n.bind name (.starting kind)) init
  | .expression e => e.writes n

end

def Function.writes (f : Function ν) : List Nearest :=
  Statement.allWrites ((Names.none.bindAll f.params).within f.body) f.body

/-! ## Placed declarations -/

mutual

/-- Whether every declaration in the expression stands in a block or starts a loop. -/
def Expression.isPlaced : Expression ν → Bool
  | .literal _ | .builtin _ | .identifier _ | .update _ _ _ => true
  | .array items => Expression.allPlaced items
  | .member object property => object.isPlaced && property.isPlaced
  | .unary _ argument => argument.isPlaced
  | .binary _ left right | .logical _ left right => left.isPlaced && right.isPlaced
  | .conditional test consequent alternate =>
    test.isPlaced && (consequent.isPlaced && alternate.isPlaced)
  | .call callee arguments => callee.isPlaced && Expression.allPlaced arguments
  | .function _ body _ => Statement.allPlaced body
  | .assignment _ _ value => value.isPlaced

def Expression.allPlaced : List (Expression ν) → Bool
  | [] => true
  | e :: es => e.isPlaced && Expression.allPlaced es

def Expression.optionPlaced : Option (Expression ν) → Bool
  | none => true
  | some e => e.isPlaced

def Statement.isPlaced : Statement ν → Bool
  | .block body => Statement.allPlaced body
  | .expression e => e.isPlaced
  | .result value => Expression.optionPlaced value
  | .branch test consequent alternate =>
    test.isPlaced && (consequent.standsAlone && consequent.isPlaced &&
      Statement.optionPlaced alternate)
  | .loop start test update body =>
    start.isPlaced && (Expression.optionPlaced test && (Expression.optionPlaced update &&
      (body.standsAlone && body.isPlaced)))
  | .declaration _ _ init => Expression.optionPlaced init
  | .function _ _ body => Statement.allPlaced body

def Statement.allPlaced : List (Statement ν) → Bool
  | [] => true
  | st :: rest => st.isPlaced && Statement.allPlaced rest

def Statement.optionPlaced : Option (Statement ν) → Bool
  | none => true
  | some st => st.standsAlone && st.isPlaced

def LoopStart.isPlaced : LoopStart ν → Bool
  | .absent => true
  | .declaration _ _ init => Expression.optionPlaced init
  | .expression e => e.isPlaced

end

end Waveform
