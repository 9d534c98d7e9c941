import Waveform.Proofs.Evaluation.Outcome

/-!
# Disciplined runs

Programs may do things that a reader of a program would not expect, such as adding a function to a
number, and theorems about runs often hold for runs that keep away from some of them. A
`Discipline` says which operations are allowed on which values. A tree obeys it from a store when
every operation that is performed while the tree runs from there is allowed: `Expression.Obeys`
and `Statement.Obeys` follow the evaluator along the one path that the run takes, and
`Run.callObeys` follows it into the functions that are called. A strict discipline also watches
the right side of a logical operator whose left side has decided already, unless the right side is
a truth value by its form.
-/

namespace Waveform

variable {ν : Type}

def Statement.declaredNames : List (Statement ν) → List String
  | [] => []
  | .declaration _ name _ :: rest | .function name _ _ :: rest => name :: declaredNames rest
  | _ :: rest => declaredNames rest

def Statement.declaresFunction : List (Statement ν) → Bool
  | [] => false
  | .function _ _ _ :: _ => true
  | _ :: rest => declaresFunction rest

def LoopStart.declaredNames : LoopStart ν → List String
  | .declaration _ name _ => [name]
  | _ => []

/-- Whether the statement binds a variable or a constant in the frame that it stands in. -/
def Statement.isDeclaration : Statement ν → Bool
  | .declaration _ _ _ => true
  | _ => false

def Statement.isFunction : Statement ν → Bool
  | .function _ _ _ => true
  | _ => false

def BinaryOperator.isComparison : BinaryOperator → Bool
  | .strictEqual | .strictNotEqual | .equal | .notEqual => true
  | .lessThan | .lessThanOrEqual | .greaterThan | .greaterThanOrEqual => true
  | _ => false

/-- Whether the expression is a truth value by its form, whatever its names stand for. -/
def Expression.isBoolean : Expression ν → Bool
  | .literal (.boolean _) => true
  | .unary op _ => op == .not
  | .binary op _ _ => op.isComparison
  | .logical _ left right => left.isBoolean && right.isBoolean
  | .conditional _ consequent alternate => consequent.isBoolean && alternate.isBoolean
  | _ => false

/-- What a run is allowed to do. -/
structure Discipline (ν : Type) where
  /-- Both sides of a logical operator are watched, and nothing may fail. -/
  strict : Prop
  /-- Reading or writing a name. -/
  name : Store ν → Environment → String → Prop
  /-- Making a function. -/
  function : Prop
  unary : UnaryOperator → Value ν → Prop
  binary : BinaryOperator → Value ν → Value ν → Prop
  /-- Testing a value in a choice or on the left of a logical operator. -/
  test : Value ν → Prop
  /-- Taking a value from the right of a logical operator. -/
  right : Value ν → Prop
  /-- Standing unwatched on the right of a logical operator whose left side has decided. -/
  unrun : Environment → Expression ν → Store ν → Prop := fun _ _ _ => False
  /-- Taking a value from a side of a choice. -/
  chosen : Value ν → Prop
  /-- Asking a value for a property, which is written as a number or computed. -/
  member : (written : Bool) → Value ν → Value ν → Prop
  builtin : Builtin → List (Value ν) → Prop
  /-- Counting a variable up or down from a value. -/
  update : Value ν → Prop
  /-- Testing a value in a branch. -/
  branch : Value ν → Prop
  /-- Returning a value. -/
  result : Value ν → Prop
  /-- Standing as a side of a branch or as the body of a loop. -/
  alone : Statement ν → Prop
  loop : LoopStart ν → Prop
  /-- Opening the frame of the given number for the given names. -/
  frame : Nat → List String → Prop

namespace Discipline

/-- Everything is allowed. -/
def free : Discipline ν where
  strict := False
  name _ _ _ := True
  function := True
  unary _ _ := True
  binary _ _ _ := True
  test _ := True
  right _ := True
  chosen _ := True
  member _ _ _ := True
  builtin _ _ := True
  update _ := True
  branch _ := True
  result _ := True
  alone _ := True
  loop _ := True
  frame _ _ := True

/-- The statements may open a frame inside the environment, and what runs in it has the
property. -/
def Enters (d : Discipline ν) (env : Environment) (body : List (Statement ν)) (s : Store ν)
    (inside : Environment → Store ν → Prop) : Prop :=
  d.frame s.frames.size (Statement.declaredNames body) ∧
    (Statement.declaresFunction body = true → d.function) ∧ (Run.enter env body).After s inside

end Discipline

abbrev CallCheck (ν : Type) := Value ν → List (Value ν) → Store ν → Prop

section

variable [Numeric ν] (d : Discipline ν) (call : Caller ν) (follows : CallCheck ν)

mutual

/-- Whether evaluating the expression from the store stays within the discipline. -/
def Expression.Obeys (env : Environment) : Expression ν → Store ν → Prop
  | .literal _, _ | .builtin _, _ => True
  | .identifier name, s => d.name s env name
  | .array [head, tail], s =>
    head.Obeys env s ∧ (head.evaluate call env).After s fun _ s => tail.Obeys env s
  | .array _, _ => ¬ d.strict
  | .member object property, s =>
    object.Obeys env s ∧ (object.evaluate call env).After s fun o s =>
      property.Obeys env s ∧ (property.evaluate call env).After s fun p _ =>
        d.member property.asNumber?.isSome o p
  | .unary op argument, s =>
    argument.Obeys env s ∧ (argument.evaluate call env).After s fun v _ => d.unary op v
  | .binary op left right, s =>
    left.Obeys env s ∧ (left.evaluate call env).After s fun a s =>
      right.Obeys env s ∧ (right.evaluate call env).After s fun b _ => d.binary op a b
  | .logical op left right, s =>
    left.Obeys env s ∧ (left.evaluate call env).After s fun a s =>
      d.test a ∧ (op.decides a.isTruthy = false ∨
          (d.strict ∧ right.isBoolean = false ∧ ¬ d.unrun env right s) →
        right.Obeys env s ∧ (right.evaluate call env).After s fun b _ => d.right b)
  | .conditional test consequent alternate, s =>
    test.Obeys env s ∧ (test.evaluate call env).After s fun a s =>
      d.test a ∧
        (a.isTruthy = true → consequent.Obeys env s ∧
          (consequent.evaluate call env).After s fun b _ => d.chosen b) ∧
        (a.isTruthy = false → alternate.Obeys env s ∧
          (alternate.evaluate call env).After s fun b _ => d.chosen b)
  | .call callee arguments, s =>
    callee.Obeys env s ∧ (callee.evaluate call env).After s fun f s =>
      Expression.allObey env arguments s ∧
        (Expression.evaluateAll call env arguments).After s fun args s => follows f args s
  | .function _ _ _, _ => d.function
  | .assignment op target value, s =>
    value.Obeys env s ∧ (value.evaluate call env).After s fun v s =>
      d.name s env target ∧ ∀ o current, op.binaryOperator? = some o →
        s.lookup? target env = some current → d.binary o current v
  | .update _ _ target, s =>
    d.name s env target ∧ ∀ current, s.lookup? target env = some current → d.update current

def Expression.allObey (env : Environment) : List (Expression ν) → Store ν → Prop
  | [], _ => True
  | e :: es, s =>
    e.Obeys env s ∧ (e.evaluate call env).After s fun _ s => Expression.allObey env es s

end

def Expression.optionObeys (env : Environment) : Option (Expression ν) → Store ν → Prop
  | none, _ => True
  | some e, s => e.Obeys d call follows env s

/-- A function that is declared by a name is made without evaluating anything. -/
def Expression.initObeys (env : Environment) : Option (Expression ν) → Store ν → Prop
  | none, _ => True
  | some (.function _ _ _), _ => d.function
  | some e, s => e.Obeys d call follows env s

def LoopStart.Obeys (env : Environment) : LoopStart ν → Store ν → Prop
  | .absent, _ => True
  | .declaration _ _ init, s => Expression.initObeys d call follows env init s
  | .expression e, s => e.Obeys d call follows env s

/-- Whether the rounds of a loop obey, given whether its test and its body do. -/
def Run.roundsObey (test : Run ν Bool) (body : Run ν (Completion ν))
    (testObeys bodyObeys : Store ν → Prop) : Nat → Store ν → Prop
  | 0, _ => True
  | patience + 1, s =>
    testObeys s ∧ test.After s fun holds s =>
      holds = true → bodyObeys s ∧ body.After s fun c s =>
        c = .normal → roundsObey test body testObeys bodyObeys patience s

mutual

/-- Whether running the statement from the store stays within the discipline. -/
def Statement.Obeys (patience : Nat) (env : Environment) : Statement ν → Store ν → Prop
  | .block body, s =>
    d.Enters env body s fun inner s => Statement.allObey patience inner body s
  | .expression e, s => e.Obeys d call follows env s
  | .result none, _ => True
  | .result (some e), s =>
    e.Obeys d call follows env s ∧ (e.evaluate call env).After s fun v _ => d.result v
  | .branch test consequent alternate, s =>
    d.alone consequent ∧ (∀ a ∈ alternate, d.alone a) ∧ test.Obeys d call follows env s ∧
      (test.evaluate call env).After s fun v s =>
        d.branch v ∧
          (v.isTruthy = true →
            d.Enters env [consequent] s fun inner s => consequent.Obeys patience inner s) ∧
          (v.isTruthy = false →
            match alternate with
            | none => True
            | some a => d.Enters env [a] s fun inner s => a.Obeys patience inner s)
  | .loop start test update body, s =>
    d.alone body ∧ d.loop start ∧ d.frame s.frames.size start.declaredNames ∧
      (Run.extend env).After s fun scope s =>
        start.Obeys d call follows scope s ∧ (start.run call scope).After s fun copied s =>
          let inside (iteration : Environment) (s : Store ν) : Prop :=
            d.Enters iteration [body] s fun inner s => body.Obeys patience inner s
          let run (iteration : Environment) : Run ν (Completion ν) := do
            let inner ← Run.enter iteration [body]
            body.execute patience call inner
          Run.roundsObey (Run.holds call scope test) (Run.round call scope copied update run)
            (Expression.optionObeys d call follows scope test)
            (fun s => d.frame s.frames.size copied.toList ∧
              (Run.extend scope).After s fun iteration s =>
                (Run.copyIn scope iteration copied).After s fun _ s =>
                  inside iteration s ∧ (run iteration).After s fun c s =>
                    c = .normal → (Run.copyOut iteration scope copied).After s fun _ s =>
                      Expression.optionObeys d call follows scope update s)
            patience s
  | .declaration _ _ init, s => Expression.initObeys d call follows env init s
  | .function _ _ _, _ => True

def Statement.allObey (patience : Nat) (env : Environment) : List (Statement ν) → Store ν → Prop
  | [], _ => True
  | st :: rest, s =>
    st.Obeys patience env s ∧ (st.execute patience call env).After s fun c s =>
      c = .normal → Statement.allObey patience env rest s

end

end

theorem Run.outcome_enter {ν : Type} {st : Statement ν} (h : st.isFunction = false)
    (env : Environment) (s : Store ν) :
    (Run.enter env [st]).outcome s = (.ok (s.frames.size :: env), (s.extend env).2) := by
  cases st <;> first | rfl | cases h

/-! ## Declared values -/

section

variable [Numeric ν] {call : Caller ν} {follows : CallCheck ν}

theorem Run.declare_expression {e : Expression ν}
    (he : ∀ params body home, e ≠ .function params body home) (env : Environment)
    (name : String) :
    Run.declare call env name (some e) =
      (do let v ← e.evaluate call env; Run.define env name v) := by
  cases e with
  | function params body home => exact absurd rfl (he params body home)
  | _ => rfl

theorem Expression.initObeys_expression {d : Discipline ν} {e : Expression ν}
    (he : ∀ params body home, e ≠ .function params body home) {env : Environment} {s : Store ν}
    (h : Expression.initObeys d call follows env (some e) s) : e.Obeys d call follows env s := by
  cases e with
  | function params body home => exact absurd rfl (he params body home)
  | _ => exact h

end

/-- Whether running the body of a closure stays within the discipline. -/
def Run.bodyObeys [Numeric ν] (d : Discipline ν) (call : Caller ν) (follows : CallCheck ν)
    (patience : Nat) (c : Closure ν) (args : List (Value ν)) (s : Store ν) : Prop :=
  d.frame s.frames.size (c.function.params ++ Statement.declaredNames c.function.body) ∧
    (Statement.declaresFunction c.function.body = true → d.function) ∧
      (Run.extend c.environment).After s fun env s =>
        (Run.defineParams env c.function.params args).After s fun _ s =>
          (Statement.hoist env c.function.body).After s fun _ s =>
            Statement.allObey d call follows patience env c.function.body s

/-- Whether a call stays within the discipline, the calls that it makes itself included. -/
def Run.callObeys [Numeric ν] (d : Discipline ν) (limit : Option Nat) :
    (patience depth : Nat) → CallCheck ν
  | 0, _, _, _, _ => True
  | patience + 1, depth, target, args, s =>
    match target with
    | .closure c =>
      limit.any (· ≤ depth) = false →
        Run.bodyObeys d (Run.call limit patience (depth + 1))
          (Run.callObeys d limit patience (depth + 1)) patience c args s
    | .builtin b => d.builtin b args
    | _ => True

end Waveform
