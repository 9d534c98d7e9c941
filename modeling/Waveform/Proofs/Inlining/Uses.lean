import Waveform.Proofs.Simplification.Measures

/-!
# Draws and reads

How often an expression draws a random number, and how often it reads each name, functions inside it
included. Both are counts of its nodes. A step of simplification leaves operands out and moves them
about, but makes none, so neither count grows.
-/

namespace Waveform

variable {ν : Type}

/-- What a node of a program may use by itself: a random draw, or the value of a name. -/
inductive Use
  | draw
  | read (name : String)
  deriving DecidableEq

namespace Use

/-- A call of the random function draws. A compound assignment reads the name that it writes. -/
def ofNode? : Expression ν ⊕ Statement ν → Option Use
  | .inl (.call (.builtin .random) _) => some .draw
  | .inl (.identifier name) | .inl (.update _ _ name) => some (.read name)
  | .inl (.assignment op name _) => op.binaryOperator?.map fun _ => .read name
  | _ => none

def count (u : Use) (nodes : List (Expression ν ⊕ Statement ν)) : ℕ :=
  nodes.countP fun n => ofNode? n = some u

variable {u : Use}

@[simp] theorem count_append (a b : List (Expression ν ⊕ Statement ν)) :
    u.count (a ++ b) = u.count a + u.count b :=
  List.countP_append

theorem count_cons (n : Expression ν ⊕ Statement ν) (nodes : List (Expression ν ⊕ Statement ν)) :
    u.count (n :: nodes) = (if ofNode? n = some u then 1 else 0) + u.count nodes := by
  rw [count, List.countP_cons, add_comm]
  simp only [decide_eq_true_eq]
  rfl

end Use

def Expression.uses (e : Expression ν) (u : Use) : ℕ :=
  u.count e.parts

def Expression.usesAll (es : List (Expression ν)) (u : Use) : ℕ :=
  u.count (Expression.partsAll es)

def Expression.usesOption (e : Option (Expression ν)) (u : Use) : ℕ :=
  u.count (Expression.partsOption e)

def Statement.usesAll (body : List (Statement ν)) (u : Use) : ℕ :=
  u.count (Statement.partsAll body)

def Statement.uses (s : Statement ν) (u : Use) : ℕ :=
  u.count s.parts

def Statement.usesOption (s : Option (Statement ν)) (u : Use) : ℕ :=
  u.count (Statement.partsOption s)

def Expression.draws (e : Expression ν) : ℕ :=
  e.uses .draw

def Statement.drawsAll (body : List (Statement ν)) : ℕ :=
  Statement.usesAll body .draw

def Expression.drawnBy (callee : Expression ν) (u : Use) : ℕ :=
  match callee with
  | .builtin .random => if u = .draw then 1 else 0
  | _ => 0

namespace Expression

variable {u : Use}

@[simp] theorem uses_literal (l : Literal ν) : (literal l).uses u = 0 := rfl

@[simp] theorem uses_builtin (b : Builtin) : (builtin b : Expression ν).uses u = 0 := rfl

@[simp] theorem uses_identifier (name : String) :
    (identifier name : Expression ν).uses u = if u = .read name then 1 else 0 := by
  rw [uses, parts, Use.count_cons]
  simp [Use.ofNode?, Use.count, eq_comm]

@[simp] theorem uses_update (op : UpdateOperator) (isBefore : Bool) (name : String) :
    (update op isBefore name : Expression ν).uses u = if u = .read name then 1 else 0 := by
  rw [uses, parts, Use.count_cons]
  simp [Use.ofNode?, Use.count, eq_comm]

@[simp] theorem usesAll_nil : usesAll ([] : List (Expression ν)) u = 0 := rfl

@[simp] theorem usesAll_cons (e : Expression ν) (es : List (Expression ν)) :
    usesAll (e :: es) u = e.uses u + usesAll es u := by
  simp [usesAll, uses, partsAll]

@[simp] theorem uses_member (object property : Expression ν) :
    (member object property).uses u = object.uses u + property.uses u :=
  Use.count_append ..

@[simp] theorem uses_unary (op : UnaryOperator) (a : Expression ν) :
    (unary op a).uses u = a.uses u := rfl

@[simp] theorem uses_binary (op : BinaryOperator) (a b : Expression ν) :
    (binary op a b).uses u = a.uses u + b.uses u :=
  Use.count_append ..

@[simp] theorem uses_logical (op : LogicalOperator) (a b : Expression ν) :
    (logical op a b).uses u = a.uses u + b.uses u :=
  Use.count_append ..

@[simp] theorem uses_conditional (a b c : Expression ν) :
    (conditional a b c).uses u = a.uses u + b.uses u + c.uses u := by
  change u.count (a.parts ++ b.parts ++ c.parts) = _
  rw [Use.count_append, Use.count_append]
  rfl

@[simp] theorem uses_function (params : List String) (body : List (Statement ν))
    (home : Option Nat) : (function params body home).uses u = Statement.usesAll body u := rfl

@[simp] theorem uses_call (callee : Expression ν) (arguments : List (Expression ν)) :
    (call callee arguments).uses u =
      callee.drawnBy u + callee.uses u + usesAll arguments u := by
  have hnode : (if Use.ofNode? (.inl (.call callee arguments)) = some u then 1 else 0) =
      callee.drawnBy u := by
    cases callee with
    | builtin b => cases b <;> simp [Use.ofNode?, drawnBy, eq_comm]
    | _ => simp [Use.ofNode?, drawnBy]
  rw [uses, parts, Use.count_cons, Use.count_append, add_assoc, hnode]
  rfl

@[simp] theorem uses_assignment (op : AssignmentOperator) (name : String) (value : Expression ν) :
    (assignment op name value).uses u =
      (if op.binaryOperator?.isSome ∧ u = .read name then 1 else 0) + value.uses u := by
  rw [uses, parts, Use.count_cons]
  congr 1
  cases op <;> simp [Use.ofNode?, AssignmentOperator.binaryOperator?, eq_comm]

end Expression

namespace Statement

variable {u : Use}

@[simp] theorem usesAll_nil : usesAll ([] : List (Statement ν)) u = 0 := rfl

@[simp] theorem usesAll_cons (s : Statement ν) (body : List (Statement ν)) :
    usesAll (s :: body) u = s.uses u + usesAll body u :=
  Use.count_append ..

@[simp] theorem uses_branch (test : Expression ν) (consequent : Statement ν)
    (alternate : Option (Statement ν)) :
    (branch test consequent alternate).uses u =
      test.uses u + consequent.uses u + usesOption alternate u := by
  change u.count (test.parts ++ consequent.parts ++ partsOption alternate) = _
  rw [Use.count_append, Use.count_append]
  rfl

@[simp] theorem uses_function (name : String) (params : List String) (body : List (Statement ν)) :
    (function name params body).uses u = usesAll body u := rfl

end Statement

/-! ## Simplification -/

section

variable [Numeric ν] {e e' : Expression ν}

theorem Simplify.Step.uses_le (h : Step e e') (u : Use) : e'.uses u ≤ e.uses u := by
  induction h with
  | addAssign target value =>
    simp [AssignmentOperator.binaryOperator?]
  | increment target x hx =>
    simp [AssignmentOperator.binaryOperator?, Expression.number]
  | _ =>
    simp only [Expression.uses_literal, Expression.uses_unary, Expression.uses_binary,
      Expression.uses_logical, Expression.uses_conditional] at *
    omega

theorem Simplify.Steps.uses_le (h : Steps e e') (u : Use) : e'.uses u ≤ e.uses u := by
  induction h with
  | refl => exact le_rfl
  | tail _ hstep ih => exact (hstep.uses_le u).trans ih

/-- Simplification makes no use of anything that was not made before. -/
theorem Expression.uses_simplify_le (e : Expression ν) (u : Use) :
    e.simplify.uses u ≤ e.uses u :=
  (Simplify.steps_simplify e).uses_le u

end

end Waveform
