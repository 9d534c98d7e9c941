import Mathlib.Data.List.Forall2
import Waveform.Proofs.Evaluation.Discipline
import Waveform.Proofs.Inlining.Outcome

/-!
# Readings of residual expressions

What the expressions of the specializer have to do with the values of a run. A `Reading` says which
residual expression reads as which value, for the runs of one discipline. `Models` extends it to
pairs, builtins and functions: these the specializer keeps as trees of its own. `Reading.Sound`
collects what a reading has to satisfy for inlining to follow a run.
-/

namespace Waveform

variable {ν : Type}

def Value.IsPrimitive (v : Value ν) : Prop :=
  ∃ l, v = .primitive l

/-- What residual expressions stand for in the runs of a discipline. -/
structure Reading (ν : Type) where
  discipline : Discipline ν
  /-- Functions are made, and every branch is by a known test. -/
  higherOrder : Prop
  Reads : Expression ν → Value ν → Prop
  /-- What may be left of the right side of a logical operator that is not run. -/
  Unrun : Expression ν → Prop := fun _ => False

namespace Reading

/-- The expression stands for the value. Of a function it is asked that the frame that it was made
in is a home for its environment. -/
inductive Models (r : Reading ν) (home : Nat → Environment → Prop) :
    Expression ν → Value ν → Prop
  | residual {e : Expression ν} {v : Value ν} : r.Reads e v → Models r home e v
  | builtin (b : Builtin) : Models r home (.builtin b) (.builtin b)
  | pair {a b : Expression ν} {x y : Value ν} (i : Nat) :
    Models r home a x → Models r home b y → Models r home (.array [a, b]) (.pair i x y)
  | closure {j i : Nat} {name : Option String} {params : List String}
    {body : List (Statement ν)} {env : Environment} : home j env →
    Models r home (.function params body (some j)) (.closure ⟨i, name, ⟨params, body⟩, env⟩)

/-- The expression stands for the value, wherever functions were made. -/
abbrev Depicts (r : Reading ν) : Expression ν → Value ν → Prop :=
  r.Models fun _ _ => True

variable {r : Reading ν} {home home' : Nat → Environment → Prop}

theorem Models.weaken {r' : Reading ν} {e : Expression ν} {v : Value ν} (h : r.Models home e v)
    (hreads : ∀ e v, r.Reads e v → r'.Reads e v) (hhome : ∀ j env, home j env → home' j env) :
    r'.Models home' e v := by
  induction h with
  | residual h => exact .residual (hreads _ _ h)
  | builtin b => exact .builtin b
  | pair i _ _ iha ihb => exact .pair i iha ihb
  | closure h => exact .closure (hhome _ _ h)

theorem Models.mono {e : Expression ν} {v : Value ν} (h : r.Models home e v)
    (hhome : ∀ j env, home j env → home' j env) : r.Models home' e v :=
  h.weaken (fun _ _ => id) hhome

theorem Models.depicts {e : Expression ν} {v : Value ν} (h : r.Models home e v) :
    r.Depicts e v :=
  h.mono fun _ _ _ => trivial

theorem Models.reads {e : Expression ν} {l : Literal ν} (h : r.Models home e (.primitive l)) :
    r.Reads e (.primitive l) := by
  cases h with
  | residual h => exact h

end Reading

/-- Numbers that an entry of a pair is asked for by are told apart. -/
class Numeric.Indexed (ν : Type) [Numeric ν] : Prop where
  zero (x : ν) : Numeric.toNat? x = some 0 ↔ Numeric.isZero x = true
  one (x : ν) : Numeric.toNat? x = some 1 ↔ Numeric.isOne x = true

/-- What a reading has to satisfy. The laws about residual operations ask for nothing where the
discipline leaves no operand unknown. -/
structure Reading.Sound [Numeric ν] (r : Reading ν) : Prop where
  indexed : Numeric.Indexed ν
  plain {e v} : r.Reads e v → Simplify.isStructure e = false
  literal (l) : r.Reads (.literal l) (.primitive l)
  literal_inj {l v} : r.Reads (.literal l) v → v = .primitive l
  simplify {e v} : r.Reads e v → r.Reads e.simplify v
  unary {op a v} : r.discipline.unary op v → r.Depicts a v →
    r.Reads (Expression.unary op a).simplify (op.apply v)
  binary {op a b u v} : r.discipline.binary op u v → r.Depicts a u → r.Depicts b v →
    r.Reads (Expression.binary op a b).simplify (op.apply u v)
  number {e v} : r.discipline.update v → r.Depicts e v →
    r.Reads (Expression.unary .plus e).simplify (.number v.toNumber)
  update {op : UpdateOperator} {e v} : r.discipline.update v → r.Depicts e v →
    r.Reads (Expression.binary op.binaryOperator e (.number Numeric.one)).simplify
      (op.binaryOperator.apply (.number v.toNumber) (.number Numeric.one))
  strict {a u} : a.asLiteral? = none → r.discipline.test u → r.Depicts a u → r.discipline.strict
  logical {op a b u v} : a.asLiteral? = none → r.discipline.test u → r.Depicts a u →
    (op.decides u.isTruthy = false → r.discipline.right v ∧ r.Depicts b v) →
    (op.decides u.isTruthy = true →
      b.isBoolean = true ∨ (∃ w, r.discipline.right w ∧ r.Depicts b w) ∨ r.Unrun b) →
    r.Reads (Expression.logical op a b).simplify (op.select u v u.isTruthy)
  conditional {t a b u v} : t.asLiteral? = none →
    r.discipline.test u ∧ r.discipline.chosen v ∨
      r.discipline.branch u ∧ (r.discipline.result v ∨ v = .undefined) →
    r.Depicts t u → (u.isTruthy = true → r.Depicts a v) →
    (u.isTruthy = false → r.Depicts b v) → r.Reads (Expression.conditional t a b).simplify v
  member {written a b u v} : r.discipline.member written u v → r.Depicts a u → r.Depicts b v →
    a.asLiteral? = none → (∀ items, a = .array items → written = false ∧ b.asNumber? = none) →
    ∀ s, (Run.member u v).Ensures r.discipline.strict s fun w t =>
      t = s ∧ r.Reads (.member a b) w
  call {b arguments args} : r.discipline.builtin b args →
    List.Forall₂ r.Depicts arguments args → b ≠ .length → b ≠ .list →
    Inlining.foldBuiltin? b arguments = none →
    ∀ s, (Run.applyBuiltin b args).Ensures r.discipline.strict s fun w t =>
      t = s ∧ r.Reads (.call (.builtin b) arguments) w
  known {t u} : r.higherOrder → r.discipline.branch u → r.Depicts t u → t.asLiteral? ≠ none
  function : r.discipline.function → r.higherOrder
  alone {s} : r.discipline.alone s → s.isDeclaration = false
  loop (start) : ¬ r.discipline.loop start

end Waveform
