import Mathlib.Data.Set.Insert
import Waveform.Proofs.Capture.Captured
import Waveform.Proofs.Capture.Naming

/-!
# Mirrored runs

A run of a closure and the run of the function that the closure's units are merged into, side by
side. Each opens a frame when the other does, so the frames that the first has opened are those of
the second in the same order. What the first finds in the environment of a closure is older than
the run, and in the second it is part of the captured tree or a unit, bound in the first frame
after the global one.
-/

namespace Waveform

variable {ν : Type}

/-! ## Disciplined runs -/

def Value.isPair : Value ν → Bool
  | .pair _ _ _ => true
  | _ => false

/-- No function is converted to text, and no pairs are compared by identity. -/
def BinaryOperator.IsClear (op : BinaryOperator) (a b : Value ν) : Prop :=
  match op with
  | .strictEqual | .strictNotEqual => ¬ (a.isPair = true ∧ b.isPair = true)
  | .equal | .notEqual =>
    match a, b with
    | .primitive l, v | v, .primitive l => l.isNullish = true ∨ v.holdsFunction = false
    | a, b => ¬ (a.isPair = true ∧ b.isPair = true)
  | _ => a.holdsFunction = false ∧ b.holdsFunction = false

def UnaryOperator.IsClear (op : UnaryOperator) (v : Value ν) : Prop :=
  match op with
  | .typeOf | .not => True
  | .minus | .plus => v.holdsFunction = false

/-- The nearest frame from the given one on that declares the name binds it by now. -/
def Store.IsSettled (s : Store ν) (base : Nat) (declared : Nat → List String) (name : String) :
    Environment → Prop
  | [] => True
  | i :: outer =>
    (base ≤ i → name ∈ declared i → (s.frame i).contains name = true) ∧
      ((base ≤ i → name ∉ declared i) → s.IsSettled base declared name outer)

instance Store.decidableIsSettled (s : Store ν) (base : Nat) (declared : Nat → List String)
    (name : String) : (env : Environment) → Decidable (s.IsSettled base declared name env)
  | [] => .isTrue trivial
  | _ :: outer =>
    have := s.decidableIsSettled base declared name outer
    inferInstanceAs (Decidable (_ ∧ _))

/-- Runs that a captured closure follows. The frames that a run opens, from the given one on,
declare the given names, which are plain; no name is used before its declaration; no function is
converted to text, no pairs are compared by identity, and nothing is drawn. -/
def Discipline.capturable (target : String) (base : Nat) (declared : Nat → List String) :
    Discipline ν where
  strict := False
  name s env name := s.IsSettled base declared name env
  function := True
  unary := UnaryOperator.IsClear
  binary := BinaryOperator.IsClear
  test _ := True
  right _ := True
  chosen _ := True
  member _ _ _ := True
  builtin b _ := b ≠ .random
  update _ := True
  branch _ := True
  result _ := True
  alone _ := True
  loop _ := True
  frame i names :=
    declared i = names ∧ ∀ name ∈ names, name ≠ target ∧ ¬ ClosureNames.IsMarked name

/-! ## Places and values -/

/-- Which identities of two runs belong together. -/
abbrev Twins := Set (Nat × Nat)

/-- An identity has at most one twin on each side. -/
def Twins.Match (W : Twins) : Prop :=
  ∀ ⦃i j i' j'⦄, (i, j) ∈ W → (i', j') ∈ W → (i = i' ↔ j = j')

/-- What two runs that mirror each other start from. -/
structure Mirror (ν : Type) extends Origin ν where
  /-- The name that the merged function goes by. -/
  target : String
  /-- The names that the frames of the run declare. -/
  declared : Nat → List String

namespace Mirror

variable (m : Mirror ν)

/-- The first frame that the run opens. -/
def base : Nat := m.store.frames.size

/-- The frame of the merged function's run for a frame of the other. -/
def frame (i : Nat) : Nat := i - m.base + 1

def IsReserved (name : String) : Prop := name = m.target ∨ ClosureNames.IsMarked name

def discipline : Discipline ν := .capturable m.target m.base m.declared

/-- A closure of the environment can be captured: the environment is older than the run, and
hardcoded builtins are what their names stand for. -/
structure Hosts (env : Environment) : Prop where
  old {i} : i ∈ env → i < m.base
  builtin {name b} : m.toOrigin.builtin? name = some b →
    m.store.lookup? name env = some (.builtin b)

/-- Where a captured tree stands. The first environment is that of the tree's closure. -/
inductive Placed (home : Environment) : Locals → Environment → Environment → Prop
  | unit (h : m.Hosts home) : Placed home Locals.none home (1 :: Environment.global)
  | root (h : m.Hosts home) : Placed home (Locals.none.extend (m.declared m.base))
      (m.base :: home) (1 :: Environment.global)
  | frame {l : Locals} {env env' : Environment} {i : Nat} (h : Placed home l env env')
    (hi : m.base < i) : Placed home (l.extend (m.declared i)) (i :: env) (m.frame i :: env')

/-- Values that are the same but for identities, with captured functions for functions. -/
inductive Mirrors (W : Twins) : Value ν → Value ν → Prop
  | primitive (l : Literal ν) : Mirrors W (.primitive l) (.primitive l)
  | builtin (b : Builtin) : Mirrors W (.builtin b) (.builtin b)
  | pair {i i' : Nat} {head tail head' tail' : Value ν} (hhead : Mirrors W head head')
    (htail : Mirrors W tail tail') : Mirrors W (.pair i head tail) (.pair i' head' tail')
  | closure {c c' : Closure ν} {home : Environment} {l : Locals}
    (htwin : (c.identity, c'.identity) ∈ W) (hparams : c'.function.params = c.function.params)
    (hplaced : m.Placed home l c.environment c'.environment)
    (hbody : Statement.CapturedAll m.toOrigin home
      (l.extend (c.function.params ++ Statement.declaredNames c.function.body))
      c.function.body c'.function.body) : Mirrors W (.closure c) (.closure c')

variable {m} {W W' : Twins} {v v' w w' : Value ν}

theorem Mirrors.mono (h : m.Mirrors W v v') (hW : W ⊆ W') : m.Mirrors W' v v' := by
  induction h with
  | primitive l => exact .primitive l
  | builtin b => exact .builtin b
  | pair _ _ ihead itail => exact .pair ihead itail
  | closure htwin hparams hplaced hbody => exact .closure (hW htwin) hparams hplaced hbody

theorem Mirrors.listLength? (h : m.Mirrors W v v') : v'.listLength? = v.listLength? := by
  induction h with
  | pair _ _ _ itail => rw [Value.listLength?, Value.listLength?, itail]
  | _ => rfl

theorem Mirrors.asNumber? (h : m.Mirrors W v v') : v'.asNumber? = v.asNumber? := by
  cases h <;> rfl

theorem Mirrors.typeName (h : m.Mirrors W v v') : v'.typeName = v.typeName := by
  cases h <;> rfl

section

variable [Numeric ν]

theorem Mirrors.isTruthy (h : m.Mirrors W v v') : v'.isTruthy = v.isTruthy := by
  cases h <;> rfl

theorem Mirrors.toNumber (h : m.Mirrors W v v') : v'.toNumber = v.toNumber := by
  cases h <;> rfl

theorem Mirrors.text (h : m.Mirrors W v v') (hv : v.holdsFunction = false) : v'.text = v.text := by
  induction h with
  | primitive _ | builtin _ => rfl
  | pair _ _ ihead itail =>
    rw [Value.holdsFunction, Bool.or_eq_false_iff] at hv
    rw [Value.text, Value.text, ihead hv.1, itail hv.2]
  | closure => cases hv

theorem Mirrors.toPrimitive (h : m.Mirrors W v v') (hv : v.holdsFunction = false) :
    v'.toPrimitive = v.toPrimitive := by
  have htext := h.text hv
  cases h with
  | primitive l => rfl
  | builtin b => rfl
  | pair | closure => exact congrArg Literal.string htext

end

/-! ## Operators -/

section

variable [Numeric ν]

theorem Mirrors.unary (h : m.Mirrors W v v') {op : UnaryOperator} (hop : op.IsClear v) :
    m.Mirrors W (op.apply v) (op.apply v') := by
  cases op with
  | typeOf =>
    rw [UnaryOperator.apply, UnaryOperator.apply, h.typeName]
    exact .primitive _
  | not =>
    rw [UnaryOperator.apply, UnaryOperator.apply, h.isTruthy]
    exact .primitive _
  | minus | plus =>
    rw [UnaryOperator.apply, UnaryOperator.apply, h.toPrimitive hop]
    exact .primitive _

theorem Mirrors.same (h : m.Mirrors W v v') (h' : m.Mirrors W w w') (hW : W.Match)
    (hpairs : ¬ (v.isPair = true ∧ w.isPair = true)) : v'.same w' = v.same w := by
  cases h with
  | primitive l | builtin b => cases h' <;> rfl
  | pair _ _ =>
    cases h' with
    | pair _ _ => exact absurd ⟨rfl, rfl⟩ hpairs
    | _ => rfl
  | closure htwin _ _ _ =>
    cases h' with
    | closure htwin' _ _ _ =>
      rw [Value.same, Value.same, Bool.eq_iff_iff, beq_iff_eq, beq_iff_eq]
      exact (hW htwin htwin').symm
    | _ => rfl

theorem Mirrors.looselyEqual (h : m.Mirrors W v v') (h' : m.Mirrors W w w') (hW : W.Match)
    (hop : BinaryOperator.equal.IsClear v w) : v'.looselyEqual w' = v.looselyEqual w := by
  have hside {l : Literal ν} {u u' : Value ν} (hu : m.Mirrors W u u')
      (hclear : l.isNullish = true ∨ u.holdsFunction = false) :
      (! l.isNullish && BinaryOperator.looselyEqual l u'.toPrimitive) =
        (! l.isNullish && BinaryOperator.looselyEqual l u.toPrimitive) := by
    rcases hclear with hnullish | hfunction
    · rw [hnullish]
      rfl
    · rw [hu.toPrimitive hfunction]
  cases h with
  | primitive l =>
    cases h' with
    | primitive r => rfl
    | builtin b => rfl
    | pair hhead htail => exact hside (.pair hhead htail) hop
    | closure ht hp hl hb => exact hside (.closure ht hp hl hb) hop
  | builtin b =>
    cases h' with
    | closure | pair | builtin | primitive => rfl
  | pair hhead htail =>
    cases h' with
    | primitive r => exact hside (.pair hhead htail) hop
    | builtin b => rfl
    | pair _ _ => exact absurd ⟨rfl, rfl⟩ hop
    | closure _ _ _ _ => rfl
  | closure ht hp hl hb =>
    cases h' with
    | primitive r => exact hside (.closure ht hp hl hb) hop
    | builtin b => rfl
    | pair _ _ => rfl
    | closure ht' hp' hl' hb' =>
      exact Mirrors.same (.closure ht hp hl hb) (.closure ht' hp' hl' hb') hW
        (by simp [Value.isPair])

theorem Mirrors.binary (h : m.Mirrors W v v') (h' : m.Mirrors W w w') (hW : W.Match)
    {op : BinaryOperator} (hop : op.IsClear v w) :
    m.Mirrors W (op.apply v w) (op.apply v' w') := by
  cases op with
  | strictEqual | strictNotEqual =>
    rw [BinaryOperator.apply, BinaryOperator.apply, h.same h' hW hop]
    exact .primitive _
  | equal | notEqual =>
    rw [BinaryOperator.apply, BinaryOperator.apply, h.looselyEqual h' hW hop]
    exact .primitive _
  | _ =>
    simp only [BinaryOperator.apply, h.toPrimitive hop.1, h'.toPrimitive hop.2]
    exact .primitive _

end

end Mirror

end Waveform
