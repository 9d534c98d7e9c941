import Waveform.Proofs.Inlining.Simulation
import Waveform.Proofs.Number.Decoding

/-!
# Functions without parameters

A function without parameters leaves the specializer nothing unknown. In runs whose operators,
tests and mathematical functions only meet primitives, every residual expression is a literal, and
the one that the function is reduced to represents the value that the interpreter returns.
-/

namespace Waveform

variable {ν : Type}

/-- Operators, tests and the arguments of mathematical functions are primitives. Only strict
equality may also have a pair or a function on one side. Only pairs are indexed, and by numbers. -/
def Discipline.primitives : Discipline ν where
  strict := False
  name _ _ _ := True
  function := True
  unary _ v := v.IsPrimitive
  binary op a b :=
    a.IsPrimitive ∧ b.IsPrimitive ∨
      (op = .strictEqual ∨ op = .strictNotEqual) ∧ (a.IsPrimitive ∨ b.IsPrimitive)
  test v := v.IsPrimitive
  right _ := True
  chosen _ := True
  member _ object property :=
    (∃ i head tail, object = .pair i head tail) ∧ ∃ x, property = .number x
  builtin b args := b ≠ .random ∧ (b.isMath = true → ∀ v ∈ args, v.IsPrimitive)
  update v := ∃ l, v = .primitive l ∧ ∀ text, l ≠ .string text
  branch v := v.IsPrimitive
  result _ := True
  alone s := s.isDeclaration = false
  loop _ := False
  frame _ _ := True

/-- An expression is a literal, a pair, a function or a builtin, and the value is the same. -/
inductive Represents : Expression ν → Value ν → Prop
  | literal (l : Literal ν) : Represents (.literal l) (.primitive l)
  | pair {a b : Expression ν} {x y : Value ν} (i : Nat) :
    Represents a x → Represents b y → Represents (.array [a, b]) (.pair i x y)
  | function (c : Closure ν) (home : Option Nat) :
    Represents (.function c.function.params c.function.body home) (.closure c)
  | builtin (b : Builtin) : Represents (.builtin b) (.builtin b)

namespace Reading

/-- A residual expression is a literal and reads as its value. -/
def known : Reading ν where
  discipline := .primitives
  higherOrder := True
  Reads e v := ∃ l, e = .literal l ∧ v = .primitive l

theorem literal_of_known {e : Expression ν} {l : Literal ν}
    (h : known.Depicts e (.primitive l)) : e = .literal l := by
  obtain ⟨m, rfl, hm⟩ := h.reads
  cases hm
  rfl

theorem literals_of_known {arguments : List (Expression ν)} {args : List (Value ν)}
    (h : List.Forall₂ known.Depicts arguments args) (hargs : ∀ v ∈ args, v.IsPrimitive) :
    ∃ ls, arguments.mapM (·.asLiteral?) = some ls ∧ args = ls.map .primitive := by
  induction h with
  | nil => exact ⟨[], rfl, rfl⟩
  | cons hm _ ih =>
    obtain ⟨l, rfl⟩ := hargs _ (List.mem_cons_self ..)
    obtain rfl := literal_of_known hm
    obtain ⟨ls, hls, rfl⟩ := ih fun v hv => hargs v (List.mem_cons_of_mem _ hv)
    refine ⟨l :: ls, ?_, rfl⟩
    rw [List.mapM_cons, hls]
    rfl

theorem isStructure_of_known {e : Expression ν} {v : Value ν} (h : known.Depicts e v)
    (hv : ¬ v.IsPrimitive) : Simplify.isStructure e = true := by
  cases h with
  | residual h =>
    obtain ⟨l, -, rfl⟩ := h
    exact absurd ⟨l, rfl⟩ hv
  | _ => rfl

theorem known.represents {e : Expression ν} {v : Value ν} (h : known.Depicts e v) :
    Represents e v := by
  induction h with
  | residual h =>
    obtain ⟨l, rfl, rfl⟩ := h
    exact .literal l
  | builtin b => exact .builtin b
  | pair i _ _ iha ihb => exact .pair i iha ihb
  | closure _ => exact @Represents.function ν ⟨_, _, ⟨_, _⟩, _⟩ _

variable [Numeric ν]

theorem simplify_unary_literal (op : UnaryOperator) (l : Literal ν) :
    (Expression.unary op (.literal l)).simplify = .literal (op.evaluate l) := rfl

theorem simplify_binary_literals (op : BinaryOperator) (l r : Literal ν) :
    (Expression.binary op (.literal l) (.literal r)).simplify = .literal (op.evaluate l r) := rfl

theorem unary_apply_primitive (op : UnaryOperator) (l : Literal ν) :
    op.apply (.primitive l) = .primitive (op.evaluate l) := by
  cases op <;> rfl

theorem binary_apply_primitives (op : BinaryOperator) (l r : Literal ν) :
    op.apply (.primitive l) (.primitive r) = .primitive (op.evaluate l r) := by
  cases op <;> rfl

theorem simplify_compare {op : BinaryOperator} {e : Expression ν} (l : Literal ν)
    (hop : op = .strictEqual ∨ op = .strictNotEqual) (he : Simplify.isStructure e = true) :
    (Expression.binary op (.literal l) e).simplify = .boolean (op == .strictNotEqual) ∧
      (Expression.binary op e (.literal l)).simplify = .boolean (op == .strictNotEqual) := by
  cases e with
  | array _ | function _ _ _ | builtin _ => rcases hop with rfl | rfl <;> exact ⟨rfl, rfl⟩
  | _ => cases he

theorem apply_compare {op : BinaryOperator} {v : Value ν} (l : Literal ν)
    (hop : op = .strictEqual ∨ op = .strictNotEqual) (hv : ¬ v.IsPrimitive) :
    op.apply (.primitive l) v = .boolean (op == .strictNotEqual) ∧
      op.apply v (.primitive l) = .boolean (op == .strictNotEqual) := by
  cases v with
  | primitive m => exact absurd ⟨m, rfl⟩ hv
  | _ => rcases hop with rfl | rfl <;> exact ⟨rfl, rfl⟩

theorem update_literal (op : UpdateOperator) {l : Literal ν} (hl : ∀ text, l ≠ .string text)
    (x : ν) : op.binaryOperator.evaluate l (.number x) =
      op.binaryOperator.evaluate (.number l.toNumber) (.number x) := by
  cases l with
  | string text => exact absurd rfl (hl text)
  | _ => cases op <;> rfl

theorem known.sound [Numeric.Indexed ν] : (known : Reading ν).Sound where
  indexed := inferInstance
  plain := by
    rintro e v ⟨l, rfl, -⟩
    rfl
  literal l := ⟨l, rfl, rfl⟩
  literal_inj := by
    rintro l v ⟨m, hm, rfl⟩
    cases hm
    rfl
  simplify := by
    rintro e v ⟨l, rfl, rfl⟩
    exact ⟨l, rfl, rfl⟩
  unary := by
    rintro op a v ⟨l, rfl⟩ ha
    obtain rfl := literal_of_known ha
    exact ⟨_, simplify_unary_literal op l, unary_apply_primitive op l⟩
  binary := by
    intro op a b u v hd ha hb
    by_cases hu : u.IsPrimitive
    · obtain ⟨l, rfl⟩ := hu
      obtain rfl := literal_of_known ha
      by_cases hv : v.IsPrimitive
      · obtain ⟨m, rfl⟩ := hv
        obtain rfl := literal_of_known hb
        exact ⟨_, simplify_binary_literals op l m, binary_apply_primitives op l m⟩
      · obtain ⟨-, hv'⟩ | ⟨hop, -⟩ := hd
        · exact absurd hv' hv
        · have hstructure := isStructure_of_known hb hv
          exact ⟨_, (simplify_compare l hop hstructure).1, (apply_compare l hop hv).1⟩
    · obtain ⟨hu', -⟩ | ⟨hop, hu' | ⟨m, rfl⟩⟩ := hd
      · exact absurd hu' hu
      · exact absurd hu' hu
      · obtain rfl := literal_of_known hb
        have hstructure := isStructure_of_known ha hu
        exact ⟨_, (simplify_compare m hop hstructure).2, (apply_compare m hop hu).2⟩
  number := by
    rintro e v ⟨l, rfl, -⟩ he
    obtain rfl := literal_of_known he
    exact ⟨_, simplify_unary_literal .plus l, rfl⟩
  update := by
    rintro op e v ⟨l, rfl, hstring⟩ he
    obtain rfl := literal_of_known he
    refine ⟨_, simplify_binary_literals op.binaryOperator l (.number Numeric.one), ?_⟩
    rw [Value.number, Value.number, binary_apply_primitives, update_literal op hstring]
    rfl
  strict := by
    rintro a u hl ⟨l, rfl⟩ ha
    rw [literal_of_known ha] at hl
    cases hl
  logical := by
    rintro op a b u v hl ⟨l, rfl⟩ ha
    rw [literal_of_known ha] at hl
    cases hl
  conditional := by
    rintro t a b u v hl hd ht
    obtain ⟨l, rfl⟩ : u.IsPrimitive := by
      rcases hd with ⟨hu, -⟩ | ⟨hu, -⟩
      · exact hu
      · exact hu
    rw [literal_of_known ht] at hl
    cases hl
  member := by
    rintro written a b u v ⟨⟨i, head, tail, rfl⟩, x, rfl⟩ ha hb - hitems
    obtain rfl := literal_of_known hb
    cases ha with
    | residual h =>
      obtain ⟨l, -, hl⟩ := h
      cases hl
    | pair i _ _ => cases (hitems _ rfl).2
  call := by
    rintro b arguments args ⟨hrandom, hprimitive⟩ hargs hlength hlist hfold s
    have hmath : b.isMath = true := by
      cases b with
      | length => exact absurd rfl hlength
      | list => exact absurd rfl hlist
      | _ => rfl
    obtain ⟨ls, hls, rfl⟩ := literals_of_known hargs (hprimitive hmath)
    have hnumbers : (ls.map Value.primitive).map Value.toNumber = ls.map Literal.toNumber := by
      rw [List.map_map]
      rfl
    have hnone : Numeric.apply b (ls.map Literal.toNumber) = none := by
      have hdeterministic : b.isDeterministic = true := by
        cases b with
        | random => exact absurd rfl hrandom
        | _ => rfl
      simpa [Inlining.foldBuiltin?, hdeterministic, hls] using hfold
    rw [Run.applyBuiltin_math hlength hlist hrandom, hnumbers, hnone]
    exact .of_error (Run.outcome_fail _ s) id
  known := by
    rintro t u - ⟨l, rfl⟩ ht
    rw [literal_of_known ht]
    exact fun h => by cases h
  function _ := trivial
  alone h := h
  loop _ h := h

end Reading

/-- The expression that a function without parameters is reduced to represents the value that the
function returns, in a run whose operators, tests and mathematical functions meet primitives. -/
theorem Function.residual_represents [Numeric ν] [Numeric.Indexed ν] {f : Function ν}
    {options : SpecializationOptions} {path : String} {e : Expression ν} {i : Nat}
    {name : Option String} {limit : Option Nat} {patience : Nat} {v : Value ν} {s : Store ν}
    (hparams : f.params = []) (hinline : f.residual path options = .ok e)
    (hrun : (Run.call limit patience 0 (.closure ⟨i, name, f, .global⟩) []).outcome .initial =
      (.ok v, s))
    (hobeys : Run.callObeys .primitives limit patience 0 (.closure ⟨i, name, f, .global⟩) []
      .initial) : Represents e v := by
  have hagrees := Reading.call_residual_agrees Reading.known.sound
    (fun _ => .never fun _ _ _ => id) hinline Store.initial_builtins (fun h => h.elim)
    (fun p v hv => ?_) hobeys
  · exact Reading.known.represents (hagrees.after v s hrun)
  · rw [hparams] at hv
    cases hv

/-- Two calls of a function that counts up a variable of the function around it. -/
def Function.counting : Function Float :=
  ⟨[], [.declaration .mutable "count" (some (.number Numeric.zero)),
    .declaration .constant "next" (some (.function [] [.result (some
      (.assignment .addAssign "count" (.number Numeric.one)))] none)),
    .result (some (.array [.call (.identifier "next") [], .call (.identifier "next") []]))]⟩

theorem Function.counting_obeys :
    Run.callObeys .primitives none 3 0 (.closure ⟨0, none, .counting, .global⟩) [] .initial := by
  refine fun _ => ⟨trivial, fun _ => trivial, .of_outcome rfl ?_⟩
  refine .of_outcome rfl (.of_outcome rfl ⟨trivial, .of_outcome rfl fun _ => ?_⟩)
  refine ⟨trivial, .of_outcome rfl fun _ => ⟨⟨?_, .of_outcome rfl trivial⟩, fun _ _ _ _ => trivial⟩⟩
  refine ⟨⟨trivial, .of_outcome rfl ⟨trivial, .of_outcome rfl ?_⟩⟩,
    .of_outcome rfl ⟨trivial, .of_outcome rfl ⟨trivial, .of_outcome rfl ?_⟩⟩⟩
  all_goals
    refine fun _ => ⟨trivial, fun _ => trivial, .of_outcome rfl ?_⟩
    refine .of_outcome rfl (.of_outcome rfl ?_)
    refine ⟨⟨⟨trivial, .of_outcome rfl ⟨trivial, ?_⟩⟩, fun _ _ _ => trivial⟩, ?_⟩
    swap
    · exact fun _ _ _ _ => trivial
    rintro _ _ ⟨⟩ ⟨⟩
    exact .inl ⟨⟨_, rfl⟩, _, rfl⟩

theorem Function.counting_residual_represents :
    ∃ e v s, Function.counting.residual "counting" .standard = .ok e ∧
      (Run.call none 3 0 (.closure ⟨0, none, .counting, .global⟩) []).outcome .initial =
        (.ok v, s) ∧ Represents e v := by
  obtain ⟨e, hinline⟩ : ∃ e, Function.counting.residual "counting" .standard = .ok e := ⟨_, rfl⟩
  obtain ⟨v, s, hrun⟩ : ∃ v s,
    (Run.call none 3 0 (.closure ⟨0, none, .counting, .global⟩) []).outcome .initial =
      (.ok v, s) := ⟨_, _, rfl⟩
  exact ⟨e, v, s, hinline, hrun,
    Function.residual_represents rfl hinline hrun Function.counting_obeys⟩

end Waveform
