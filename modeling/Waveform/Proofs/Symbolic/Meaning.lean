import Mathlib.Data.List.Forall2
import Waveform.Proofs.Evaluation.Discipline
import Waveform.Proofs.Number.Exact

/-!
# Meanings

What a residual expression stands for, given the numbers that its parameters stand for. Arithmetic
is exact, and an expression whose operands are not of the kind that its operator asks for denotes
nothing. Pairs have no identity here, so that two that are compared are told apart, and functions
are all one.
-/

namespace Waveform

variable {M : Mathematics}

/-- The values of expressions up to the identity of pairs and functions. -/
inductive Meaning (M : Mathematics)
  | primitive (literal : Literal (Exact M))
  | pair (head tail : Meaning M)
  | function

def BinaryOperator.isEquality : BinaryOperator → Bool
  | .strictEqual | .strictNotEqual | .equal | .notEqual => true
  | _ => false

namespace Value

def IsNumber (v : Value (Exact M)) : Prop := ∃ q, v = .number (.of q)

def IsBoolean (v : Value (Exact M)) : Prop := ∃ b, v = .boolean b

def IsScalar (v : Value (Exact M)) : Prop := v.IsNumber ∨ v.IsBoolean

def entry (head tail : Value (Exact M)) (q : ℚ) : Value (Exact M) :=
  if q = 0 then head else if q = 1 then tail else .undefined

/-- Whether the values are one pair. -/
def isOnePair {ν : Type} : Value ν → Value ν → Bool
  | .pair i _ _, .pair j _ _ => i == j
  | _, _ => false

end Value

abbrev Valuation := String → Option ℚ

namespace Meaning

def number (q : ℚ) : Meaning M := primitive (.number (.of q))

def boolean (b : Bool) : Meaning M := primitive (.boolean b)

def asNumber? : Meaning M → Option ℚ
  | primitive (.number x) => x.value?
  | _ => none

def asBoolean? : Meaning M → Option Bool
  | primitive (.boolean b) => some b
  | _ => none

def ofValue : Value (Exact M) → Meaning M
  | .primitive l => primitive l
  | .pair _ head tail => pair (ofValue head) (ofValue tail)
  | .closure _ | .builtin _ => function

@[simp] theorem asNumber?_eq_some {d : Meaning M} {q : ℚ} :
    d.asNumber? = some q ↔ d = number q := by
  constructor
  · intro h
    match d, h with
    | primitive (.number x), h => exact congrArg (fun y => primitive (.number y)) h
  · rintro rfl
    rfl

@[simp] theorem asBoolean?_eq_some {d : Meaning M} {b : Bool} :
    d.asBoolean? = some b ↔ d = boolean b := by
  constructor
  · intro h
    match d, h with
    | primitive (.boolean b), rfl => rfl
  · rintro rfl
    rfl

theorem number_inj {a b : ℚ} (h : (number a : Meaning M) = number b) : a = b := by
  injection h with h
  injection h with h
  exact Exact.of_inj h

theorem boolean_inj {a b : Bool} (h : (boolean a : Meaning M) = boolean b) : a = b := by
  injection h with h
  injection h

def unary : UnaryOperator → Meaning M → Option (Meaning M)
  | .minus, d => d.asNumber?.map fun q => number (-q)
  | .plus, d => d.asNumber?.map number
  | .not, d => d.asBoolean?.map fun b => boolean (! b)
  | .typeOf, _ => none

def arithmetic : BinaryOperator → ℚ → ℚ → Option (Meaning M)
  | .add, a, b => some (number (a + b))
  | .subtract, a, b => some (number (a - b))
  | .multiply, a, b => some (number (a * b))
  | .divide, a, b => if b = 0 then none else some (number (a / b))
  | .lessThan, a, b => some (boolean (a < b))
  | .lessThanOrEqual, a, b => some (boolean (a ≤ b))
  | .greaterThan, a, b => some (boolean (b < a))
  | .greaterThanOrEqual, a, b => some (boolean (b ≤ a))
  | _, _, _ => none

/-- Equality, strict or across kinds, of things that are no one pair. -/
def equals? (loosely : Bool) : Meaning M → Meaning M → Option Bool
  | primitive l, primitive m =>
    some (if loosely then BinaryOperator.looselyEqual l m else l.same m)
  | primitive l, _ | _, primitive l => if loosely && ! l.isNullish then none else some false
  | function, function => none
  | _, _ => some false

/-- The binary operators. Pairs that are compared are told apart. -/
def binary : BinaryOperator → Meaning M → Meaning M → Option (Meaning M)
  | .strictEqual, a, b => (equals? false a b).map boolean
  | .strictNotEqual, a, b => (equals? false a b).map fun r => boolean (! r)
  | .equal, a, b => (equals? true a b).map boolean
  | .notEqual, a, b => (equals? true a b).map fun r => boolean (! r)
  | op, a, b => a.asNumber?.bind fun x => b.asNumber?.bind fun y => arithmetic op x y

def entry? : Meaning M → Meaning M → Option (Meaning M)
  | pair head tail, primitive (.number x) =>
    some (if Numeric.isZero x then head else if Numeric.isOne x then tail
      else primitive .undefined)
  | _, _ => none

def call (b : Builtin) (args : List (Meaning M)) : Option (Meaning M) :=
  if b.isMath && b.isDeterministic then
    (args.mapM asNumber?).map fun qs => number (M.function b qs)
  else none

theorem isSome_call_bind (b : Builtin) (args : List (Meaning M)) :
    ((call b args).bind asBoolean?).isSome = false := by
  unfold call
  split
  · cases args.mapM asNumber? <;> rfl
  · rfl

end Meaning

mutual

/-- What the expression denotes. Where the left side of a logical operator decides, the right side
only has to be a truth value as far as is known. -/
def Expression.denote (ρ : Valuation) : Expression (Exact M) → Option (Meaning M)
  | .literal l => some (.primitive l)
  | .identifier name => (ρ name).map .number
  | .builtin _ | .function _ _ _ => some .function
  | .array items =>
    match Expression.denoteAll ρ items with
    | some [head, tail] => some (.pair head tail)
    | _ => none
  | .member object property =>
    (object.denote ρ).bind fun o => (property.denote ρ).bind fun p => o.entry? p
  | .unary op argument => (argument.denote ρ).bind fun a => Meaning.unary op a
  | .binary op left right =>
    (left.denote ρ).bind fun a => (right.denote ρ).bind fun b =>
      Meaning.binary op a b
  | .logical op left right =>
    ((left.denote ρ).bind (·.asBoolean?)).bind fun u =>
      if op.decides u then if right.isTruth ρ then some (.boolean u) else none
      else ((right.denote ρ).bind (·.asBoolean?)).map .boolean
  | .conditional test consequent alternate =>
    ((test.denote ρ).bind (·.asBoolean?)).bind fun t =>
      if t then consequent.denote ρ else alternate.denote ρ
  | .call (.builtin b) arguments =>
    (Expression.denoteAll ρ arguments).bind fun args => Meaning.call b args
  | .call _ _ | .assignment _ _ _ | .update _ _ _ => none

/-- Whether the expression is a truth value as far as is known, whatever it denotes: an entry may be
anything, and a side counts unless the test of the choice is known to leave it out. -/
def Expression.isTruth (ρ : Valuation) : Expression (Exact M) → Bool
  | .literal (.boolean _) | .member _ _ => true
  | .unary op _ => op == .not
  | .binary op _ _ => op.isComparison
  | .logical _ left right => left.isTruth ρ && right.isTruth ρ
  | .conditional test consequent alternate =>
    let u := (test.denote ρ).bind (·.asBoolean?)
    (u == some false || consequent.isTruth ρ) && (u == some true || alternate.isTruth ρ)
  | _ => false

def Expression.denoteAll (ρ : Valuation) :
    List (Expression (Exact M)) → Option (List (Meaning M))
  | [] => some []
  | e :: es => (e.denote ρ).bind fun a => (Expression.denoteAll ρ es).map (a :: ·)

end

/-- What leaves stand for, and what operators make of what their operands stand for. -/
structure Semantics (M : Mathematics) where
  leaf : Expression (Exact M) → Option (Meaning M)
  operate : BinaryOperator → Meaning M → Meaning M → Option (Meaning M)

namespace Semantics

mutual

/-- What an expression denotes whose operators are evaluated over its leaves. Everything but the
operators is a leaf. -/
def denote (S : Semantics M) : Expression (Exact M) → Option (Meaning M)
  | .unary op argument => (S.denote argument).bind fun a => Meaning.unary op a
  | .binary op left right =>
    (S.denote left).bind fun a => (S.denote right).bind fun b => S.operate op a b
  | .logical op left right =>
    ((S.denote left).bind (·.asBoolean?)).bind fun u =>
      if op.decides u then if S.isTruth right then some (.boolean u) else none
      else ((S.denote right).bind (·.asBoolean?)).map .boolean
  | .conditional test consequent alternate =>
    ((S.denote test).bind (·.asBoolean?)).bind fun t =>
      if t then S.denote consequent else S.denote alternate
  | e => S.leaf e

/-- Whether the expression is a truth value as far as is known. -/
def isTruth (S : Semantics M) : Expression (Exact M) → Bool
  | .unary op _ => op == .not
  | .binary op _ _ => op.isComparison
  | .logical _ left right => S.isTruth left && S.isTruth right
  | .conditional test consequent alternate =>
    let u := (S.denote test).bind (·.asBoolean?)
    (u == some false || S.isTruth consequent) && (u == some true || S.isTruth alternate)
  | .member _ _ => true
  | e => ((S.leaf e).bind (·.asBoolean?)).isSome

end

variable {S : Semantics M} {d : Meaning M}

theorem denote_unary {op : UnaryOperator} {a : Expression (Exact M)} :
    S.denote (.unary op a) = some d ↔ ∃ u, S.denote a = some u ∧ Meaning.unary op u = some d := by
  rw [denote, Option.bind_eq_some_iff]

theorem denote_binary {op : BinaryOperator} {a b : Expression (Exact M)} :
    S.denote (.binary op a b) = some d ↔
      ∃ u v, S.denote a = some u ∧ S.denote b = some v ∧ S.operate op u v = some d := by
  simp only [denote, Option.bind_eq_some_iff]
  constructor
  · rintro ⟨u, hu, v, hv, h⟩
    exact ⟨u, v, hu, hv, h⟩
  · rintro ⟨u, v, hu, hv, h⟩
    exact ⟨u, hu, v, hv, h⟩

theorem bind_asBoolean? {e : Expression (Exact M)} {u : Bool} :
    (S.denote e).bind (·.asBoolean?) = some u ↔ S.denote e = some (.boolean u) := by
  simp only [Option.bind_eq_some_iff, Meaning.asBoolean?_eq_some, exists_eq_right]

theorem denote_logical {op : LogicalOperator} {a b : Expression (Exact M)} :
    S.denote (.logical op a b) = some d ↔ ∃ u, S.denote a = some (.boolean u) ∧
      (op.decides u = true ∧ S.isTruth b = true ∧ d = .boolean u ∨
        op.decides u = false ∧ ∃ v, S.denote b = some (.boolean v) ∧ d = .boolean v) := by
  rw [denote, Option.bind_eq_some_iff]
  refine exists_congr fun u => and_congr bind_asBoolean? ?_
  cases op.decides u with
  | true =>
    simp only [if_true, Option.ite_none_right_eq_some, Option.some.injEq, true_and,
      Bool.true_eq_false, false_and, or_false, eq_comm (a := d)]
  | false =>
    simp only [Bool.false_eq_true, if_false, Option.map_eq_some_iff, bind_asBoolean?, false_and,
      true_and, false_or, eq_comm (a := d)]

theorem denote_conditional {t a b : Expression (Exact M)} :
    S.denote (.conditional t a b) = some d ↔
      ∃ u, S.denote t = some (.boolean u) ∧ (if u then S.denote a else S.denote b) = some d := by
  rw [denote, Option.bind_eq_some_iff]
  exact exists_congr fun u => and_congr bind_asBoolean? .rfl

theorem isTruth_logical {op : LogicalOperator} {a b : Expression (Exact M)} :
    S.isTruth (.logical op a b) = true ↔ S.isTruth a = true ∧ S.isTruth b = true := by
  rw [isTruth, Bool.and_eq_true]

theorem isTruth_conditional {t a b : Expression (Exact M)} :
    S.isTruth (.conditional t a b) = true ↔
      (S.denote t ≠ some (.boolean false) → S.isTruth a = true) ∧
        (S.denote t ≠ some (.boolean true) → S.isTruth b = true) := by
  have hknown (u : Bool) :
      ((S.denote t).bind (·.asBoolean?) == some u) = true ↔ S.denote t = some (.boolean u) := by
    rw [beq_iff_eq, bind_asBoolean?]
  rw [isTruth, Bool.and_eq_true, Bool.or_eq_true, Bool.or_eq_true, hknown, hknown,
    or_iff_not_imp_left, or_iff_not_imp_left]

def ofValuation (ρ : Valuation) : Semantics M :=
  ⟨Expression.denote ρ, Meaning.binary⟩

mutual

theorem denote_ofValuation (ρ : Valuation) : (e : Expression (Exact M)) →
    (ofValuation ρ).denote e = e.denote ρ
  | .unary op a => by
    rw [denote, Expression.denote, denote_ofValuation ρ a]
  | .binary op a b => by
    rw [denote, Expression.denote, denote_ofValuation ρ a, denote_ofValuation ρ b]
    rfl
  | .logical op a b => by
    rw [denote, Expression.denote, denote_ofValuation ρ a, denote_ofValuation ρ b,
      isTruth_ofValuation ρ b]
  | .conditional t a b => by
    rw [denote, Expression.denote, denote_ofValuation ρ t, denote_ofValuation ρ a,
      denote_ofValuation ρ b]
  | .literal _ | .identifier _ | .builtin _ | .array _ | .member _ _ | .call _ _
  | .function _ _ _ | .assignment _ _ _ | .update _ _ _ => rfl

theorem isTruth_ofValuation (ρ : Valuation) : (e : Expression (Exact M)) →
    (ofValuation ρ).isTruth e = e.isTruth ρ
  | .logical op a b => by
    rw [isTruth, Expression.isTruth, isTruth_ofValuation ρ a, isTruth_ofValuation ρ b]
  | .conditional t a b => by
    rw [isTruth, Expression.isTruth, denote_ofValuation ρ t, isTruth_ofValuation ρ a,
      isTruth_ofValuation ρ b]
  | .unary _ _ | .binary _ _ _ | .member _ _ => rfl
  | .literal l => by
    cases l <;> rfl
  | .identifier name => by
    change ((ofValuation ρ).leaf _ |>.bind _).isSome = false
    change (((ρ name).map Meaning.number).bind (·.asBoolean?)).isSome = false
    cases ρ name <;> rfl
  | .builtin _ | .function _ _ _ => rfl
  | .assignment _ _ _ | .update _ _ _ => rfl
  | .array items => by
    change ((Expression.denote ρ (.array items)).bind (·.asBoolean?)).isSome = false
    rw [Expression.denote]
    split <;> rfl
  | .call callee arguments => by
    change ((Expression.denote ρ (.call callee arguments)).bind (·.asBoolean?)).isSome = false
    cases callee with
    | builtin b =>
      rw [Expression.denote, Option.bind_assoc]
      cases Expression.denoteAll ρ arguments with
      | none => rfl
      | some args => exact Meaning.isSome_call_bind b args
    | _ => rfl

end

end Semantics

namespace Expression

variable {ρ : Valuation} {d : Meaning M}

theorem denote_unary {op : UnaryOperator} {a : Expression (Exact M)} :
    (unary op a).denote ρ = some d ↔ ∃ u, a.denote ρ = some u ∧ Meaning.unary op u = some d := by
  simp only [← Semantics.denote_ofValuation, Semantics.denote_unary]

theorem denote_binary {op : BinaryOperator} {a b : Expression (Exact M)} :
    (binary op a b).denote ρ = some d ↔
      ∃ u v, a.denote ρ = some u ∧ b.denote ρ = some v ∧ Meaning.binary op u v = some d := by
  simp only [← Semantics.denote_ofValuation, Semantics.denote_binary]
  rfl

theorem denote_logical {op : LogicalOperator} {a b : Expression (Exact M)} :
    (logical op a b).denote ρ = some d ↔ ∃ u, a.denote ρ = some (.boolean u) ∧
      (op.decides u = true ∧ b.isTruth ρ = true ∧ d = .boolean u ∨
        op.decides u = false ∧ ∃ v, b.denote ρ = some (.boolean v) ∧ d = .boolean v) := by
  simp only [← Semantics.denote_ofValuation, ← Semantics.isTruth_ofValuation,
    Semantics.denote_logical]

theorem denote_conditional {t a b : Expression (Exact M)} :
    (conditional t a b).denote ρ = some d ↔
      ∃ u, t.denote ρ = some (.boolean u) ∧ (if u then a.denote ρ else b.denote ρ) = some d := by
  simp only [← Semantics.denote_ofValuation, Semantics.denote_conditional]

theorem isTruth_logical {op : LogicalOperator} {a b : Expression (Exact M)} :
    (logical op a b).isTruth ρ = true ↔ a.isTruth ρ = true ∧ b.isTruth ρ = true := by
  simp only [← Semantics.isTruth_ofValuation, Semantics.isTruth_logical]

theorem isTruth_conditional {t a b : Expression (Exact M)} (ha : a.isTruth ρ = true)
    (hb : b.isTruth ρ = true) : (conditional t a b).isTruth ρ = true := by
  rw [← Semantics.isTruth_ofValuation] at ha hb ⊢
  exact Semantics.isTruth_conditional.2 ⟨fun _ => ha, fun _ => hb⟩

theorem denoteAll_eq_some {es : List (Expression (Exact M))} {ds : List (Meaning M)} :
    denoteAll ρ es = some ds ↔ List.Forall₂ (fun e d => e.denote ρ = some d) es ds := by
  induction es generalizing ds with
  | nil =>
    rw [denoteAll, List.forall₂_nil_left_iff, Option.some.injEq, eq_comm]
  | cons e es ih =>
    simp only [denoteAll, Option.bind_eq_some_iff, Option.map_eq_some_iff,
      List.forall₂_cons_left_iff, ih]
    constructor
    · rintro ⟨d, hd, ds, hds, rfl⟩
      exact ⟨d, ds, hd, hds, rfl⟩
    · rintro ⟨d, ds, hd, hds, rfl⟩
      exact ⟨d, hd, ds, hds, rfl⟩

theorem denote_array {items : List (Expression (Exact M))} :
    (array items).denote ρ = some d ↔
      ∃ a b u v, items = [a, b] ∧ a.denote ρ = some u ∧ b.denote ρ = some v ∧ d = .pair u v := by
  rw [denote]
  constructor
  · intro h
    split at h
    · next u v huv =>
      cases h
      rw [denoteAll_eq_some] at huv
      obtain - | ⟨ha, hb⟩ := huv
      obtain - | ⟨hb, hrest⟩ := hb
      cases hrest
      exact ⟨_, _, u, v, rfl, ha, hb, rfl⟩
    · cases h
  · rintro ⟨a, b, u, v, rfl, ha, hb, rfl⟩
    rw [denoteAll_eq_some.2 (.cons ha (.cons hb .nil))]

end Expression

end Waveform
