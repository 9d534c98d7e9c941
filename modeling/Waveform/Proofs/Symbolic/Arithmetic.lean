import Waveform.Proofs.Symbolic.HigherOrder
import Waveform.Proofs.Symbolic.Typing

/-!
# Exact arithmetic

Expressions over rational numbers and truth values, evaluated with the operators of programs. A call
is a number that nothing is known of. An expression of a type has a value of that type wherever its
names stand for numbers that are not negative, and simplification keeps this value.
-/

namespace Waveform

variable {M : Mathematics}

/-- What names and calls stand for. Calls of one shape stand for one number. -/
structure Surroundings (M : Mathematics) where
  name : String → ℚ
  call : Expression (Exact M) → ℚ
  name_nonneg : ∀ n, 0 ≤ name n
  call_same : ∀ a b, a.same b = true → call a = call b

def Expression.value (ρ : Surroundings M) : Expression (Exact M) → Literal (Exact M)
  | .literal l => l
  | .identifier name => .number (.of (ρ.name name))
  | .call callee arguments => .number (.of (ρ.call (.call callee arguments)))
  | .unary op a => op.evaluate (a.value ρ)
  | .binary op a b => op.evaluate (a.value ρ) (b.value ρ)
  | .logical op a b => op.select (a.value ρ) (b.value ρ) (a.value ρ).isTruthy
  | .conditional t a b => if (t.value ρ).isTruthy then a.value ρ else b.value ρ
  | _ => .undefined

def Literal.HasType (l : Literal (Exact M)) : Ty → Prop
  | .number => ∃ q, l = .number (.of q)
  | .boolean => ∃ b, l = .boolean b

def Expression.isNonzeroNumber : Expression (Exact M) → Bool
  | .literal (.number x) => ! Numeric.isZero x
  | _ => false

/-- The type of an expression over numbers and truth values. Only a written number that is not zero
is divided by. -/
def Expression.exactType? : Expression (Exact M) → Option Ty
  | .literal (.number x) => x.value?.map fun _ => .number
  | .literal (.boolean _) => some .boolean
  | .identifier _ | .call _ _ => some .number
  | .unary op a => a.exactType?.bind op.type?
  | .binary op a b =>
    a.exactType?.bind fun s => b.exactType?.bind fun t =>
      if op = .divide then
        if s = .number ∧ b.isNonzeroNumber = true then some .number else none
      else op.type? s t
  | .logical _ a b =>
    if a.exactType? = some .boolean ∧ b.exactType? = some .boolean then some .boolean else none
  | .conditional t a b =>
    if t.exactType? = some .boolean ∧ a.exactType? = b.exactType? then a.exactType? else none
  | _ => none

namespace Surroundings

open Meaning

/-- Only literals, names and calls stand for something by themselves. -/
def leaf (ρ : Surroundings M) : Expression (Exact M) → Option (Meaning M)
  | .literal l => some (.primitive l)
  | .identifier name => some (.number (ρ.name name))
  | .call callee arguments => some (.number (ρ.call (.call callee arguments)))
  | _ => none

def semantics (ρ : Surroundings M) : Semantics M :=
  ⟨ρ.leaf, Meaning.binary⟩

variable {d : Meaning M}

theorem leaf_of_same (ρ : Surroundings M) : (a b : Expression (Exact M)) → a.same b = true →
    ρ.leaf a = ρ.leaf b
  | .literal l, b, h => by
    cases b with
    | literal m =>
      rw [Expression.same] at h
      rw [Literal.eq_of_same h]
    | _ => simp [Expression.same] at h
  | .identifier n, b, h => by
    cases b with
    | identifier m =>
      rw [Expression.same, beq_iff_eq] at h
      rw [h]
    | _ => simp [Expression.same] at h
  | .call callee as, b, h => by
    cases b with
    | call callee' bs => rw [leaf, leaf, ρ.call_same _ _ h]
    | _ => simp [Expression.same] at h
  | .builtin _, b, h | .array _, b, h | .member _ _, b, h | .unary _ _, b, h | .binary _ _ _, b, h
  | .logical _ _ _, b, h | .conditional _ _ _, b, h | .function _ _ _, b, h
  | .assignment _ _ _, b, h | .update _ _ _, b, h => by
    cases b <;> first | rfl | simp [Expression.same] at h

theorem lawful (ρ : Surroundings M) : ρ.semantics.Lawful where
  literal l := rfl
  identifier name d h := by
    cases h
    exact ⟨ρ.name name, ρ.name_nonneg name, rfl⟩
  structured e l h hl := by
    cases e with
    | array _ | function _ _ _ | builtin _ => cases hl
    | _ => cases h
  assignment op target value := rfl
  same := ρ.leaf_of_same
  total op h := rfl
  truth op u v b := isComparison_of_binary
  quotient u d := eq_of_divide_one
  fold op l m d := binary_primitives
  compare op l c v d h hv := Semantics.eq_boolean_of_compare h hv

theorem eq_value_of_denote (ρ : Surroundings M) : (e : Expression (Exact M)) → (d : Meaning M) →
    ρ.semantics.denote e = some d → d = .primitive (e.value ρ)
  | .literal l, d => by
    rintro ⟨⟩
    rfl
  | .identifier name, d => by
    rintro ⟨⟩
    rfl
  | .call callee arguments, d => by
    rintro ⟨⟩
    rfl
  | .unary op a, d => by
    intro h
    obtain ⟨u, hu, hd⟩ := Semantics.denote_unary.1 h
    rw [eq_value_of_denote ρ a u hu] at hd
    exact unary_primitive hd
  | .binary op a b, d => by
    intro h
    obtain ⟨u, v, hu, hv, hd⟩ := Semantics.denote_binary.1 h
    rw [eq_value_of_denote ρ a u hu, eq_value_of_denote ρ b v hv] at hd
    exact binary_primitives hd
  | .logical op a b, d => by
    intro h
    obtain ⟨u, hu, hcases⟩ := Semantics.denote_logical.1 h
    have ha : a.value ρ = .boolean u := (Meaning.primitive.inj (eq_value_of_denote ρ a _ hu)).symm
    have htruthy : op.decides (a.value ρ).isTruthy = op.decides u := by
      rw [ha]
      rfl
    rw [Expression.value, LogicalOperator.select, htruthy]
    obtain ⟨hdecides, -, rfl⟩ | ⟨hdecides, v, hv, rfl⟩ := hcases
    · rw [if_pos hdecides, ha]
      rfl
    · rw [hdecides, if_neg Bool.false_ne_true]
      exact eq_value_of_denote ρ b _ hv
  | .conditional t a b, d => by
    intro h
    obtain ⟨u, hu, hd⟩ := Semantics.denote_conditional.1 h
    have ht : t.value ρ = .boolean u := (Meaning.primitive.inj (eq_value_of_denote ρ t _ hu)).symm
    rw [Expression.value, ht]
    cases u with
    | true => exact eq_value_of_denote ρ a d hd
    | false => exact eq_value_of_denote ρ b d hd
  | .builtin _, _ | .array _, _ | .member _ _, _ | .function _ _ _, _ | .assignment _ _ _, _
  | .update _ _ _, _ => nofun

theorem unary_of_type? {op : UnaryOperator} {s τ : Ty} {l : Literal (Exact M)}
    (hop : op.type? s = some τ) (hl : l.HasType s) :
    ∃ r, Meaning.unary op (.primitive l) = some (.primitive r) ∧ r.HasType τ := by
  cases s with
  | number =>
    obtain ⟨p, rfl⟩ := hl
    cases op with
    | minus | plus =>
      cases hop
      exact ⟨_, rfl, _, rfl⟩
    | _ => cases hop
  | boolean =>
    obtain ⟨b, rfl⟩ := hl
    cases op with
    | not =>
      cases hop
      exact ⟨_, rfl, _, rfl⟩
    | _ => cases hop

theorem binary_of_type? {op : BinaryOperator} {s t τ : Ty} {l m : Literal (Exact M)}
    (hop : op.type? s t = some τ) (hl : l.HasType s) (hm : m.HasType t) :
    ∃ r, Meaning.binary op (.primitive l) (.primitive m) = some (.primitive r) ∧ r.HasType τ := by
  cases op with
  | strictEqual | strictNotEqual | equal | notEqual =>
    cases hop
    exact ⟨_, rfl, _, rfl⟩
  | add | subtract | multiply | lessThan | lessThanOrEqual | greaterThan | greaterThanOrEqual =>
    cases s with
    | boolean => cases hop
    | number =>
      cases t with
      | boolean => cases hop
      | number =>
        cases hop
        obtain ⟨p, rfl⟩ := hl
        obtain ⟨q, rfl⟩ := hm
        exact ⟨_, rfl, _, rfl⟩
  | _ => cases hop

theorem divide_of_isNonzeroNumber (ρ : Surroundings M) {b : Expression (Exact M)} {p : ℚ}
    {m : Literal (Exact M)} (hb : b.isNonzeroNumber = true)
    (hm : ρ.semantics.denote b = some (.primitive m)) {t : Ty} (htype : m.HasType t) :
    ∃ q : ℚ, Meaning.binary .divide (number p) (.primitive m) = some (number q) := by
  cases b with
  | literal l =>
    cases hm
    cases m with
    | number x =>
      cases t with
      | number =>
        obtain ⟨q, hq⟩ := htype
        cases hq
        rw [Expression.isNonzeroNumber, Exact.isZero_of, Bool.not_eq_true', decide_eq_false_iff_not]
          at hb
        exact ⟨p / q, if_neg hb⟩
      | boolean =>
        obtain ⟨c, hc⟩ := htype
        cases hc
    | _ => cases hb
  | _ => cases hb

theorem exists_denote (ρ : Surroundings M) : (e : Expression (Exact M)) → (τ : Ty) →
    e.exactType? = some τ → ∃ l, ρ.semantics.denote e = some (.primitive l) ∧ l.HasType τ
  | .literal l, τ => by
    intro h
    cases l with
    | number x =>
      obtain ⟨q, hq, rfl⟩ := Option.map_eq_some_iff.1 h
      obtain rfl : x = .of q := hq
      exact ⟨_, rfl, q, rfl⟩
    | boolean b =>
      cases h
      exact ⟨_, rfl, b, rfl⟩
    | _ => cases h
  | .identifier name, τ => by
    rintro ⟨⟩
    exact ⟨_, rfl, _, rfl⟩
  | .call callee arguments, τ => by
    rintro ⟨⟩
    exact ⟨_, rfl, _, rfl⟩
  | .unary op a, τ => by
    intro h
    obtain ⟨s, hs, hop⟩ := Option.bind_eq_some_iff.1 h
    obtain ⟨l, hl, htype⟩ := exists_denote ρ a s hs
    obtain ⟨r, hr, hrtype⟩ := unary_of_type? hop htype
    exact ⟨r, Semantics.denote_unary.2 ⟨_, hl, hr⟩, hrtype⟩
  | .binary op a b, τ => by
    intro h
    obtain ⟨s, hs, h⟩ := Option.bind_eq_some_iff.1 h
    obtain ⟨t, ht, h⟩ := Option.bind_eq_some_iff.1 h
    obtain ⟨l, hl, hltype⟩ := exists_denote ρ a s hs
    obtain ⟨m, hm, hmtype⟩ := exists_denote ρ b t ht
    by_cases hdivide : op = .divide
    · rw [if_pos hdivide] at h
      obtain ⟨⟨rfl, hb⟩, ⟨⟩⟩ := Option.ite_none_right_eq_some.1 h
      obtain ⟨p, rfl⟩ := hltype
      obtain ⟨q, hq⟩ := divide_of_isNonzeroNumber ρ (p := p) hb hm hmtype
      subst hdivide
      exact ⟨_, Semantics.denote_binary.2 ⟨_, _, hl, hm, hq⟩, q, rfl⟩
    · rw [if_neg hdivide] at h
      obtain ⟨r, hr, hrtype⟩ := binary_of_type? h hltype hmtype
      exact ⟨r, Semantics.denote_binary.2 ⟨_, _, hl, hm, hr⟩, hrtype⟩
  | .logical op a b, τ => by
    intro h
    obtain ⟨⟨ha, hb⟩, ⟨⟩⟩ := Option.ite_none_right_eq_some.1 h
    obtain ⟨_, hu, u, rfl⟩ := exists_denote ρ a .boolean ha
    obtain ⟨_, hv, v, rfl⟩ := exists_denote ρ b .boolean hb
    cases hdecides : op.decides u with
    | true =>
      have htruth := ρ.lawful.isTruth_of_denote b hv
      exact ⟨_, Semantics.denote_logical.2 ⟨u, hu, .inl ⟨hdecides, htruth, rfl⟩⟩, u, rfl⟩
    | false => exact ⟨_, Semantics.denote_logical.2 ⟨u, hu, .inr ⟨hdecides, v, hv, rfl⟩⟩, v, rfl⟩
  | .conditional t a b, τ => by
    intro h
    obtain ⟨⟨ht, hab⟩, ha⟩ := Option.ite_none_right_eq_some.1 h
    obtain ⟨_, hu, u, rfl⟩ := exists_denote ρ t .boolean ht
    cases u with
    | true =>
      obtain ⟨l, hl, htype⟩ := exists_denote ρ a τ ha
      exact ⟨l, Semantics.denote_conditional.2 ⟨true, hu, hl⟩, htype⟩
    | false =>
      obtain ⟨l, hl, htype⟩ := exists_denote ρ b τ (hab.symm.trans ha)
      exact ⟨l, Semantics.denote_conditional.2 ⟨false, hu, hl⟩, htype⟩
  | .builtin _, _ | .array _, _ | .member _ _, _ | .function _ _ _, _ | .assignment _ _ _, _
  | .update _ _ _, _ => nofun

end Surroundings

/-- An expression of a type has a value of that type, and the same value once simplified. -/
theorem Expression.value_simplify (ρ : Surroundings M) {e : Expression (Exact M)} {τ : Ty}
    (h : e.exactType? = some τ) :
    (e.value ρ).HasType τ ∧ e.simplify.value ρ = e.value ρ := by
  obtain ⟨l, hdenote, htype⟩ := ρ.exists_denote e τ h
  have hvalue : l = e.value ρ := Meaning.primitive.inj (ρ.eq_value_of_denote e _ hdenote)
  have hsimplified := ρ.lawful.denote_simplify hdenote
  have hvalue' : l = e.simplify.value ρ :=
    Meaning.primitive.inj (ρ.eq_value_of_denote e.simplify _ hsimplified)
  exact ⟨hvalue ▸ htype, hvalue'.symm.trans hvalue⟩

def Surroundings.ones : Surroundings .zero :=
  ⟨fun _ => 1, fun _ => 0, fun _ => by decide, fun _ _ _ => rfl⟩

/-- A choice by a range that no number is in, over a sum in two groups and a call. -/
def Expression.grouped : Expression (Exact .zero) :=
  .conditional
    (.logical .and (.binary .lessThan (.identifier "t") (.number (.of 2)))
      (.binary .greaterThan (.identifier "t") (.number (.of 3))))
    (.call (.builtin .sin) [.identifier "t"])
    (.binary .add (.number (.of 1)) (.binary .add (.number (.of 2))
      (.binary .divide (.identifier "t") (.number (.of 4)))))

theorem Expression.value_simplify_grouped :
    Expression.grouped.exactType? = some .number ∧
      (Expression.grouped.value .ones).HasType .number ∧
      Expression.grouped.simplify.value .ones = Expression.grouped.value .ones := by
  have htype : Expression.grouped.exactType? = some .number := by decide
  exact ⟨htype, Expression.value_simplify .ones htype⟩

end Waveform
