import Waveform.Proofs.Inlining.Reading
import Waveform.Proofs.Symbolic.Simplification
import Waveform.Proofs.Symbolic.Supposing

/-!
# Symbolic readings

A residual expression reads as a value when it denotes the value, given the numbers that the
parameters stand for. Runs are typed: operators meet operands that they denote something for, tests
and both sides of logical operators are truth values, and choices are made between numbers and
truth values.
-/

namespace Waveform

variable {M : Mathematics}

namespace Value

theorem IsScalar.isPrimitive {v : Value (Exact M)} (h : v.IsScalar) : v.IsPrimitive := by
  obtain ⟨q, rfl⟩ | ⟨b, rfl⟩ := h
  · exact ⟨_, rfl⟩
  · exact ⟨_, rfl⟩

end Value

/-- Typed runs. No pair is compared with itself. A right side that is not run has to be supposed to
be a truth value, unless it would come to one. Functions are only made in higher-order runs, and
branches are only taken in others. -/
def Discipline.typed (higherOrder : Prop) : Discipline (Exact M) where
  strict := True
  name _ _ _ := True
  function := higherOrder
  unary op v := ∃ d, Meaning.unary op (.ofValue v) = some d
  binary op u v :=
    u.isOnePair v = false ∧ ∃ d, Meaning.binary op (.ofValue u) (.ofValue v) = some d
  test v := v.IsBoolean
  right v := v.IsBoolean
  unrun env e s := higherOrder ∧ e.SupposesTruth env s
  chosen v := v.IsScalar
  member _ u v := ∃ i head tail q, u = .pair i head tail ∧ v = .number (.of q)
  builtin b args := b ≠ .random ∧ (b.isMath = true → ∀ v ∈ args, v.IsNumber)
  update v := v.IsNumber
  branch v := ¬ higherOrder ∧ v.IsBoolean
  result v := higherOrder ∨ v.IsScalar
  alone s := s.isDeclaration = false
  loop _ := False
  frame _ _ := True

namespace Meaning

theorem ofValue_eq_primitive {v : Value (Exact M)} {l : Literal (Exact M)}
    (h : ofValue v = primitive l) : v = .primitive l := by
  cases v with
  | primitive m =>
    cases h
    rfl
  | _ => cases h

theorem ofValue_eq_number {v : Value (Exact M)} {q : ℚ} (h : ofValue v = number q) :
    v = .number (.of q) :=
  ofValue_eq_primitive h

theorem ofValue_eq_boolean {v : Value (Exact M)} {b : Bool} (h : ofValue v = boolean b) :
    v = .boolean b :=
  ofValue_eq_primitive h

theorem unary_scalar {op : UnaryOperator} {a d : Meaning M} (h : unary op a = some d) :
    (∃ q, d = number q) ∨ ∃ b, d = boolean b := by
  cases op with
  | minus | plus =>
    obtain ⟨q, -, rfl⟩ := Option.map_eq_some_iff.1 h
    exact .inl ⟨_, rfl⟩
  | not =>
    obtain ⟨b, -, rfl⟩ := Option.map_eq_some_iff.1 h
    exact .inr ⟨_, rfl⟩
  | typeOf => cases h

theorem arithmetic_scalar {op : BinaryOperator} {p q : ℚ} {d : Meaning M}
    (h : arithmetic op p q = some d) : (∃ q, d = number q) ∨ ∃ b, d = boolean b := by
  cases op with
  | divide =>
    rw [arithmetic] at h
    split at h
    · cases h
    · cases h
      exact .inl ⟨_, rfl⟩
  | add | subtract | multiply =>
    cases h
    exact .inl ⟨_, rfl⟩
  | lessThan | lessThanOrEqual | greaterThan | greaterThanOrEqual =>
    cases h
    exact .inr ⟨_, rfl⟩
  | _ => cases h

theorem binary_scalar {op : BinaryOperator} {a b d : Meaning M} (h : binary op a b = some d) :
    (∃ q, d = number q) ∨ ∃ b, d = boolean b := by
  cases hop : op.isEquality with
  | false =>
    obtain ⟨p, q, -, -, hpq⟩ := numbers_of_binary h hop
    exact arithmetic_scalar hpq
  | true =>
    cases op with
    | strictEqual | strictNotEqual | equal | notEqual =>
      obtain ⟨c, -, rfl⟩ := Option.map_eq_some_iff.1 h
      exact .inr ⟨_, rfl⟩
    | _ => cases hop

theorem isScalar_of_ofValue {v : Value (Exact M)}
    (h : (∃ q, ofValue v = number q) ∨ ∃ b, ofValue v = boolean b) : v.IsScalar := by
  obtain ⟨q, h⟩ | ⟨b, h⟩ := h
  · exact .inl ⟨q, ofValue_eq_number h⟩
  · exact .inr ⟨b, ofValue_eq_boolean h⟩

theorem unary_ofValue {op : UnaryOperator} {v : Value (Exact M)} {d : Meaning M}
    (h : unary op (ofValue v) = some d) : d = ofValue (op.apply v) := by
  cases op with
  | minus | plus =>
    obtain ⟨q, hq, rfl⟩ := Option.map_eq_some_iff.1 h
    rw [asNumber?_eq_some] at hq
    rw [ofValue_eq_number hq]
    rfl
  | not =>
    obtain ⟨b, hb, rfl⟩ := Option.map_eq_some_iff.1 h
    rw [asBoolean?_eq_some] at hb
    rw [ofValue_eq_boolean hb]
    rfl
  | typeOf => cases h

theorem equals?_ofValue {loosely r : Bool} {u v : Value (Exact M)} (hother : u.isOnePair v = false)
    (h : equals? loosely (ofValue u) (ofValue v) = some r) :
    (if loosely then u.looselyEqual v else u.same v) = r := by
  cases u <;> cases v <;> cases loosely <;>
    simp_all [ofValue, equals?, Value.looselyEqual, Value.same, Value.isOnePair]

theorem binary_ofValue {op : BinaryOperator} {u v : Value (Exact M)} {d : Meaning M}
    (hother : u.isOnePair v = false) (h : binary op (ofValue u) (ofValue v) = some d) :
    d = ofValue (op.apply u v) := by
  cases hop : op.isEquality with
  | false =>
    obtain ⟨p, q, hp, hq, hpq⟩ := numbers_of_binary h hop
    rw [ofValue_eq_number hp, ofValue_eq_number hq, arithmetic_eq hpq]
    cases op with
    | strictEqual | strictNotEqual | equal | notEqual => cases hop
    | _ => rfl
  | true =>
    cases op with
    | strictEqual | strictNotEqual | equal | notEqual =>
      obtain ⟨r, hr, rfl⟩ := Option.map_eq_some_iff.1 h
      rw [← equals?_ofValue hother hr]
      rfl
    | _ => cases hop

theorem exists_numbers {args : List (Value (Exact M))} (h : ∀ v ∈ args, v.IsNumber) :
    ∃ qs : List ℚ, (args.map ofValue).mapM asNumber? = some qs := by
  induction args with
  | nil => exact ⟨[], rfl⟩
  | cons v vs ih =>
    obtain ⟨q, rfl⟩ := h v (List.mem_cons_self ..)
    obtain ⟨qs, hqs⟩ := ih fun w hw => h w (List.mem_cons_of_mem _ hw)
    refine ⟨q :: qs, ?_⟩
    rw [List.map_cons, List.mapM_cons, hqs]
    rfl

theorem map_toNumber {vs : List (Value (Exact M))} {qs : List ℚ}
    (h : (vs.map ofValue).mapM asNumber? = some qs) : vs.map Value.toNumber = qs.map .of := by
  induction vs generalizing qs with
  | nil =>
    cases h
    rfl
  | cons v vs ih =>
    rw [List.map_cons, List.mapM_cons] at h
    obtain ⟨q, hq, h⟩ := Option.bind_eq_some_iff.1 h
    obtain ⟨qs, hqs, h⟩ := Option.bind_eq_some_iff.1 h
    cases h
    rw [List.map_cons, List.map_cons, ih hqs, ofValue_eq_number (asNumber?_eq_some.1 hq)]
    rfl

theorem outcome_of_call {b : Builtin} {vs : List (Value (Exact M))} {d : Meaning M}
    (h : call b (vs.map ofValue) = some d) (s : Store (Exact M)) :
    ∃ q, d = .number q ∧ (Run.applyBuiltin b vs).outcome s = (.ok (.number (.of q)), s) := by
  unfold call at h
  obtain ⟨hb, h⟩ := Option.ite_none_right_eq_some.1 h
  obtain ⟨qs, hqs, rfl⟩ := Option.map_eq_some_iff.1 h
  obtain ⟨hmath, hdeterministic⟩ := Bool.and_eq_true_iff.1 hb
  refine ⟨M.function b qs, rfl, ?_⟩
  rw [Run.applyBuiltin_math (by rintro rfl; cases hmath) (by rintro rfl; cases hmath)
    (by rintro rfl; cases hdeterministic), map_toNumber hqs, Exact.apply_of hmath hdeterministic]
  rfl

end Meaning

namespace Reading

variable {ρ : Valuation} {higherOrder : Prop}

/-- A residual expression reads as what it denotes. What is no primitive was asked for by an index
that is not known. -/
def symbolic (ρ : Valuation) (higherOrder : Prop) : Reading (Exact M) where
  discipline := .typed higherOrder
  higherOrder := higherOrder
  Reads e v := e.denote ρ = some (.ofValue v) ∧ (v.IsPrimitive ∨ ∃ o p, e = .member o p)
  Unrun e := e.isTruth ρ = true

theorem denote_of_models {home : Nat → Environment → Prop} {e : Expression (Exact M)}
    {v : Value (Exact M)} (h : (symbolic ρ higherOrder).Models home e v) :
    e.denote ρ = some (.ofValue v) := by
  induction h with
  | residual h => exact h.1
  | builtin _ | closure _ => rw [Expression.denote, Meaning.ofValue]
  | pair i _ _ iha ihb =>
    rw [Expression.denote, Expression.denoteAll, Expression.denoteAll, Expression.denoteAll, iha,
      ihb]
    rfl

theorem denoteAll_of_models {es : List (Expression (Exact M))} {vs : List (Value (Exact M))}
    (h : List.Forall₂ (symbolic ρ higherOrder).Depicts es vs) :
    Expression.denoteAll ρ es = some (vs.map .ofValue) := by
  induction h with
  | nil => rw [Expression.denoteAll, List.map_nil]
  | cons hm _ ih =>
    rw [Expression.denoteAll, denote_of_models hm, ih]
    rfl

/-- A residual expression that denotes a number or a truth value reads as it once simplified. -/
theorem reads_simplify (hρ : ∀ name q, ρ name = some q → 0 ≤ q) {e : Expression (Exact M)}
    {v : Value (Exact M)} (h : e.denote ρ = some (.ofValue v)) (hv : v.IsScalar) :
    (symbolic ρ higherOrder).Reads e.simplify v :=
  ⟨Expression.denote_simplify hρ h, .inl hv.isPrimitive⟩

theorem reads_literal (l : Literal (Exact M)) :
    (symbolic ρ higherOrder).Reads (.literal l) (.primitive l) := by
  refine ⟨?_, .inl ⟨l, rfl⟩⟩
  rw [Expression.denote, Meaning.ofValue]

theorem reads_binary (hρ : ∀ name q, ρ name = some q → 0 ≤ q) {op : BinaryOperator}
    {a b : Expression (Exact M)} {u v : Value (Exact M)}
    (hd : (Discipline.typed higherOrder).binary op u v)
    (ha : (symbolic ρ higherOrder).Depicts a u)
    (hb : (symbolic ρ higherOrder).Depicts b v) :
    (symbolic ρ higherOrder).Reads (Expression.binary op a b).simplify (op.apply u v) := by
  obtain ⟨hother, d, hd⟩ := hd
  obtain rfl := Meaning.binary_ofValue hother hd
  exact reads_simplify hρ
    (Expression.denote_binary.2 ⟨_, _, denote_of_models ha, denote_of_models hb, hd⟩)
    (Meaning.isScalar_of_ofValue (Meaning.binary_scalar hd))

theorem reads_logical (hρ : ∀ name q, ρ name = some q → 0 ≤ q) {op : LogicalOperator}
    {a b : Expression (Exact M)} {u v : Value (Exact M)} (hu : u.IsBoolean)
    (ha : (symbolic ρ higherOrder).Depicts a u)
    (hright : op.decides u.isTruthy = false →
      v.IsBoolean ∧ (symbolic ρ higherOrder).Depicts b v)
    (hdecided : op.decides u.isTruthy = true → b.isBoolean = true ∨
      (∃ w : Value (Exact M), w.IsBoolean ∧ (symbolic ρ higherOrder).Depicts b w) ∨
        b.isTruth ρ = true) :
    (symbolic ρ higherOrder).Reads (Expression.logical op a b).simplify
      (op.select u v u.isTruthy) := by
  obtain ⟨u, rfl⟩ := hu
  change op.decides u = false → _ at hright
  change op.decides u = true → _ at hdecided
  change (symbolic ρ higherOrder).Reads _ (if op.decides u = true then _ else v)
  cases hdecides : op.decides u with
  | true =>
    refine reads_simplify hρ (Expression.denote_logical.2
      ⟨u, denote_of_models ha, .inl ⟨hdecides, ?_, rfl⟩⟩) (.inr ⟨u, rfl⟩)
    obtain hform | ⟨w, ⟨w, rfl⟩, hw⟩ | htruth := hdecided hdecides
    · exact Expression.isTruth_of_isBoolean hρ hform
    · exact Expression.isTruth_of_denote hρ (denote_of_models hw)
    · exact htruth
  | false =>
    obtain ⟨⟨v, rfl⟩, hb⟩ := hright hdecides
    exact reads_simplify hρ (Expression.denote_logical.2
      ⟨u, denote_of_models ha, .inr ⟨hdecides, v, denote_of_models hb, rfl⟩⟩) (.inr ⟨v, rfl⟩)

theorem denote_conditional_of_models {t a b : Expression (Exact M)} {u v : Value (Exact M)}
    (hu : u.IsBoolean) (ht : (symbolic ρ higherOrder).Depicts t u)
    (ha : u.isTruthy = true → (symbolic ρ higherOrder).Depicts a v)
    (hb : u.isTruthy = false → (symbolic ρ higherOrder).Depicts b v) :
    (Expression.conditional t a b).denote ρ = some (.ofValue v) := by
  obtain ⟨u, rfl⟩ := hu
  refine Expression.denote_conditional.2 ⟨u, denote_of_models ht, ?_⟩
  cases u with
  | true => exact denote_of_models (ha rfl)
  | false => exact denote_of_models (hb rfl)

theorem outcome_member (i : Nat) (head tail : Value (Exact M)) (q : ℚ) (s : Store (Exact M)) :
    (Run.member (.pair i head tail) (.number (.of q))).outcome s =
      (.ok (Value.entry head tail q), s) := by
  rw [Run.member, Value.number, Value.asNumber?, Value.entry]
  simp only [Exact.isZero_of, Exact.isOne_of, decide_eq_true_eq]
  split
  · rfl
  · split <;> rfl

theorem entry?_ofValue (head tail : Value (Exact M)) (q : ℚ) :
    Meaning.entry? (.pair (.ofValue head) (.ofValue tail)) (.number q) =
      some (.ofValue (Value.entry head tail q)) := by
  rw [Meaning.number, Meaning.entry?, Value.entry]
  simp only [Exact.isZero_of, Exact.isOne_of, decide_eq_true_eq]
  split
  · rfl
  · split <;> rfl

theorem reads_member {a b : Expression (Exact M)} {i : Nat} {head tail : Value (Exact M)} {q : ℚ}
    (ha : (symbolic ρ higherOrder).Depicts a (.pair i head tail))
    (hb : (symbolic ρ higherOrder).Depicts b (.number (.of q))) (s : Store (Exact M)) :
    (Run.member (.pair i head tail) (.number (.of q))).Ensures True s fun w t =>
      t = s ∧ (symbolic ρ higherOrder).Reads (.member a b) w := by
  refine .of_outcome (outcome_member i head tail q s) ⟨rfl, ?_, .inr ⟨a, b, rfl⟩⟩
  rw [Expression.denote, denote_of_models ha, denote_of_models hb]
  exact entry?_ofValue head tail q

theorem reads_call {b : Builtin} {arguments : List (Expression (Exact M))}
    {args : List (Value (Exact M))} (hlength : b ≠ .length) (hlist : b ≠ .list)
    (hrandom : b ≠ .random) (hargs : b.isMath = true → ∀ v ∈ args, v.IsNumber)
    (h : List.Forall₂ (symbolic ρ higherOrder).Depicts arguments args)
    (s : Store (Exact M)) :
    (Run.applyBuiltin b args).Ensures True s fun w t =>
      t = s ∧ (symbolic ρ higherOrder).Reads (.call (.builtin b) arguments) w := by
  obtain ⟨hmath, hdeterministic⟩ : b.isMath = true ∧ b.isDeterministic = true := by
    cases b with
    | length => exact absurd rfl hlength
    | list => exact absurd rfl hlist
    | random => exact absurd rfl hrandom
    | _ => exact ⟨rfl, rfl⟩
  obtain ⟨qs, hqs⟩ := Meaning.exists_numbers (hargs hmath)
  have hcall : Meaning.call b (args.map .ofValue) = some (.number (M.function b qs)) := by
    rw [Meaning.call, hmath, hdeterministic, hqs]
    rfl
  obtain ⟨q, hq, houtcome⟩ := Meaning.outcome_of_call hcall s
  refine .of_outcome houtcome ⟨rfl, ?_, .inl ⟨_, rfl⟩⟩
  rw [Expression.denote, denoteAll_of_models h, Option.bind_some, hcall, hq]
  rfl

theorem symbolic.sound (hρ : ∀ name q, ρ name = some q → 0 ≤ q) :
    (symbolic ρ higherOrder : Reading (Exact M)).Sound where
  indexed := inferInstance
  plain := by
    rintro e v ⟨hd, ⟨l, rfl⟩ | ⟨o, p, rfl⟩⟩
    · exact Bool.eq_false_iff.2 fun h => Simplify.denote_isStructure h hd
    · rfl
  literal := reads_literal
  literal_inj := by
    rintro l v ⟨hd, -⟩
    rw [Expression.denote, Option.some.injEq] at hd
    exact Meaning.ofValue_eq_primitive hd.symm
  simplify := by
    rintro e v ⟨hd, hform⟩
    refine ⟨Expression.denote_simplify hρ hd, ?_⟩
    obtain hv | ⟨o, p, rfl⟩ := hform
    · exact .inl hv
    · exact .inr ⟨o, p, rfl⟩
  unary := by
    rintro op a v ⟨d, hd⟩ ha
    obtain rfl := Meaning.unary_ofValue hd
    exact reads_simplify hρ (Expression.denote_unary.2 ⟨_, denote_of_models ha, hd⟩)
      (Meaning.isScalar_of_ofValue (Meaning.unary_scalar hd))
  binary := reads_binary hρ
  number := by
    rintro e v ⟨q, rfl⟩ he
    exact reads_simplify hρ (Expression.denote_unary.2 ⟨_, denote_of_models he, rfl⟩)
      (.inl ⟨q, rfl⟩)
  update := by
    rintro op e v ⟨q, rfl⟩ he
    refine reads_binary hρ ⟨rfl, ?_⟩ he (.residual (reads_literal _))
    rw [Exact.one_eq]
    cases op <;> exact ⟨_, rfl⟩
  strict _ _ _ := trivial
  logical _ hu ha hright hdecided := reads_logical hρ hu ha hright hdecided
  conditional := by
    rintro t a b u v - (⟨hu, hv⟩ | ⟨⟨hfirst, hu⟩, hv⟩) ht ha hb
    · exact reads_simplify hρ (denote_conditional_of_models hu ht ha hb) hv
    · refine ⟨Expression.denote_simplify hρ (denote_conditional_of_models hu ht ha hb), .inl ?_⟩
      obtain (hhigher | hv) | rfl := hv
      · exact absurd hhigher hfirst
      · exact hv.isPrimitive
      · exact ⟨_, rfl⟩
  member := by
    rintro written a b u v ⟨i, head, tail, q, rfl, rfl⟩ ha hb - - s
    exact reads_member ha hb s
  call := by
    rintro b arguments args ⟨hrandom, hnumbers⟩ h hlength hlist - s
    exact reads_call hlength hlist hrandom hnumbers h s
  known := by
    rintro t u hhigher ⟨hfirst, -⟩ -
    exact absurd hhigher hfirst
  function h := h
  alone h := h
  loop _ h := h

end Reading

end Waveform
