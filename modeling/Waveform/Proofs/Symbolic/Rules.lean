import Waveform.Proofs.Symbolic.Meaning

/-!
# Rules for binary operators

The rules of simplification for binary operators are sound in every faithful reading: numbers are
added, subtracted, multiplied and compared as rational numbers, a name stands for no negative
number, and operators agree with the folding of literals. Nothing is asked of the other forms of
expressions.
-/

namespace Waveform

variable {M : Mathematics}

/-- The operators that any two numbers have a value for. -/
def BinaryOperator.isTotal : BinaryOperator → Bool
  | .add | .subtract | .multiply => true
  | op => op.isOrdering

theorem BinaryOperator.isTotal_of_isAssociative {op : BinaryOperator}
    (h : op.isAssociative = true) : op.isTotal = true := by
  cases op <;> first | rfl | cases h

theorem BinaryOperator.isTotal_of_isOrdering {op : BinaryOperator}
    (h : op.isOrdering = true) : op.isTotal = true := by
  cases op <;> first | rfl | cases h

theorem BinaryOperator.isEquality_of_isTotal {op : BinaryOperator}
    (h : op.isTotal = true) : op.isEquality = false := by
  cases op <;> first | rfl | cases h

namespace Meaning

theorem arithmetic_eq {op : BinaryOperator} {a b : ℚ} {d : Meaning M}
    (h : arithmetic op a b = some d) :
    d = primitive (op.evaluate (.number (.of a)) (.number (.of b))) := by
  cases op with
  | divide =>
    rw [arithmetic] at h
    split at h
    · cases h
    · next hb =>
      cases h
      exact congrArg (fun x => primitive (.number x)) (Exact.div_of a hb).symm
  | lessThanOrEqual | greaterThanOrEqual =>
    cases h
    exact congrArg (fun x => primitive (.boolean x)) (Exact.le_of _ _).symm
  | remainder | exponent | strictEqual | strictNotEqual | equal | notEqual => cases h
  | _ =>
    cases h
    rfl

theorem numbers_of_binary {op : BinaryOperator} {a b d : Meaning M} (h : binary op a b = some d)
    (hop : op.isEquality = false) :
    ∃ x y, a = number x ∧ b = number y ∧ arithmetic op x y = some d := by
  have hbinary : binary op a b =
      a.asNumber?.bind fun x => b.asNumber?.bind fun y => arithmetic op x y := by
    cases op <;> first | rfl | cases hop
  simp only [hbinary, Option.bind_eq_some_iff, asNumber?_eq_some] at h
  obtain ⟨x, hx, y, hy, h⟩ := h
  exact ⟨x, y, hx, hy, h⟩

theorem binary_number {op : BinaryOperator} {x y : ℚ} (hop : op.isEquality = false) :
    binary op (number x : Meaning M) (number y) = arithmetic op x y := by
  cases op <;> first | rfl | cases hop

theorem eq_of_divide_one {u d : Meaning M} (h : binary .divide u (number 1) = some d) : d = u := by
  obtain ⟨x, y, rfl, hy, h⟩ := numbers_of_binary h rfl
  rw [← number_inj hy, arithmetic, if_neg one_ne_zero, div_one] at h
  exact (Option.some.inj h).symm

theorem exists_arithmetic {op : BinaryOperator} (hop : op.isTotal = true) (x y : ℚ) :
    ∃ d : Meaning M, arithmetic op x y = some d := by
  cases op <;> first | exact ⟨_, rfl⟩ | cases hop

end Meaning

namespace Simplify

open Meaning

variable {d : Meaning M}

theorem arithmetic_assoc {op : BinaryOperator} (hop : op.isAssociative = true) {p q r : ℚ}
    {v d : Meaning M} (hv : arithmetic op p q = some v)
    (hd : Meaning.binary op v (.number r) = some d) :
    (∃ s, arithmetic op p r = some (.number s : Meaning M) ∧ arithmetic op s q = some d) ∧
      ∃ s, arithmetic op q r = some (.number s : Meaning M) ∧ arithmetic op p s = some d := by
  cases op with
  | add =>
    cases hv
    cases hd
    exact ⟨⟨_, rfl, by rw [arithmetic, add_right_comm]⟩, _, rfl, by rw [arithmetic, add_assoc]⟩
  | multiply =>
    cases hv
    cases hd
    exact ⟨⟨_, rfl, by rw [arithmetic, mul_right_comm]⟩, _, rfl, by rw [arithmetic, mul_assoc]⟩
  | _ => cases hop

theorem arithmetic_regroup {op : BinaryOperator} (hop : op.isAssociative = true) {p q r : ℚ}
    {v d : Meaning M} (hv : arithmetic op q r = some v)
    (hd : Meaning.binary op (.number p) v = some d) :
    ∃ s, arithmetic op p q = some (.number s : Meaning M) ∧ arithmetic op s r = some d := by
  cases op with
  | add =>
    cases hv
    cases hd
    exact ⟨_, rfl, by rw [arithmetic, add_assoc]⟩
  | multiply =>
    cases hv
    cases hd
    exact ⟨_, rfl, by rw [arithmetic, mul_assoc]⟩
  | _ => cases hop

/-- A number that is subtracted on the left of a difference or a comparison may be added on the
right instead. -/
theorem arithmetic_shift {op : BinaryOperator} (hop : (op == .subtract || op.isOrdering) = true)
    {p q r : ℚ} (hd : Meaning.binary op (.number (p - q)) (.number r) = some d) :
    arithmetic op p (q + r) = some d := by
  cases op with
  | subtract =>
    cases hd
    rw [arithmetic, sub_sub]
  | lessThan | greaterThanOrEqual =>
    cases hd
    simp only [arithmetic, sub_lt_iff_lt_add', le_sub_iff_add_le']
  | lessThanOrEqual | greaterThan =>
    cases hd
    simp only [arithmetic, sub_le_iff_le_add', lt_sub_iff_add_lt']
  | _ => cases hop

theorem Bound.eq_false_of_excludes {upper lower : Bound (Exact M)}
    (h : upper.excludes lower = true) {p q r : ℚ} {v : Bool} (hupper : upper.value = .of q)
    (hlower : lower.value = .of r)
    (htrue : arithmetic upper.op p q = some (.boolean true : Meaning M))
    (hv : arithmetic lower.op p r = some (.boolean v : Meaning M)) : v = false := by
  obtain ⟨name, op, x⟩ := upper
  obtain ⟨name', op', y⟩ := lower
  dsimp only at hupper hlower htrue hv
  subst hupper hlower
  simp only [Bound.excludes, Exact.lt_of, Exact.eq_of, Bool.and_eq_true, Bool.or_eq_true,
    decide_eq_true_eq, beq_iff_eq] at h
  obtain ⟨-, ⟨⟨hlt, hop⟩, hop'⟩ | ⟨⟨heq, hop⟩, hop'⟩⟩ := h
  · have hle : p ≤ q := by
      rcases hop with rfl | rfl
      · exact le_of_lt (of_decide_eq_true (boolean_inj (Option.some.inj htrue)))
      · exact of_decide_eq_true (boolean_inj (Option.some.inj htrue))
    rcases hop' with rfl | rfl
    · rw [← boolean_inj (Option.some.inj hv)]
      exact decide_eq_false (not_lt.2 (hle.trans hlt.le))
    · rw [← boolean_inj (Option.some.inj hv)]
      exact decide_eq_false (not_le.2 (lt_of_le_of_lt hle hlt))
  · subst hop hop' heq
    have hlt : p < q := of_decide_eq_true (boolean_inj (Option.some.inj htrue))
    rw [← boolean_inj (Option.some.inj hv)]
    exact decide_eq_false (not_lt.2 hlt.le)

/-- What the rules for binary operators take for granted of a reading of expressions. An expression
may read as more than one thing, but for literals and names. -/
structure Faithful (Reads : Expression (Exact M) → Meaning M → Prop)
    (operate : BinaryOperator → Meaning M → Meaning M → Option (Meaning M)) : Prop where
  literal : ∀ l d, Reads (.literal l) d ↔ d = .primitive l
  identifier : ∀ name q, Reads (.identifier name) (.number q) → 0 ≤ q
  unique : ∀ name d d', Reads (.identifier name) d → Reads (.identifier name) d' → d = d'
  structured : ∀ e l, isStructure e = true → ¬ Reads e (.primitive l)
  binary : ∀ op a b d, Reads (.binary op a b) d ↔
    ∃ u v, Reads a u ∧ Reads b v ∧ operate op u v = some d
  total : ∀ op, op.isTotal = true → operate op = Meaning.binary op
  quotient : ∀ u d, operate .divide u (.number 1) = some d → d = u
  fold : ∀ op l m d, operate op (.primitive l) (.primitive m) = some d →
    d = .primitive (op.evaluate l m)
  compare : ∀ op l c v d, compareWithLiteral op l = some c → (∀ m, v ≠ .primitive m) →
    operate op (.primitive l) v = some d ∨ operate op v (.primitive l) = some d → d = .boolean c

namespace Faithful

variable {Reads : Expression (Exact M) → Meaning M → Prop}
  {operate : BinaryOperator → Meaning M → Meaning M → Option (Meaning M)}
  (hF : Faithful Reads operate) {a b : Expression (Exact M)}

include hF

theorem reads_literal (l : Literal (Exact M)) : Reads (.literal l) (.primitive l) :=
  (hF.literal l _).2 rfl

theorem reads_of_asLiteral? {l : Literal (Exact M)} (h : a.asLiteral? = some l) :
    Reads a (.primitive l) := by
  cases a with
  | literal m =>
    cases h
    exact hF.reads_literal l
  | _ => cases h

theorem eq_of_asLiteral? {l : Literal (Exact M)} (h : a.asLiteral? = some l) (hd : Reads a d) :
    d = .primitive l := by
  cases a with
  | literal m =>
    cases h
    exact (hF.literal l d).1 hd
  | _ => cases h

theorem reads_number_zero : Reads (.number Numeric.zero) (.number 0) := by
  rw [Expression.number, hF.literal, Exact.zero_eq]
  rfl

theorem eq_of_asNumber? {x : Exact M} (h : a.asNumber? = some x) (hd : Reads a d) :
    d = .primitive (.number x) := by
  refine hF.eq_of_asLiteral? ?_ hd
  cases a with
  | literal m =>
    cases m with
    | number y =>
      cases h
      rfl
    | _ => cases h
  | _ => cases h

theorem eq_of_of_reads {x : Exact M} {q : ℚ} (h : a.asNumber? = some x)
    (hq : Reads a (.number q)) : x = .of q := by
  have heq := hF.eq_of_asNumber? h hq
  injection heq with heq
  injection heq with heq
  exact heq.symm

theorem numbers_of_operate {op : BinaryOperator} {u v : Meaning M} (h : operate op u v = some d)
    (hop : op.isTotal = true) :
    ∃ x y, u = number x ∧ v = number y ∧ arithmetic op x y = some d := by
  rw [hF.total op hop] at h
  exact numbers_of_binary h (BinaryOperator.isEquality_of_isTotal hop)

theorem reads_arithmetic {op : BinaryOperator} {p q : ℚ} (hop : op.isTotal = true)
    (ha : Reads a (.number p)) (hb : Reads b (.number q))
    (h : arithmetic op p q = some d) : Reads (.binary op a b) d := by
  refine (hF.binary ..).2 ⟨_, _, ha, hb, ?_⟩
  rw [hF.total op hop, binary_number (BinaryOperator.isEquality_of_isTotal hop), h]

theorem reads_fold {op : BinaryOperator} {p q : ℚ} (h : arithmetic op p q = some d) :
    Reads (Simplify.fold op (.of p) (.of q)) d := by
  rw [Simplify.fold, hF.literal, ← arithmetic_eq h]

theorem reads_compareWithPrimitive {op : BinaryOperator} {c : Bool}
    (h : compareWithPrimitive op a b = some c) (hd : Reads (.binary op a b) d) :
    d = .boolean c := by
  obtain ⟨u, v, hu, hv, hd⟩ := (hF.binary ..).1 hd
  unfold compareWithPrimitive at h
  split at h
  · next l =>
    split at h
    · next hstructure =>
      obtain rfl := (hF.literal l u).1 hu
      have hv' (m : Literal (Exact M)) (hm : v = .primitive m) : False :=
        hF.structured _ m hstructure (hm ▸ hv)
      exact hF.compare op l c v d h hv' (.inl hd)
    · cases h
  · next l _ =>
    split at h
    · next hstructure =>
      obtain rfl := (hF.literal l v).1 hv
      have hu' (m : Literal (Exact M)) (hm : u = .primitive m) : False :=
        hF.structured _ m hstructure (hm ▸ hu)
      exact hF.compare op l c u d h hu' (.inr hd)
    · cases h
  · cases h

theorem reads_withLeftNumber {op : BinaryOperator} {x : Exact M} {v : Meaning M}
    {e : Expression (Exact M)} (h : withLeftNumber op x b = some e) (hv : Reads b v)
    (hd : operate op (.primitive (.number x)) v = some d) : Reads e d := by
  cases op with
  | add =>
    obtain ⟨p, q, hp, rfl, hpq⟩ := hF.numbers_of_operate hd rfl
    cases hp
    cases hpq
    simp only [withLeftNumber, Exact.isZero_of, decide_eq_true_eq] at h
    obtain ⟨rfl, h⟩ := Option.ite_none_right_eq_some.1 h
    cases h
    rwa [zero_add]
  | multiply =>
    obtain ⟨p, q, hp, rfl, hpq⟩ := hF.numbers_of_operate hd rfl
    cases hp
    cases hpq
    simp only [withLeftNumber, Exact.isZero_of, Exact.isOne_of, decide_eq_true_eq] at h
    split at h
    · next hzero =>
      cases h
      rw [hzero, zero_mul]
      exact hF.reads_number_zero
    · obtain ⟨rfl, h⟩ := Option.ite_none_right_eq_some.1 h
      cases h
      rwa [one_mul]
  | _ => cases h

theorem reads_withRightNumber {op : BinaryOperator} {x : Exact M} {u : Meaning M}
    {e : Expression (Exact M)} (h : withRightNumber op a x = some e) (hu : Reads a u)
    (hd : operate op u (.primitive (.number x)) = some d) : Reads e d := by
  cases op with
  | add | subtract =>
    obtain ⟨p, q, rfl, hq, hpq⟩ := hF.numbers_of_operate hd rfl
    cases hq
    cases hpq
    simp only [withRightNumber, Exact.isZero_of, decide_eq_true_eq] at h
    obtain ⟨rfl, h⟩ := Option.ite_none_right_eq_some.1 h
    cases h
    simpa using hu
  | multiply =>
    obtain ⟨p, q, rfl, hq, hpq⟩ := hF.numbers_of_operate hd rfl
    cases hq
    cases hpq
    simp only [withRightNumber, Exact.isZero_of, Exact.isOne_of, decide_eq_true_eq] at h
    split at h
    · next hzero =>
      cases h
      rw [hzero, mul_zero]
      exact hF.reads_number_zero
    · obtain ⟨rfl, h⟩ := Option.ite_none_right_eq_some.1 h
      cases h
      rwa [mul_one]
  | divide =>
    obtain ⟨hone, h⟩ := Option.ite_none_right_eq_some.1 h
    cases h
    obtain rfl := Exact.isOne_iff.1 hone
    rwa [hF.quotient u d hd]
  | lessThan =>
    obtain ⟨p, q, rfl, hq, hpq⟩ := hF.numbers_of_operate hd rfl
    cases hq
    cases hpq
    cases a with
    | identifier name =>
      simp only [withRightNumber, Exact.isZero_of, decide_eq_true_eq] at h
      obtain ⟨rfl, h⟩ := Option.ite_none_right_eq_some.1 h
      cases h
      rw [Expression.boolean, hF.literal, decide_eq_false (not_lt.2 (hF.identifier name p hu))]
      rfl
    | _ => cases h
  | _ => cases h

theorem reads_mergeNumbers {op inner : BinaryOperator} {x : Exact M} {u : Meaning M}
    {e : Expression (Exact M)} (h : mergeNumbers op inner a b x = some e)
    (hu : Reads (.binary inner a b) u)
    (hd : operate op u (.primitive (.number x)) = some d) : Reads e d := by
  obtain ⟨v, w, hv, hw, hu⟩ := (hF.binary ..).1 hu
  unfold mergeNumbers at h
  split at h
  · next hop =>
    rw [Bool.and_eq_true, beq_iff_eq] at hop
    obtain ⟨rfl, hassociative⟩ := hop
    have hplain := BinaryOperator.isTotal_of_isAssociative hassociative
    obtain ⟨-, r, -, hr, -⟩ := hF.numbers_of_operate hd hplain
    cases hr
    obtain ⟨p, q, rfl, rfl, hpq⟩ := hF.numbers_of_operate hu hplain
    rw [hF.total _ hplain] at hd
    obtain ⟨⟨s, hs, hsq⟩, t, ht, hpt⟩ := arithmetic_assoc hassociative hpq hd
    split at h
    · next l hl =>
      cases h
      obtain rfl := hF.eq_of_of_reads hl hv
      exact hF.reads_arithmetic hplain (hF.reads_fold hs) hw hsq
    · next l _ hl =>
      cases h
      obtain rfl := hF.eq_of_of_reads hl hw
      exact hF.reads_arithmetic hplain hv (hF.reads_fold ht) hpt
    · cases h
  · split at h
    · next r hr =>
      obtain ⟨hcondition, hmerged⟩ := Option.ite_none_right_eq_some.1 h
      cases hmerged
      rw [Bool.and_eq_true, beq_iff_eq] at hcondition
      obtain ⟨rfl, hop⟩ := hcondition
      have hplain : op.isTotal = true := by
        cases op <;> first | rfl | cases hop
      obtain ⟨-, s, -, hs, -⟩ := hF.numbers_of_operate hd hplain
      cases hs
      obtain ⟨p, q, rfl, rfl, hpq⟩ := hF.numbers_of_operate hu rfl
      cases hpq
      obtain rfl := hF.eq_of_of_reads hr hw
      rw [hF.total _ hplain] at hd
      exact hF.reads_arithmetic hplain hv (hF.reads_fold rfl) (arithmetic_shift hop hd)
    · cases h

theorem reads_finishBinary {op : BinaryOperator} (h : Reads (.binary op a b) d) :
    Reads (finishBinary op a b) d := by
  obtain ⟨u, v, hu, hv, hd⟩ := (hF.binary ..).1 h
  unfold finishBinary
  split
  · exact h
  · next x hx =>
    obtain rfl := hF.eq_of_asNumber? hx hv
    split
    · next e he => exact hF.reads_withRightNumber he hu hd
    · split
      · next inner l r _ =>
        cases hmerge : mergeNumbers op inner l r x with
        | none => exact h
        | some e => exact hF.reads_mergeNumbers hmerge hu hd
      · exact h

/-- A chain that is grouped to the right comes to the same when it is grouped to the left. -/
theorem reads_regroup {op : BinaryOperator} (hop : op.isAssociative = true)
    {l r : Expression (Exact M)} (h : Reads (.binary op a (.binary op l r)) d) :
    ∃ s t, Reads (.binary op a l) (.number s) ∧ Reads r (.number t) ∧
      arithmetic op s t = some d := by
  have htotal := BinaryOperator.isTotal_of_isAssociative hop
  obtain ⟨u, v, hu, hv, hd⟩ := (hF.binary ..).1 h
  obtain ⟨x, y, hx, hy, hxy⟩ := (hF.binary ..).1 hv
  obtain ⟨q, t, rfl, rfl, hqt⟩ := hF.numbers_of_operate hxy htotal
  obtain ⟨p, -, rfl, -, -⟩ := hF.numbers_of_operate hd htotal
  rw [hF.total _ htotal] at hd
  obtain ⟨s, hs, hst⟩ := arithmetic_regroup hop hqt hd
  exact ⟨s, t, hF.reads_arithmetic htotal hu hx hs, hy, hst⟩

/-- A binary operation keeps its reading, if the first half of a regrouped chain keeps its own. -/
theorem reads_binary_rule {op : BinaryOperator}
    {again : Expression (Exact M) → Expression (Exact M)}
    (hagain : ∀ l r, b = .binary op l r → op.isAssociative = true → ∀ d,
      Reads (.binary op a l) d → Reads (again (.binary op a l)) d)
    (h : Reads (.binary op a b) d) : Reads (Simplify.binary again op a b) d := by
  obtain ⟨u, v, hu, hv, hd⟩ := (hF.binary ..).1 h
  unfold Simplify.binary
  split
  · next l m hl hm =>
    obtain rfl := hF.eq_of_asLiteral? hl hu
    obtain rfl := hF.eq_of_asLiteral? hm hv
    rw [hF.literal]
    exact hF.fold op l m d hd
  · split
    · next c hc =>
      rw [hF.reads_compareWithPrimitive hc h]
      exact hF.reads_literal _
    · split
      · next e he =>
        obtain ⟨x, hx, he⟩ := Option.bind_eq_some_iff.1 he
        obtain rfl := hF.eq_of_asNumber? hx hu
        exact hF.reads_withLeftNumber he hv hd
      · split
        · next inner l r _ _ _ =>
          split
          · next hop =>
            rw [Bool.and_eq_true, beq_iff_eq] at hop
            obtain ⟨rfl, hassociative⟩ := hop
            obtain ⟨s, t, hs, ht, hst⟩ := hF.reads_regroup hassociative h
            have hfirst := hagain l r rfl hassociative _ hs
            have htotal := BinaryOperator.isTotal_of_isAssociative hassociative
            exact hF.reads_arithmetic htotal hfirst ht hst
          · exact hF.reads_finishBinary h
        · exact hF.reads_finishBinary h

theorem reads_bound {β : Bound (Exact M)} (h : Bound.of? a = some β) (hd : Reads a d) :
    ∃ p q, Reads (.identifier β.name) (.number p) ∧ β.value = .of q ∧
      arithmetic β.op p q = some d := by
  unfold Bound.of? at h
  split at h
  · next op name x =>
    obtain ⟨hop, h⟩ := Option.ite_none_right_eq_some.1 h
    cases h
    obtain ⟨u, v, hu, hv, hd⟩ := (hF.binary ..).1 hd
    obtain ⟨p, q, rfl, rfl, hpq⟩ :=
      hF.numbers_of_operate hd (BinaryOperator.isTotal_of_isOrdering hop)
    exact ⟨p, q, hu, hF.eq_of_of_reads rfl hv, hpq⟩
  · cases h

theorem boolean_of_bound {β : Bound (Exact M)} (h : Bound.of? a = some β) (hd : Reads a d) :
    ∃ w, d = .boolean w := by
  unfold Bound.of? at h
  split at h
  · next op name x =>
    obtain ⟨hop, -⟩ := Option.ite_none_right_eq_some.1 h
    obtain ⟨u, v, -, -, hd⟩ := (hF.binary ..).1 hd
    obtain ⟨p, q, -, -, hpq⟩ :=
      hF.numbers_of_operate hd (BinaryOperator.isTotal_of_isOrdering hop)
    cases op with
    | lessThan | lessThanOrEqual | greaterThan | greaterThanOrEqual =>
      exact ⟨_, (Option.some.inj hpq).symm⟩
    | _ => cases hop
  · cases h

theorem boolean_of_excludes {upper lower : Bound (Exact M)} (h : upper.excludes lower = true)
    (hupper : Bound.of? a = some upper) (hlower : Bound.of? b = some lower)
    (hb : Reads b d) : ∃ w, Reads a (.boolean w) := by
  obtain ⟨p, -, hp, -, -⟩ := hF.reads_bound hlower hb
  unfold Bound.of? at hupper
  split at hupper
  · next op name x =>
    obtain ⟨hop, hbound⟩ := Option.ite_none_right_eq_some.1 hupper
    cases hbound
    simp only [Bound.excludes, Bool.and_eq_true, beq_iff_eq] at h
    obtain ⟨rfl, h⟩ := h
    cases x with
    | none => cases lower.value <;> cases h
    | some q =>
      have htotal := BinaryOperator.isTotal_of_isOrdering hop
      obtain ⟨w, hw⟩ : ∃ w, arithmetic op p q = some (.boolean w : Meaning M) := by
        cases op with
        | lessThan | lessThanOrEqual | greaterThan | greaterThanOrEqual => exact ⟨_, rfl⟩
        | _ => cases hop
      exact ⟨w, hF.reads_arithmetic htotal hp (hF.reads_literal _) hw⟩
  · cases hupper

theorem eq_false_of_excludes {upper lower : Bound (Exact M)} (h : upper.excludes lower = true)
    (hupper : Bound.of? a = some upper) (hlower : Bound.of? b = some lower)
    (ha : Reads a (.boolean true)) {v : Bool} (hb : Reads b (.boolean v)) : v = false := by
  obtain ⟨p, q, hp, hq, hpq⟩ := hF.reads_bound hupper ha
  obtain ⟨p', r, hp', hr, hpr⟩ := hF.reads_bound hlower hb
  have hname : upper.name = lower.name := by
    rw [Bound.excludes, Bool.and_eq_true, beq_iff_eq] at h
    exact h.1
  rw [hname] at hp
  obtain rfl := number_inj (hF.unique _ _ _ hp hp')
  exact Bound.eq_false_of_excludes h hq hr hpq hpr

end Faithful

end Simplify

end Waveform
