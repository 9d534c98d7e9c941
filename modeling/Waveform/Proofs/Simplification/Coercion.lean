import Waveform.Proofs.Inlining.Known
import Waveform.Proofs.Simplification.Counting

/-!
# Simplification and coercions

The rules for binary operators look at operators and written numbers only, while `+` joins strings
and other operators turn their operands into numbers. An expression is orderly where this makes no
difference: arithmetic has numbers to work on, and a string is joined with another kind only by an
operation that no rule applies to. Simplifying an orderly expression keeps its value. Where truth
values may stand for numbers, leaving out a neutral number uncovers the truth value beside it.
-/

namespace Waveform

variable {M : Mathematics} {truths : Bool} {ρ : Literals M}

namespace Expression

/-- A name, or a literal that is no number: no rule for a binary operator looks at it. -/
def isBare : Expression (Exact M) → Bool
  | .identifier _ | .literal (.string _) | .literal (.boolean _) => true
  | _ => false

/-- The expression comes to the literal, where names stand for literals that count as no negative
number. Arithmetic has numbers on both sides, comparisons have anything. A string is joined with
another string, on its right with what is bare, and on its left where both sides are bare. Left out
are strings that `-`, `*` and `/` turn into numbers. Where truth values are admitted in arithmetic,
one may stand for the number that it counts as, so that types are not exact there. -/
inductive Orderly (truths : Bool) (ρ : Literals M) :
    Expression (Exact M) → Literal (Exact M) → Prop
  | literal (l) : Orderly truths ρ (.literal l) l
  | name {name l} (h : ρ name = some l) (hnonneg : Numeric.isNegative l.toNumber = false) :
    Orderly truths ρ (.identifier name) l
  | arithmetic {op a b l m p q r} (ha : Orderly truths ρ a l) (hb : Orderly truths ρ b m)
    (hl : l.CountsAs truths p) (hm : m.CountsAs truths q)
    (h : Meaning.arithmetic op p q = some (Meaning.number r : Meaning M)) :
    Orderly truths ρ (.binary op a b) (.number (.of r))
  | ordering {op a b l m} (hop : op.isOrdering = true) (ha : Orderly truths ρ a l)
    (hb : Orderly truths ρ b m) : Orderly truths ρ (.binary op a b) (op.evaluate l m)
  | join {a b s t} (ha : Orderly truths ρ a (.string s)) (hb : Orderly truths ρ b (.string t)) :
    Orderly truths ρ (.binary .add a b) (.string (s ++ t))
  | append {a b s m} (ha : Orderly truths ρ a (.string s)) (hb : Orderly truths ρ b m)
    (hbare : b.isBare = true) : Orderly truths ρ (.binary .add a b) (.string (s ++ m.toText))
  | prepend {a b l t} (ha : Orderly truths ρ a l) (hb : Orderly truths ρ b (.string t))
    (habare : a.isBare = true) (hbbare : b.isBare = true) :
    Orderly truths ρ (.binary .add a b) (.string (l.toText ++ t))

/-- The first expression may take the place of the second, which comes to the literal. -/
structure Replaces (truths : Bool) (ρ : Literals M) (e' e : Expression (Exact M))
    (l : Literal (Exact M)) : Prop where
  value : ∃ l', e'.Orderly truths ρ l' ∧ l'.StandsFor truths l
  bare : e.isBare = true → e' = e

namespace Orderly

variable {e a b c a' b' : Expression (Exact M)} {op inner : BinaryOperator}
  {u v l m : Literal (Exact M)} {x : Exact M} {p q r : ℚ}

theorem evaluate_binary {call : Caller (Exact M)} {env : Environment} {s : Store (Exact M)}
    (ha : (a.evaluate call env).outcome s = (.ok (.primitive l), s))
    (hb : (b.evaluate call env).outcome s = (.ok (.primitive m), s)) :
    ((binary op a b).evaluate call env).outcome s = (.ok (.primitive (op.evaluate l m)), s) := by
  refine Run.bind_ok.2 ⟨_, s, ha, Run.bind_ok.2 ⟨_, s, hb, ?_⟩⟩
  rw [Reading.binary_apply_primitives]
  rfl

/-- An orderly expression evaluates to what it comes to. -/
theorem evaluate {call : Caller (Exact M)} {env : Environment} {s : Store (Exact M)}
    (hs : ρ.HoldsIn s env) (h : e.Orderly truths ρ l) :
    (e.evaluate call env).outcome s = (.ok (.primitive l), s) := by
  induction h with
  | literal l => rfl
  | name h _ => exact Run.outcome_read_of_lookup (hs _ _ h)
  | arithmetic _ _ hl hm h iha ihb =>
    rw [evaluate_binary iha ihb, BinaryOperator.evaluate_of_countsAs hl hm h]
  | ordering _ _ _ iha ihb => exact evaluate_binary iha ihb
  | join _ _ iha ihb => exact evaluate_binary iha ihb
  | append _ _ _ iha ihb => exact evaluate_binary iha ihb
  | @prepend _ _ l t _ _ _ _ iha ihb =>
    rw [evaluate_binary iha ihb]
    cases l <;> rfl

theorem eq_literal (h : Orderly truths ρ (.literal l) v) : v = l := by
  cases h
  rfl

/-! ### What an operation comes to -/

theorem isOrdering_of_isAssociative (hop : op.isAssociative = true) : op.isOrdering = false := by
  cases op <;> first | rfl | cases hop

theorem isOrdering_of_arithmetic
    (h : Meaning.arithmetic op p q = some (Meaning.number r : Meaning M)) :
    op.isOrdering = false := by
  cases op <;> first | rfl | cases h

theorem of_counted (h : Orderly truths ρ (.binary op a b) v) (hv : v.CountsAs truths r)
    (hop : op.isOrdering = false) :
    ∃ l m p q, a.Orderly truths ρ l ∧ b.Orderly truths ρ m ∧ l.CountsAs truths p ∧
      m.CountsAs truths q ∧ Meaning.arithmetic op p q = some (Meaning.number r : Meaning M) := by
  cases h with
  | arithmetic ha hb hl hm h =>
    rw [Exact.of_inj hv.eq_of] at h
    exact ⟨_, _, _, _, ha, hb, hl, hm, h⟩
  | ordering hordering =>
    rw [hop] at hordering
    cases hordering
  | join | append | prepend => cases hv

/-- An operation beside a written number, unless it is a comparison, is one on numbers. -/
theorem eq_number (h : Orderly truths ρ (.binary op a b) v)
    (hx : a = .number x ∨ b = .number x) (hop : op.isOrdering = false) :
    ∃ r, v = .number (.of r) := by
  cases h with
  | arithmetic => exact ⟨_, rfl⟩
  | ordering hordering =>
    rw [hop] at hordering
    cases hordering
  | join ha hb =>
    rcases hx with rfl | rfl
    · cases ha
    · cases hb
  | append ha _ hbare =>
    rcases hx with rfl | rfl
    · cases ha
    · cases hbare
  | prepend _ hb habare _ =>
    rcases hx with rfl | rfl
    · cases habare
    · cases hb

theorem of_number_left (h : Orderly truths ρ (.binary op (.number x) b) v)
    (hop : op.isOrdering = false) :
    ∃ m p q r, b.Orderly truths ρ m ∧ x = .of p ∧ m.CountsAs truths q ∧
      Meaning.arithmetic op p q = some (Meaning.number r : Meaning M) ∧ v = .number (.of r) := by
  obtain ⟨r, rfl⟩ := h.eq_number (.inl rfl) hop
  obtain ⟨l, m, p, q, hl, hm, hlp, hmq, hr⟩ := h.of_counted (.number r) hop
  obtain rfl := hl.eq_literal
  exact ⟨m, p, q, r, hm, hlp.eq_of, hmq, hr, rfl⟩

theorem of_number_right (h : Orderly truths ρ (.binary op a (.number x)) v)
    (hop : op.isOrdering = false) :
    ∃ l p q r, a.Orderly truths ρ l ∧ l.CountsAs truths p ∧ x = .of q ∧
      Meaning.arithmetic op p q = some (Meaning.number r : Meaning M) ∧ v = .number (.of r) := by
  obtain ⟨r, rfl⟩ := h.eq_number (.inr rfl) hop
  obtain ⟨l, m, p, q, hl, hm, hlp, hmq, hr⟩ := h.of_counted (.number r) hop
  obtain rfl := hm.eq_literal
  exact ⟨l, p, q, r, hl, hlp, hmq.eq_of, hr, rfl⟩

theorem of_string {s : String} (h : Orderly truths ρ (.binary op a b) (.string s)) :
    op = .add ∧
      ((∃ t t', a.Orderly truths ρ (.string t) ∧ b.Orderly truths ρ (.string t') ∧ s = t ++ t') ∨
        (∃ t m, a.Orderly truths ρ (.string t) ∧ b.Orderly truths ρ m ∧ b.isBare = true ∧
          s = t ++ m.toText) ∨
        ∃ l t, a.Orderly truths ρ l ∧ b.Orderly truths ρ (.string t) ∧ a.isBare = true ∧
          b.isBare = true ∧ s = l.toText ++ t) := by
  generalize hv : Literal.string s = v at h
  cases h with
  | arithmetic => cases hv
  | ordering hop => cases op <;> first | cases hv | cases hop
  | join ha hb =>
    cases hv
    exact ⟨rfl, .inl ⟨_, _, ha, hb, rfl⟩⟩
  | append ha hb hbare =>
    cases hv
    exact ⟨rfl, .inr (.inl ⟨_, _, ha, hb, hbare, rfl⟩)⟩
  | prepend ha hb habare hbbare =>
    cases hv
    exact ⟨rfl, .inr (.inr ⟨_, _, ha, hb, habare, hbbare, rfl⟩)⟩

theorem replace (h : Orderly truths ρ (.binary op a b) v)
    (ha : ∀ l, a.Orderly truths ρ l → Replaces truths ρ a' a l)
    (hb : ∀ m, b.Orderly truths ρ m → Replaces truths ρ b' b m) :
    Orderly truths ρ (.binary op a' b') v := by
  cases h with
  | arithmetic hl hm hlp hmq h =>
    obtain ⟨l', hl', hll⟩ := (ha _ hl).value
    obtain ⟨m', hm', hmm⟩ := (hb _ hm).value
    exact .arithmetic hl' hm' (hll.countsAs hlp) (hmm.countsAs hmq) h
  | ordering hop hl hm =>
    obtain ⟨l', hl', hll⟩ := (ha _ hl).value
    obtain ⟨m', hm', hmm⟩ := (hb _ hm).value
    rw [← BinaryOperator.evaluate_ordering_congr hop hll hmm]
    exact .ordering hop hl' hm'
  | join hs ht =>
    obtain ⟨l', hl', hll⟩ := (ha _ hs).value
    obtain ⟨m', hm', hmm⟩ := (hb _ ht).value
    obtain rfl := hll.eq_string
    obtain rfl := hmm.eq_string
    exact .join hl' hm'
  | append hs hm hbare =>
    obtain ⟨l', hl', hll⟩ := (ha _ hs).value
    obtain rfl := hll.eq_string
    rw [(hb _ hm).bare hbare]
    exact .append hl' hm hbare
  | prepend hl ht habare hbbare =>
    rw [(ha _ hl).bare habare, (hb _ ht).bare hbbare]
    exact .prepend hl ht habare hbbare

/-! ### Rules -/

/-- The first half of a regrouped chain is orderly, and so is the chain with anything in its place
that comes to the same. -/
theorem regroup (hop : op.isAssociative = true)
    (h : Orderly truths ρ (.binary op a (.binary op b c)) v) :
    ∃ u, Orderly truths ρ (.binary op a b) u ∧ ∀ e u', e.Orderly truths ρ u' →
      u'.StandsFor truths u → Orderly truths ρ (.binary op e c) v := by
  have hordering := isOrdering_of_isAssociative hop
  cases h with
  | arithmetic ha hbc hl hm h =>
    obtain ⟨k, n, s, t, hb, hc, hk, hn, hst⟩ := hbc.of_counted hm hordering
    have htotal := BinaryOperator.isTotal_of_isAssociative hop
    rw [← Meaning.binary_number (BinaryOperator.isEquality_of_isTotal htotal)] at h
    obtain ⟨w, hfirst, hsecond⟩ := Simplify.arithmetic_regroup hop hst h
    refine ⟨_, .arithmetic ha hb hl hk hfirst, fun e u' he hu => ?_⟩
    exact .arithmetic he hc (hu.countsAs (.number w)) hn hsecond
  | ordering hop' =>
    rw [hordering] at hop'
    cases hop'
  | join ha hbc =>
    obtain ⟨-, ⟨t, t', hb, hc, rfl⟩ | ⟨t, m, hb, hc, hbare, rfl⟩ |
      ⟨l, t, hb, hc, hbbare, -, rfl⟩⟩ := hbc.of_string
    · refine ⟨_, .join ha hb, fun e u' he hu => ?_⟩
      obtain rfl := hu.eq_string
      rw [← String.append_assoc]
      exact .join he hc
    · refine ⟨_, .join ha hb, fun e u' he hu => ?_⟩
      obtain rfl := hu.eq_string
      rw [← String.append_assoc]
      exact .append he hc hbare
    · refine ⟨_, .append ha hb hbbare, fun e u' he hu => ?_⟩
      obtain rfl := hu.eq_string
      rw [← String.append_assoc]
      exact .join he hc
  | append _ _ hbare => cases hbare
  | prepend _ _ _ hbbare => cases hbbare

theorem withLeftNumber (h : Orderly truths ρ (.binary op (.number x) b) v)
    (hrule : Simplify.withLeftNumber op x b = some e) :
    ∃ v', e.Orderly truths ρ v' ∧ v'.StandsFor truths v := by
  unfold Simplify.withLeftNumber at hrule
  split at hrule
  · obtain ⟨hx, ⟨⟩⟩ := Option.ite_none_right_eq_some.1 hrule
    obtain ⟨m, p, q, r, hm, rfl, hmq, hr, rfl⟩ := h.of_number_left rfl
    obtain rfl := Exact.of_inj (Exact.isZero_iff.1 hx)
    obtain rfl : 0 + q = r := Meaning.number_inj (Option.some.inj hr)
    rw [zero_add]
    exact ⟨m, hm, .of_countsAs hmq⟩
  · obtain ⟨m, p, q, r, hm, rfl, hmq, hr, rfl⟩ := h.of_number_left rfl
    obtain rfl : p * q = r := Meaning.number_inj (Option.some.inj hr)
    split at hrule
    · next hx =>
      cases hrule
      obtain rfl := Exact.of_inj (Exact.isZero_iff.1 hx)
      rw [zero_mul]
      exact ⟨_, .literal _, .refl _⟩
    · obtain ⟨hx, ⟨⟩⟩ := Option.ite_none_right_eq_some.1 hrule
      obtain rfl := Exact.of_inj (Exact.isOne_iff.1 hx)
      rw [one_mul]
      exact ⟨m, hm, .of_countsAs hmq⟩
  · cases hrule

theorem eq_false_of_name {name : String} (hx : Numeric.isZero x = true)
    (h : Orderly truths ρ (.binary .lessThan (.identifier name) (.number x)) v) :
    v = .boolean false := by
  obtain rfl := Exact.isZero_iff.1 hx
  cases h with
  | arithmetic _ _ _ _ h => cases h
  | ordering _ ha hb =>
    obtain rfl := hb.eq_literal
    cases ha with
    | name _ hnonneg =>
      have hne (s : String) : (.number (.of 0) : Literal (Exact M)) ≠ .string s := nofun
      rw [BinaryOperator.evaluate, BinaryOperator.isBefore_eq (.inr hne)]
      exact congrArg Literal.boolean hnonneg

theorem withRightNumber (h : Orderly truths ρ (.binary op a (.number x)) v)
    (hrule : Simplify.withRightNumber op a x = some e) :
    ∃ v', e.Orderly truths ρ v' ∧ v'.StandsFor truths v := by
  unfold Simplify.withRightNumber at hrule
  split at hrule
  · obtain ⟨hx, ⟨⟩⟩ := Option.ite_none_right_eq_some.1 hrule
    obtain ⟨l, p, q, r, hl, hlp, rfl, hr, rfl⟩ := h.of_number_right rfl
    obtain rfl := Exact.of_inj (Exact.isZero_iff.1 hx)
    obtain rfl : p + 0 = r := Meaning.number_inj (Option.some.inj hr)
    rw [add_zero]
    exact ⟨l, hl, .of_countsAs hlp⟩
  · obtain ⟨hx, ⟨⟩⟩ := Option.ite_none_right_eq_some.1 hrule
    obtain ⟨l, p, q, r, hl, hlp, rfl, hr, rfl⟩ := h.of_number_right rfl
    obtain rfl := Exact.of_inj (Exact.isZero_iff.1 hx)
    obtain rfl : p - 0 = r := Meaning.number_inj (Option.some.inj hr)
    rw [sub_zero]
    exact ⟨l, hl, .of_countsAs hlp⟩
  · obtain ⟨l, p, q, r, hl, hlp, rfl, hr, rfl⟩ := h.of_number_right rfl
    obtain rfl : p * q = r := Meaning.number_inj (Option.some.inj hr)
    split at hrule
    · next hx =>
      cases hrule
      obtain rfl := Exact.of_inj (Exact.isZero_iff.1 hx)
      rw [mul_zero]
      exact ⟨_, .literal _, .refl _⟩
    · obtain ⟨hx, ⟨⟩⟩ := Option.ite_none_right_eq_some.1 hrule
      obtain rfl := Exact.of_inj (Exact.isOne_iff.1 hx)
      rw [mul_one]
      exact ⟨l, hl, .of_countsAs hlp⟩
  · obtain ⟨hx, ⟨⟩⟩ := Option.ite_none_right_eq_some.1 hrule
    obtain ⟨l, p, q, r, hl, hlp, rfl, hr, rfl⟩ := h.of_number_right rfl
    obtain rfl := Exact.of_inj (Exact.isOne_iff.1 hx)
    rw [Meaning.arithmetic, if_neg one_ne_zero, div_one] at hr
    obtain rfl := Meaning.number_inj (Option.some.inj hr)
    exact ⟨l, hl, .of_countsAs hlp⟩
  · split at hrule
    · obtain ⟨hx, ⟨⟩⟩ := Option.ite_none_right_eq_some.1 hrule
      exact ⟨_, .literal _, .inl (h.eq_false_of_name hx).symm⟩
    · cases hrule
  · cases hrule

theorem fold_eq (h : Meaning.arithmetic op p q = some (Meaning.number r : Meaning M)) :
    Simplify.fold op (.of p : Exact M) (.of q) = .number (.of r) := by
  rw [Simplify.fold, BinaryOperator.evaluate_of_countsAs (.number p : Literal.CountsAs false _ p)
    (.number q) h]
  rfl

theorem merge (hop : op.isAssociative = true)
    (h : Orderly truths ρ (.binary op (.binary op a b) (.number x)) v) (y : Exact M) :
    (a = .number y → Orderly truths ρ (.binary op (Simplify.fold op y x) b) v) ∧
      (b = .number y → Orderly truths ρ (.binary op a (Simplify.fold op y x)) v) := by
  have hordering := isOrdering_of_isAssociative hop
  have htotal := BinaryOperator.isTotal_of_isAssociative hop
  obtain ⟨l, p, q, r, hl, hlp, rfl, hr, rfl⟩ := h.of_number_right hordering
  obtain ⟨k, n, s, t, ha, hb, hk, hn, hst⟩ := hl.of_counted hlp hordering
  rw [← Meaning.binary_number (BinaryOperator.isEquality_of_isTotal htotal)] at hr
  obtain ⟨⟨w, hw, hwt⟩, z, hz, hsz⟩ := Simplify.arithmetic_assoc hop hst hr
  constructor
  · rintro rfl
    obtain rfl := ha.eq_literal
    rw [hk.eq_of, fold_eq hw]
    exact .arithmetic (.literal _) hb (.number w) hn hwt
  · rintro rfl
    obtain rfl := hb.eq_literal
    rw [hn.eq_of, fold_eq hz]
    exact .arithmetic ha (.literal _) hk (.number z) hsz

/-- A written number that is subtracted on the left of a difference or a comparison may be added on
the right. -/
theorem shift (hop : (op == .subtract || op.isOrdering) = true) {y : Exact M}
    (h : Orderly truths ρ (.binary op (.binary .subtract a (.number y)) (.number x)) v) :
    Orderly truths ρ (.binary op a (Simplify.fold .add y x)) v := by
  cases hordering : op.isOrdering with
  | false =>
    obtain rfl : op = .subtract := by simpa [hordering] using hop
    obtain ⟨l, p, q, r, hl, hlp, rfl, hr, rfl⟩ := h.of_number_right rfl
    obtain ⟨k, n, s, t, ha, hb, hk, hn, hst⟩ := hl.of_counted hlp rfl
    obtain rfl := hb.eq_literal
    obtain rfl : s - t = p := Meaning.number_inj (Option.some.inj hst)
    have hfold : Simplify.fold .add (.of t : Exact M) (.of q) = .number (.of (t + q)) := fold_eq rfl
    rw [hn.eq_of, hfold]
    exact .arithmetic ha (.literal _) hk (.number _) (Simplify.arithmetic_shift rfl hr)
  | true =>
    cases h with
    | arithmetic _ _ _ _ h =>
      rw [isOrdering_of_arithmetic h] at hordering
      cases hordering
    | ordering _ hl hx =>
      obtain rfl := hx.eq_literal
      obtain ⟨k, s, t, r, ha, hk, rfl, hr, rfl⟩ := hl.of_number_right rfl
      obtain rfl : s - t = r := Meaning.number_inj (Option.some.inj hr)
      have hshift := BinaryOperator.evaluate_ordering_shift hordering s t x
      have hk' := BinaryOperator.evaluate_ordering hordering
        (.inl hk.ne_string) (m := .number (Numeric.add (.of t) x))
      rw [hk.toNumber_eq] at hk'
      rw [hshift]
      exact hk' ▸ .ordering hordering ha (.literal _)
    | join | append | prepend => cases hordering

theorem mergeNumbers (h : Orderly truths ρ (.binary op (.binary inner a b) (.number x)) v)
    (hrule : Simplify.mergeNumbers op inner a b x = some e) : e.Orderly truths ρ v := by
  unfold Simplify.mergeNumbers at hrule
  split at hrule
  · next hop =>
    rw [Bool.and_eq_true, beq_iff_eq] at hop
    obtain ⟨rfl, hassociative⟩ := hop
    split at hrule
    · next y hy =>
      cases hrule
      exact (h.merge hassociative y).1 (Expression.eq_number_of_asNumber? hy)
    · next y _ hy =>
      cases hrule
      exact (h.merge hassociative y).2 (Expression.eq_number_of_asNumber? hy)
    · cases hrule
  · split at hrule
    · next y hy =>
      obtain ⟨hop, ⟨⟩⟩ := Option.ite_none_right_eq_some.1 hrule
      rw [Bool.and_eq_true, beq_iff_eq] at hop
      obtain ⟨rfl, hop⟩ := hop
      rw [Expression.eq_number_of_asNumber? hy] at h
      exact h.shift hop
    · cases hrule

theorem finishBinary (h : Orderly truths ρ (.binary op a b) v) :
    ∃ v', (Simplify.finishBinary op a b).Orderly truths ρ v' ∧ v'.StandsFor truths v := by
  unfold Simplify.finishBinary
  split
  · exact ⟨v, h, .refl v⟩
  · next x hx =>
    rw [Expression.eq_number_of_asNumber? hx] at h ⊢
    split
    · next hresult => exact h.withRightNumber hresult
    · split
      · next inner l r _ =>
        cases hmerge : Simplify.mergeNumbers op inner l r x with
        | none => exact ⟨v, h, .refl v⟩
        | some merged => exact ⟨v, h.mergeNumbers hmerge, .refl v⟩
      · exact ⟨v, h, .refl v⟩

theorem isStructure_eq (h : e.Orderly truths ρ v) : Simplify.isStructure e = false := by
  cases h <;> rfl

theorem compareWithPrimitive_eq (ha : a.Orderly truths ρ l) (hb : b.Orderly truths ρ m) :
    Simplify.compareWithPrimitive op a b = none := by
  unfold Simplify.compareWithPrimitive
  split
  · rw [hb.isStructure_eq]
    rfl
  · rw [ha.isStructure_eq]
    rfl
  · rfl

theorem operands (h : Orderly truths ρ (.binary op a b) v) :
    ∃ l m, a.Orderly truths ρ l ∧ b.Orderly truths ρ m := by
  cases h with
  | arithmetic ha hb | ordering _ ha hb | join ha hb | append ha hb | prepend ha hb =>
    exact ⟨_, _, ha, hb⟩

theorem eq_evaluate (h : Orderly truths ρ (.binary op (.literal l) (.literal m)) v) :
    v = op.evaluate l m := by
  cases h with
  | arithmetic ha hb hl hm h =>
    obtain rfl := ha.eq_literal
    obtain rfl := hb.eq_literal
    exact (BinaryOperator.evaluate_of_countsAs hl hm h).symm
  | ordering _ ha hb =>
    rw [ha.eq_literal, hb.eq_literal]
  | join ha hb =>
    rw [← ha.eq_literal, ← hb.eq_literal]
    rfl
  | append ha hb _ =>
    rw [← ha.eq_literal, hb.eq_literal]
    rfl
  | prepend ha hb _ _ =>
    rw [ha.eq_literal, ← hb.eq_literal]
    cases l <;> rfl

theorem binary_rule {again : Expression (Exact M) → Expression (Exact M)}
    (hagain : ∀ l r, b = .binary op l r → op.isAssociative = true →
      ∀ u, Orderly truths ρ (.binary op a l) u →
        ∃ u', (again (.binary op a l)).Orderly truths ρ u' ∧ u'.StandsFor truths u)
    (h : Orderly truths ρ (.binary op a b) v) :
    ∃ v', (Simplify.binary again op a b).Orderly truths ρ v' ∧ v'.StandsFor truths v := by
  obtain ⟨l, m, ha, hb⟩ := h.operands
  unfold Simplify.binary
  split
  · next hl hm =>
    rw [Expression.eq_literal_of_asLiteral? hl, Expression.eq_literal_of_asLiteral? hm] at h
    exact ⟨_, .literal _, .inl h.eq_evaluate.symm⟩
  · rw [compareWithPrimitive_eq ha hb]
    dsimp only
    split
    · next hresult =>
      obtain ⟨x, hx, hrule⟩ := Option.bind_eq_some_iff.1 hresult
      rw [Expression.eq_number_of_asNumber? hx] at h
      exact h.withLeftNumber hrule
    · split
      · next inner l r _ _ =>
        split
        · next hop =>
          rw [Bool.and_eq_true, beq_iff_eq] at hop
          obtain ⟨rfl, hassociative⟩ := hop
          obtain ⟨u, hu, hchain⟩ := h.regroup hassociative
          obtain ⟨u', hu', hstands⟩ := hagain l r rfl hassociative u hu
          exact ⟨v, hchain _ u' hu' hstands, .refl v⟩
        · exact h.finishBinary
      · exact h.finishBinary

/-- Simplifying an orderly expression, to any depth, leaves it orderly, and bare expressions as they
are. -/
theorem upTo (depth : Nat) (h : e.Orderly truths ρ v) :
    Replaces truths ρ (Simplify.upTo depth e) e v := by
  induction depth generalizing e v with
  | zero => exact ⟨⟨v, h, .refl v⟩, fun _ => rfl⟩
  | succ depth ih =>
    cases e with
    | binary op a b =>
      have hoperands := h.replace (fun l hl => ih hl) (fun m hm => ih hm)
      refine ⟨?_, nofun⟩
      rw [Simplify.upTo]
      exact hoperands.binary_rule fun l r _ _ u hu => (ih hu).value
    | literal | identifier => exact ⟨⟨v, h, .refl v⟩, fun _ => rfl⟩
    | _ => cases h

end Orderly

/-- An orderly expression and the simplified one evaluate to the same literal. Only where truth
values are admitted in arithmetic may a number come out as the truth value that counts as it. -/
theorem evaluate_simplify_orderly {e : Expression (Exact M)} {l : Literal (Exact M)}
    (h : e.Orderly truths ρ l) :
    ∃ l', (∀ (call : Caller (Exact M)) (env : Environment) (s : Store (Exact M)), ρ.HoldsIn s env →
        (e.evaluate call env).outcome s = (.ok (.primitive l), s) ∧
          (e.simplify.evaluate call env).outcome s = (.ok (.primitive l'), s)) ∧
      (l' = l ∨ truths = true ∧ ∃ b, l' = .boolean b ∧ l = .number l'.toNumber) := by
  obtain ⟨l', hl', hstands⟩ := (h.upTo e.reach).value
  refine ⟨l', fun call env s hs => ⟨h.evaluate hs, hl'.evaluate hs⟩, hstands.eq_or_boolean⟩

def announced : Expression (Exact .zero) :=
  .binary .add (.literal (.string "at ")) (.binary .add (.identifier "t") (.literal (.string "!")))

/-- The name `t` stands for two. -/
def atTwo : Literals .zero
  | "t" => some (.number (.of 2))
  | _ => none

theorem evaluate_simplify_announced :
    announced.Orderly false atTwo (.string "at 2!") ∧
      ∃ l', (∀ (call : Caller (Exact .zero)) (env : Environment) (s : Store (Exact .zero)),
          atTwo.HoldsIn s env →
            (announced.evaluate call env).outcome s = (.ok (.primitive (.string "at 2!")), s) ∧
              (announced.simplify.evaluate call env).outcome s = (.ok (.primitive l'), s)) ∧
        (l' = .string "at 2!" ∨
          false = true ∧ ∃ b, l' = .boolean b ∧ Literal.string "at 2!" = .number l'.toNumber) := by
  have hname : (identifier "t").Orderly false atTwo (.number (.of 2)) := .name rfl rfl
  have horderly : announced.Orderly false atTwo (.string "at 2!") :=
    .join (.literal _) (.prepend hname (.literal _) rfl rfl)
  exact ⟨horderly, evaluate_simplify_orderly horderly⟩

def labelled : Expression (Exact .zero) :=
  .binary .add (.literal (.string "a")) (.binary .add (.identifier "t") (.number (.of 1)))

def padded : Expression (Exact .zero) :=
  .binary .add (.binary .lessThan (.identifier "t") (.number (.of 5))) (.number (.of 0))

/-- A store with one frame, in which `t` is two. -/
def storeAtTwo : Store (Exact .zero) :=
  (Store.empty.extend []).2.bind 0 "t" (.number (.of 2))

/-- Regrouping a sum changes what is joined to a string, and leaving out a zero uncovers a truth
value. -/
theorem evaluate_simplify_coerced :
    (labelled.evaluate (fun _ _ => throw .exhausted) [0]).outcome storeAtTwo =
        (.ok (.string "a3"), storeAtTwo) ∧
      (labelled.simplify.evaluate (fun _ _ => throw .exhausted) [0]).outcome storeAtTwo =
        (.ok (.string "a21"), storeAtTwo) ∧
      (padded.evaluate (fun _ _ => throw .exhausted) [0]).outcome storeAtTwo =
        (.ok (.number (.of 1)), storeAtTwo) ∧
      (padded.simplify.evaluate (fun _ _ => throw .exhausted) [0]).outcome storeAtTwo =
        (.ok (.boolean true), storeAtTwo) := by
  have hthree : (Numeric.add (.of 2) (.of 1) : Exact .zero) = .of 3 := by
    rw [Exact.add_of, two_add_one_eq_three]
  have hone : (Numeric.add Numeric.one (.of 0) : Exact .zero) = .of 1 := by
    rw [Exact.one_eq, Exact.add_of, add_zero]
  have hlabel : (Value.string ("a" ++ (Literal.number (Numeric.add (.of 2) (.of 1) : Exact .zero)
      |>.toText)) : Value (Exact .zero)) = .string "a3" := by
    rw [hthree]
    rfl
  refine ⟨congrArg (Except.ok ·, storeAtTwo) hlabel, rfl, ?_, rfl⟩
  exact congrArg (fun x => (Except.ok (Value.number x), storeAtTwo)) hone

end Expression

end Waveform
