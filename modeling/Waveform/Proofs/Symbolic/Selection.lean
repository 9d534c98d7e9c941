import Waveform.Proofs.Inlining.Hereditary
import Waveform.Proofs.Symbolic.Literals

/-!
# Selections

The value of a logical operator is the value of one of its operands, which may be of any kind. In a
test only its truth counts, and simplification goes by that everywhere: an operand that is a literal
decides the operation or drops out of it. Elsewhere this keeps the value of a selection whose right
operand is not constant, or whose operands are the same literal wherever both count as true or both
as false, as truth values do.
-/

namespace Waveform

variable {M : Mathematics}

/-- What a position sees of a literal: a test sees only whether it counts as true. -/
def Literal.seen (isTest : Bool) (l : Literal (Exact M)) : Literal (Exact M) :=
  if isTest then .boolean l.isTruthy else l

@[simp] theorem Literal.isTruthy_seen (isTest : Bool) (l : Literal (Exact M)) :
    (l.seen isTest).isTruthy = l.isTruthy := by
  cases isTest <;> rfl

/-- A selection by the operands keeps its value when its right operand decides or drops out: where
both operands count as the same truth value they are the same literal, or the right operand is not
constant. -/
def Expression.Separates (V : Set (Literals M)) (a b : Expression (Exact M)) : Prop :=
  (∀ ρ ∈ V, ∀ l m, a.literalAt? ρ = some l → b.literalAt? ρ = some m →
    l.isTruthy = m.isTruthy → l = m) ∨
  ∃ ρ ∈ V, ∃ ρ' ∈ V, b.literalAt? ρ ≠ b.literalAt? ρ'

/-- Every selection whose value counts keeps it. Of a test and of what is negated only the truth
counts. -/
def Expression.Selective (V : Set (Literals M)) : (isTest : Bool) → Expression (Exact M) → Prop
  | _, .unary op a => a.Selective V (op == .not)
  | _, .binary _ a b => a.Selective V false ∧ b.Selective V false
  | isTest, .logical _ a b =>
    a.Selective V isTest ∧ b.Selective V isTest ∧ (isTest = false → a.Separates V b)
  | isTest, .conditional t a b =>
    t.Selective V true ∧ a.Selective V isTest ∧ b.Selective V isTest
  | _, _ => True

/-- The right operand of a selection may stand for it if it decides, and the left one if not, where
operands with the same truth are the same. -/
theorem LogicalOperator.right_eq_select_iff (op : LogicalOperator) (l m : Literal (Exact M)) :
    (if op.decides m.isTruthy then m else l) = op.select l m l.isTruthy ↔
      (l.isTruthy = m.isTruthy → l = m) := by
  rw [select]
  by_cases h : l.isTruthy = m.isTruthy
  · rw [h]
    cases op.decides m.isTruthy with
    | true => simp [eq_comm]
    | false => simp
  · have hdecides : op.decides l.isTruthy = ! op.decides m.isTruthy := by
      cases op <;> cases hl : l.isTruthy <;> cases hm : m.isTruthy <;>
        first | rfl | exact absurd (hl.trans hm.symm) h
    rw [hdecides]
    cases op.decides m.isTruthy <;> simp [h]

theorem LogicalOperator.seen_select (op : LogicalOperator) (l m : Literal (Exact M))
    (isTest w : Bool) :
    (op.select l m w).seen isTest = op.select (l.seen isTest) (m.seen isTest) w := by
  rw [select, select]
  split <;> rfl

namespace Literals

open Simplify Meaning

variable {ρ : Literals M} {a b t e : Expression (Exact M)} {l m : Literal (Exact M)}

theorem literalAt?_of_asLiteral? (h : a.asLiteral? = some l) : a.literalAt? ρ = some l := by
  cases a with
  | literal _ =>
    cases h
    rfl
  | _ => cases h

theorem boolean_of_bound (hρ : ρ.IsNonneg) {β : Bound (Exact M)} (h : Bound.of? a = some β)
    (hl : a.literalAt? ρ = some l) : ∃ w, l = .boolean w := by
  obtain ⟨w, hw⟩ := (faithful hρ).boolean_of_bound h ⟨l, hl, rfl⟩
  exact ⟨w, primitive.inj hw⟩

theorem seen_logical_rule (hρ : ρ.IsNonneg) (op : LogicalOperator) (isTest : Bool)
    (ha : a.literalAt? ρ = some l) (hb : b.literalAt? ρ = some m)
    (hab : isTest = false → b.asLiteral? = some m → l.isTruthy = m.isTruthy → l = m) :
    ∃ r, (Simplify.logical op a b).literalAt? ρ = some r ∧
      r.seen isTest = (op.select l m l.isTruthy).seen isTest := by
  have hplain : (Expression.logical op a b).literalAt? ρ = some (op.select l m l.isTruthy) :=
    Expression.literalAt?_logical.2 ⟨l, m, ha, hb, rfl⟩
  unfold Simplify.logical
  split
  · next l' hl' =>
    obtain rfl : l' = l := Option.some.inj ((literalAt?_of_asLiteral? hl').symm.trans ha)
    refine ⟨_, ?_, rfl⟩
    rw [LogicalOperator.select, LogicalOperator.select]
    split
    · exact ha
    · exact hb
  · split
    · next m' hm' =>
      obtain rfl : m' = m := Option.some.inj ((literalAt?_of_asLiteral? hm').symm.trans hb)
      refine ⟨if op.decides m'.isTruthy then m' else l, ?_, ?_⟩
      · split
        · exact hb
        · exact ha
      · have hseen : l.isTruthy = m'.isTruthy → l.seen isTest = m'.seen isTest := by
          cases isTest with
          | true => exact congrArg Literal.boolean
          | false => exact hab rfl hm'
        have hiff := op.right_eq_select_iff (l.seen isTest) (m'.seen isTest)
        rw [Literal.isTruthy_seen, Literal.isTruthy_seen] at hiff
        rw [LogicalOperator.seen_select, ← hiff.2 hseen]
        split <;> rfl
    · split
      · next upper lower hupper hlower =>
        split
        · next hexcludes =>
          obtain ⟨u, rfl⟩ := boolean_of_bound hρ hupper ha
          obtain ⟨v, rfl⟩ := boolean_of_bound hρ hlower hb
          refine ⟨_, rfl, ?_⟩
          cases u with
          | false => rfl
          | true =>
            rw [(faithful hρ).eq_false_of_excludes hexcludes hupper hlower ⟨_, ha, rfl⟩
              ⟨_, hb, rfl⟩]
            rfl
        · exact ⟨_, hplain, rfl⟩
      · exact ⟨_, hplain, rfl⟩

theorem literalAt?_whenTrue {w : Literal (Exact M)} (ht : t.literalAt? ρ = some w) :
    (e : Expression (Exact M)) → {l : Literal (Exact M)} → e.literalAt? ρ = some l →
      ∃ r, (whenTrue t e).literalAt? ρ = some r ∧ (w.isTruthy = true → r = l)
  | .conditional inner a b, l, h => by
    rw [whenTrue]
    split
    · next hsame =>
      obtain ⟨u, x, y, hu, hx, -, rfl⟩ := Expression.literalAt?_conditional.1 h
      rw [Expression.literalAt?_of_same ρ _ _ hsame, ht] at hu
      cases hu
      obtain ⟨r, hr, hrx⟩ := literalAt?_whenTrue ht a hx
      exact ⟨r, hr, fun hw => by rw [if_pos hw, hrx hw]⟩
    · exact ⟨l, h, fun _ => rfl⟩
  | .literal _, l, h | .identifier _, l, h | .unary _ _, l, h | .binary _ _ _, l, h
  | .logical _ _ _, l, h => ⟨l, h, fun _ => rfl⟩

theorem literalAt?_whenFalse {w : Literal (Exact M)} (ht : t.literalAt? ρ = some w) :
    (e : Expression (Exact M)) → {l : Literal (Exact M)} → e.literalAt? ρ = some l →
      ∃ r, (whenFalse t e).literalAt? ρ = some r ∧ (w.isTruthy = false → r = l)
  | .conditional inner a b, l, h => by
    rw [whenFalse]
    split
    · next hsame =>
      obtain ⟨u, x, y, hu, -, hy, rfl⟩ := Expression.literalAt?_conditional.1 h
      rw [Expression.literalAt?_of_same ρ _ _ hsame, ht] at hu
      cases hu
      obtain ⟨r, hr, hry⟩ := literalAt?_whenFalse ht b hy
      exact ⟨r, hr, fun hw => by rw [hw, if_neg Bool.false_ne_true, hry hw]⟩
    · exact ⟨l, h, fun _ => rfl⟩
  | .literal _, l, h | .identifier _, l, h | .unary _ _, l, h | .binary _ _ _, l, h
  | .logical _ _ _, l, h => ⟨l, h, fun _ => rfl⟩

theorem literalAt?_decideInner (hρ : ρ.IsNonneg) {w : Literal (Exact M)}
    (ht : t.literalAt? ρ = some w) (h : e.literalAt? ρ = some l) :
    ∃ r, (decideInner t e).literalAt? ρ = some r ∧ (w.isTruthy = true → r = l) := by
  unfold decideInner
  split
  · next inner a b =>
    obtain ⟨u, x, y, hu, hx, hy, rfl⟩ := Expression.literalAt?_conditional.1 h
    split
    · next c hc =>
      obtain ⟨c', hc', hseen⟩ := seen_logical_rule hρ .and true ht hu fun h => absurd h (by decide)
      obtain rfl := Option.some.inj ((literalAt?_of_asLiteral? hc).symm.trans hc')
      refine ⟨if c.isTruthy then x else y, ?_, fun hw => ?_⟩
      · split
        · exact hx
        · exact hy
      · have hcu : c.isTruthy = u.isTruthy := by
          have := congrArg Literal.isTruthy hseen
          rwa [Literal.isTruthy_seen, Literal.isTruthy_seen, hw] at this
        rw [hcu]
    · exact ⟨_, h, fun _ => rfl⟩
  · exact ⟨l, h, fun _ => rfl⟩

theorem literalAt?_conditional_rule (hρ : ρ.IsNonneg) {w : Literal (Exact M)}
    (ht : t.literalAt? ρ = some w) (ha : a.literalAt? ρ = some l) (hb : b.literalAt? ρ = some m) :
    (Simplify.conditional t a b).literalAt? ρ = some (if w.isTruthy then l else m) := by
  unfold Simplify.conditional
  split
  · next c hc =>
    obtain rfl := Option.some.inj ((literalAt?_of_asLiteral? hc).symm.trans ht)
    split
    · exact ha
    · exact hb
  · split
    · next hsame =>
      rw [Bool.and_eq_true] at hsame
      obtain rfl : l = m := by
        rw [Expression.literalAt?_of_same ρ a b hsame.1, hb] at ha
        exact (Option.some.inj ha).symm
      rw [ite_self, ha]
    · obtain ⟨l₁, hl₁, htrue₁⟩ := literalAt?_whenTrue ht a ha
      obtain ⟨l₂, hl₂, htrue₂⟩ := literalAt?_decideInner hρ ht hl₁
      obtain ⟨m₁, hm₁, hfalse⟩ := literalAt?_whenFalse ht b hb
      have hplain := Expression.literalAt?_conditional.2 ⟨w, l₂, m₁, ht, hl₂, hm₁, rfl⟩
      rw [hplain]
      cases hw : w.isTruthy with
      | true => exact congrArg some ((htrue₂ hw).trans (htrue₁ hw))
      | false => exact congrArg some (hfalse hw)

end Literals

/-! ## Simplification by positions -/

theorem UnaryOperator.evaluate_of_seen {op : UnaryOperator} {l m : Literal (Exact M)}
    (h : l.seen (op == .not) = m.seen (op == .not)) : op.evaluate l = op.evaluate m := by
  cases op with
  | not =>
    have htruth : l.isTruthy = m.isTruthy := by
      have := congrArg Literal.isTruthy h
      rwa [Literal.isTruthy_seen, Literal.isTruthy_seen] at this
    rw [evaluate, evaluate, htruth]
  | minus | plus | typeOf => exact congrArg _ h

namespace Expression

open Simplify

/-- The expression comes to a literal whatever the names stand for. -/
def IsDefinedOn (V : Set (Literals M)) (e : Expression (Exact M)) : Prop :=
  ∀ ρ ∈ V, ∃ l, e.literalAt? ρ = some l

/-- The second expression is selective, and is seen as the literal that the first comes to. -/
structure Refines (V : Set (Literals M)) (isTest : Bool) (e e' : Expression (Exact M)) : Prop where
  selective : e'.Selective V isTest
  seen : ∀ ρ ∈ V, ∀ l, e.literalAt? ρ = some l →
    ∃ l', e'.literalAt? ρ = some l' ∧ l'.seen isTest = l.seen isTest

variable {V : Set (Literals M)} {isTest : Bool} {a a' b b' t t' e : Expression (Exact M)}

theorem Selective.of_value : {e : Expression (Exact M)} → e.Selective V false →
    e.Selective V isTest
  | .unary _ _, h => h
  | .binary _ _ _, h => h
  | .logical _ _ _, h => ⟨h.1.of_value, h.2.1.of_value, fun _ => h.2.2 rfl⟩
  | .conditional _ _ _, h => ⟨h.1, h.2.1.of_value, h.2.2.of_value⟩
  | .literal _, h | .identifier _, h | .builtin _, h | .array _, h | .member _ _, h | .call _ _, h
  | .function _ _ _, h | .assignment _ _ _, h | .update _ _ _, h => h

theorem Refines.refl (h : e.Selective V isTest) : e.Refines V isTest e :=
  ⟨h, fun _ _ l hl => ⟨l, hl, rfl⟩⟩

theorem Refines.of_value (h : a.Refines V false a') : a.Refines V isTest a' := by
  refine ⟨h.selective.of_value, fun ρ hρ l hl => ?_⟩
  obtain ⟨l', hl', rfl⟩ := h.seen ρ hρ l hl
  exact ⟨l', hl', rfl⟩

theorem Refines.literalAt? (h : a.Refines V false a') {ρ : Literals M} (hρ : ρ ∈ V)
    {l : Literal (Exact M)} (hl : a.literalAt? ρ = some l) : a'.literalAt? ρ = some l := by
  obtain ⟨l', hl', rfl⟩ := h.seen ρ hρ l hl
  exact hl'

theorem Separates.refines (h : a.Separates V b) (ha : a.Refines V false a')
    (hb : b.Refines V false b') (hdefa : a.IsDefinedOn V) (hdefb : b.IsDefinedOn V) :
    a'.Separates V b' := by
  have heq {e e' : Expression (Exact M)} (he : e.Refines V false e') (hdef : e.IsDefinedOn V)
      (ρ : Literals M) (hρ : ρ ∈ V) : e'.literalAt? ρ = e.literalAt? ρ := by
    obtain ⟨l, hl⟩ := hdef ρ hρ
    rw [hl, he.literalAt? hρ hl]
  rcases h with h | ⟨ρ, hρ, ρ', hρ', h⟩
  · refine .inl fun ρ hρ l m hl hm => h ρ hρ l m ?_ ?_
    · rw [← heq ha hdefa ρ hρ, hl]
    · rw [← heq hb hdefb ρ hρ, hm]
  · refine .inr ⟨ρ, hρ, ρ', hρ', ?_⟩
    rwa [heq hb hdefb ρ hρ, heq hb hdefb ρ' hρ']

theorem selective_logical {op : LogicalOperator} (hab : isTest = false → a.Separates V b)
    (ha : a.Selective V isTest) (hb : b.Selective V isTest) :
    (Simplify.logical op a b).Selective V isTest := by
  have hplain : (logical op a b).Selective V isTest := ⟨ha, hb, hab⟩
  unfold Simplify.logical
  split
  · rw [LogicalOperator.select]
    split
    · exact ha
    · exact hb
  · split
    · split
      · exact hb
      · exact ha
    · split
      · split
        · trivial
        · exact hplain
      · exact hplain

theorem selective_whenTrue (t : Expression (Exact M)) : (e : Expression (Exact M)) →
    e.Selective V isTest → (whenTrue t e).Selective V isTest
  | .conditional inner a b, h => by
    rw [whenTrue]
    split
    · exact selective_whenTrue t a h.2.1
    · exact h
  | .literal _, h | .identifier _, h | .builtin _, h | .array _, h | .member _ _, h
  | .unary _ _, h | .binary _ _ _, h | .logical _ _ _, h | .call _ _, h | .function _ _ _, h
  | .assignment _ _ _, h | .update _ _ _, h => h

theorem selective_whenFalse (t : Expression (Exact M)) : (e : Expression (Exact M)) →
    e.Selective V isTest → (whenFalse t e).Selective V isTest
  | .conditional inner a b, h => by
    rw [whenFalse]
    split
    · exact selective_whenFalse t b h.2.2
    · exact h
  | .literal _, h | .identifier _, h | .builtin _, h | .array _, h | .member _ _, h
  | .unary _ _, h | .binary _ _ _, h | .logical _ _ _, h | .call _ _, h | .function _ _ _, h
  | .assignment _ _ _, h | .update _ _ _, h => h

theorem selective_decideInner (t : Expression (Exact M)) (h : e.Selective V isTest) :
    (decideInner t e).Selective V isTest := by
  unfold decideInner
  split
  · split
    · split
      · exact h.2.1
      · exact h.2.2
    · exact h
  · exact h

theorem selective_conditional (ht : t.Selective V true) (ha : a.Selective V isTest)
    (hb : b.Selective V isTest) : (Simplify.conditional t a b).Selective V isTest := by
  unfold Simplify.conditional
  split
  · split
    · exact ha
    · exact hb
  · split
    · exact ha
    · exact ⟨ht, selective_decideInner t (selective_whenTrue t a ha), selective_whenFalse t b hb⟩

theorem refines_unary {op : UnaryOperator} (ha : a.Refines V (op == .not) a') :
    (unary op a).Refines V isTest (Simplify.unary op a') := by
  constructor
  · unfold Simplify.unary
    split
    · trivial
    · exact ha.selective
  · intro ρ hρ l hl
    obtain ⟨u, hu, rfl⟩ := literalAt?_unary.1 hl
    obtain ⟨u', hu', hseen⟩ := ha.seen ρ hρ u hu
    refine ⟨op.evaluate u', ?_, congrArg _ (UnaryOperator.evaluate_of_seen hseen)⟩
    unfold Simplify.unary
    split
    · next m hm =>
      rw [Literals.literalAt?_of_asLiteral? hm] at hu'
      cases hu'
      rfl
    · exact literalAt?_unary.2 ⟨u', hu', rfl⟩

theorem refines_binary (hV : ∀ ρ ∈ V, ρ.IsNonneg) {op : BinaryOperator}
    {again : Expression (Exact M) → Expression (Exact M)}
    (hagain : ∀ e : Expression (Exact M), e.IsDefinedOn V → e.Selective V false →
      e.Refines V false (again e))
    (hdef : (binary op a b).IsDefinedOn V) (ha : a.Refines V false a')
    (hb : b.Refines V false b') :
    (binary op a b).Refines V false (Simplify.binary again op a' b') := by
  have hplain (ρ : Literals M) (hρ : ρ ∈ V) (l : Literal (Exact M))
      (hl : (binary op a b).literalAt? ρ = some l) : (binary op a' b').literalAt? ρ = some l := by
    obtain ⟨u, v, hu, hv, hr⟩ := literalAt?_binary.1 hl
    exact literalAt?_binary.2 ⟨u, v, ha.literalAt? hρ hu, hb.literalAt? hρ hv, hr⟩
  have hfirst (l r : Expression (Exact M)) (hb' : b' = .binary op l r)
      (hop : op.isAssociative = true) (hsel : (binary op a' l).Selective V false) :
      (binary op a' l).Refines V false (again (binary op a' l)) := by
    refine hagain _ (fun ρ hρ => ?_) hsel
    obtain ⟨v, hv⟩ := hdef ρ hρ
    exact Literals.exists_literalAt?_regroup (hV ρ hρ) hop (hb' ▸ hplain ρ hρ v hv)
  have hselective : (binary op a' b').Selective V false := ⟨ha.selective, hb.selective⟩
  constructor
  · exact Simplify.binary_hereditary (P := Selective V false) (fun _ => trivial)
      (fun _ _ _ => Iff.rfl) (fun l r hb' hop hsel => (hfirst l r hb' hop hsel).selective)
      ha.selective hb.selective
  · intro ρ hρ l hl
    refine ⟨l, Literals.literalAt?_binary_rule (hV ρ hρ) ?_ (hplain ρ hρ l hl), rfl⟩
    intro x y hb' hop v hv
    have hsel : (binary op a' x).Selective V false := ⟨ha.selective, (hb' ▸ hb.selective).1⟩
    exact (hfirst x y hb' hop hsel).literalAt? hρ hv

theorem refines_logical (hV : ∀ ρ ∈ V, ρ.IsNonneg) {op : LogicalOperator}
    (hdef : (logical op a b).IsDefinedOn V) (hab : isTest = false → a.Separates V b)
    (ha : a.Refines V isTest a') (hb : b.Refines V isTest b') :
    (logical op a b).Refines V isTest (Simplify.logical op a' b') := by
  have hdefa : a.IsDefinedOn V := fun ρ hρ => by
    obtain ⟨_, hl⟩ := hdef ρ hρ
    obtain ⟨u, _, hu, -⟩ := literalAt?_logical.1 hl
    exact ⟨u, hu⟩
  have hdefb : b.IsDefinedOn V := fun ρ hρ => by
    obtain ⟨_, hl⟩ := hdef ρ hρ
    obtain ⟨_, v, -, hv, -⟩ := literalAt?_logical.1 hl
    exact ⟨v, hv⟩
  have hab' (hvalue : isTest = false) : a'.Separates V b' := by
    subst hvalue
    exact (hab rfl).refines ha hb hdefa hdefb
  constructor
  · exact selective_logical hab' ha.selective hb.selective
  · intro ρ hρ l hl
    obtain ⟨u, v, hu, hv, rfl⟩ := literalAt?_logical.1 hl
    obtain ⟨u', hu', hseenu⟩ := ha.seen ρ hρ u hu
    obtain ⟨v', hv', hseenv⟩ := hb.seen ρ hρ v hv
    obtain ⟨r, hr, hseen⟩ := Literals.seen_logical_rule (hV ρ hρ) op isTest hu' hv'
      fun hvalue hliteral htruth => by
        rcases hab' hvalue with h | ⟨σ, hσ, τ, hτ, h⟩
        · exact h ρ hρ u' v' hu' hv' htruth
        · rw [Literals.literalAt?_of_asLiteral? hliteral,
            Literals.literalAt?_of_asLiteral? hliteral] at h
          exact absurd rfl h
    have htruth : u'.isTruthy = u.isTruthy := by
      have := congrArg Literal.isTruthy hseenu
      rwa [Literal.isTruthy_seen, Literal.isTruthy_seen] at this
    refine ⟨r, hr, hseen.trans ?_⟩
    rw [LogicalOperator.seen_select, LogicalOperator.seen_select, hseenu, hseenv, htruth]

theorem refines_conditional (hV : ∀ ρ ∈ V, ρ.IsNonneg) (ht : t.Refines V true t')
    (ha : a.Refines V isTest a') (hb : b.Refines V isTest b') :
    (conditional t a b).Refines V isTest (Simplify.conditional t' a' b') := by
  refine ⟨selective_conditional ht.selective ha.selective hb.selective, fun ρ hρ l hl => ?_⟩
  obtain ⟨w, u, v, hw, hu, hv, rfl⟩ := literalAt?_conditional.1 hl
  obtain ⟨w', hw', hseenw⟩ := ht.seen ρ hρ w hw
  obtain ⟨u', hu', hseenu⟩ := ha.seen ρ hρ u hu
  obtain ⟨v', hv', hseenv⟩ := hb.seen ρ hρ v hv
  refine ⟨_, Literals.literalAt?_conditional_rule (hV ρ hρ) hw' hu' hv', ?_⟩
  have htruth : w'.isTruthy = w.isTruthy := by
    have := congrArg Literal.isTruthy hseenw
    rwa [Literal.isTruthy_seen, Literal.isTruthy_seen] at this
  rw [htruth]
  split
  · exact hseenu
  · exact hseenv

/-- Simplifying an expression keeps what its position sees of it. -/
theorem refines_upTo (hV : ∀ ρ ∈ V, ρ.IsNonneg) (depth : Nat) (e : Expression (Exact M))
    (isTest : Bool) (hdef : e.IsDefinedOn V) (h : e.Selective V isTest) :
    e.Refines V isTest (upTo depth e) := by
  induction depth generalizing e isTest with
  | zero => exact .refl h
  | succ depth ih =>
    cases e with
    | unary op a =>
      refine refines_unary (ih a _ (fun ρ hρ => ?_) h)
      obtain ⟨_, hl⟩ := hdef ρ hρ
      obtain ⟨u, hu, -⟩ := literalAt?_unary.1 hl
      exact ⟨u, hu⟩
    | binary op a b =>
      refine (refines_binary hV (fun e => ih e false) hdef (ih a _ (fun ρ hρ => ?_) h.1)
        (ih b _ (fun ρ hρ => ?_) h.2)).of_value
      · obtain ⟨_, hl⟩ := hdef ρ hρ
        obtain ⟨u, _, hu, -⟩ := literalAt?_binary.1 hl
        exact ⟨u, hu⟩
      · obtain ⟨_, hl⟩ := hdef ρ hρ
        obtain ⟨_, v, -, hv, -⟩ := literalAt?_binary.1 hl
        exact ⟨v, hv⟩
    | logical op a b =>
      refine refines_logical hV hdef h.2.2 (ih a _ (fun ρ hρ => ?_) h.1)
        (ih b _ (fun ρ hρ => ?_) h.2.1)
      · obtain ⟨_, hl⟩ := hdef ρ hρ
        obtain ⟨u, _, hu, -⟩ := literalAt?_logical.1 hl
        exact ⟨u, hu⟩
      · obtain ⟨_, hl⟩ := hdef ρ hρ
        obtain ⟨_, v, -, hv, -⟩ := literalAt?_logical.1 hl
        exact ⟨v, hv⟩
    | conditional t a b =>
      refine refines_conditional hV (ih t _ (fun ρ hρ => ?_) h.1) (ih a _ (fun ρ hρ => ?_) h.2.1)
        (ih b _ (fun ρ hρ => ?_) h.2.2)
      · obtain ⟨_, hl⟩ := hdef ρ hρ
        obtain ⟨w, _, _, hw, -⟩ := literalAt?_conditional.1 hl
        exact ⟨w, hw⟩
      · obtain ⟨_, hl⟩ := hdef ρ hρ
        obtain ⟨_, u, _, -, hu, -⟩ := literalAt?_conditional.1 hl
        exact ⟨u, hu⟩
      · obtain ⟨_, hl⟩ := hdef ρ hρ
        obtain ⟨_, _, v, -, -, hv, -⟩ := literalAt?_conditional.1 hl
        exact ⟨v, hv⟩
    | assignment op target value =>
      refine ⟨?_, fun ρ hρ l hl => by cases hl⟩
      change (Simplify.assignment op target value).Selective V isTest
      unfold Simplify.assignment
      split
      · split
        · split <;> trivial
        · trivial
      · trivial
    | literal _ | identifier _ | builtin _ | array _ | member _ _ | call _ _ | function _ _ _
    | update _ _ _ => exact .refl h

/-- Simplification keeps the value of an expression, and in a test the truth of it, if the
selections in it keep theirs. -/
theorem seen_simplify (hV : ∀ ρ ∈ V, ρ.IsNonneg) (hdef : e.IsDefinedOn V)
    (h : e.Selective V isTest) {ρ : Literals M} (hρ : ρ ∈ V) :
    ∃ l l', e.literalAt? ρ = some l ∧ e.simplify.literalAt? ρ = some l' ∧
      l'.seen isTest = l.seen isTest := by
  obtain ⟨l, hl⟩ := hdef ρ hρ
  obtain ⟨l', hl', hseen⟩ := (refines_upTo hV e.reach e isTest hdef h).seen ρ hρ l hl
  exact ⟨l, l', hl, hl', hseen⟩

/-- A selective expression evaluates to the same literal as it does once simplified. -/
theorem evaluate_simplify_selective (hV : ∀ ρ ∈ V, ρ.IsNonneg) (hdef : e.IsDefinedOn V)
    (h : e.Selective V false) {ρ : Literals M} (hρ : ρ ∈ V) (call : Caller (Exact M))
    {env : Environment} {s : Store (Exact M)} (hs : ρ.HoldsIn s env) :
    ∃ l, (e.evaluate call env).outcome s = (.ok (.primitive l), s) ∧
      (e.simplify.evaluate call env).outcome s = (.ok (.primitive l), s) := by
  obtain ⟨l, l', hl, hl', rfl⟩ := seen_simplify hV hdef h hρ
  exact ⟨l', evaluate_of_literalAt? hs e hl, evaluate_of_literalAt? hs e.simplify hl'⟩

end Expression

/-- A number by the name `t` and a truth value by the name `f`. -/
def Literals.timed (q : ℚ) (b : Bool) : Literals .zero
  | "t" => some (.number (.of q))
  | "f" => some (.boolean b)
  | _ => none

def Literals.allTimed : Set (Literals .zero) :=
  {ρ | ∃ q b, 0 ≤ q ∧ ρ = .timed q b}

/-- A number that is chosen by a truth value, with a term that drops out. -/
def Expression.gated : Expression (Exact .zero) :=
  .logical .and (.identifier "f") (.binary .add (.identifier "t") (.number (.of 0)))

/-- A store with one frame, in which `t` is three and `f` holds. -/
def Store.timed : Store (Exact .zero) :=
  (Store.empty.extend []).2.bind 0 "t" (.number (.of 3)) |>.bind 0 "f" (.boolean true)

theorem Expression.evaluate_simplify_gated :
    (∀ ρ ∈ Literals.allTimed, ρ.IsNonneg) ∧ gated.IsDefinedOn Literals.allTimed ∧
      gated.Selective Literals.allTimed false ∧
      ∃ l, (gated.evaluate (fun _ _ => throw .exhausted) [0]).outcome .timed =
          (.ok (.primitive l), .timed) ∧
        (gated.simplify.evaluate (fun _ _ => throw .exhausted) [0]).outcome .timed =
          (.ok (.primitive l), .timed) := by
  have hV : ∀ ρ ∈ Literals.allTimed, ρ.IsNonneg := by
    rintro _ ⟨q, b, hq, rfl⟩ name p hp
    simp only [Literals.timed] at hp
    split at hp
    · cases hp
      exact hq
    · cases hp
    · cases hp
  have hdef : gated.IsDefinedOn Literals.allTimed := by
    rintro _ ⟨q, b, hq, rfl⟩
    exact ⟨_, rfl⟩
  have hselective : gated.Selective Literals.allTimed false := by
    refine ⟨trivial, ⟨trivial, trivial⟩, fun _ => .inr ?_⟩
    refine ⟨.timed 1 true, ⟨1, true, by decide, rfl⟩, .timed 2 true, ⟨2, true, by decide, rfl⟩, ?_⟩
    intro h
    have h12 : (1 + 0 : ℚ) = 2 + 0 := Exact.of_inj (Literal.number.inj (Option.some.inj h))
    norm_num at h12
  refine ⟨hV, hdef, hselective, ?_⟩
  refine evaluate_simplify_selective hV hdef hselective ⟨3, true, by decide, rfl⟩ _ ?_
  intro name l h
  simp only [Literals.timed] at h
  split at h
  · cases h
    rfl
  · cases h
    rfl
  · cases h

/-- A selection whose right operand is a literal loses its value outside of a test. -/
def Expression.switched : Expression (Exact .zero) :=
  .logical .and (.binary .lessThan (.identifier "t") (.number (.of 5))) (.number (.of 7))

theorem Expression.evaluate_simplify_switched :
    (switched.evaluate (fun _ _ => throw .exhausted) [0]).outcome .timed =
        (.ok (.number (.of 7)), .timed) ∧
      (switched.simplify.evaluate (fun _ _ => throw .exhausted) [0]).outcome .timed =
        (.ok (.boolean true), .timed) :=
  ⟨rfl, rfl⟩

end Waveform
