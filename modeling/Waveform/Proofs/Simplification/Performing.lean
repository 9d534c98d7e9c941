import Waveform.Proofs.Inlining.Known
import Waveform.Proofs.Simplification.Assigning
import Waveform.Proofs.Simplification.Counting

/-!
# Performing the effects of an expression

Some rules leave an operand or a test out, and only one of them asks whether it has an effect.
`Expression.Spares` says that each rule leaves out only what does nothing, and
`Expression.Performs` describes a run with its effects, on operands for which the rules are sound.
The rules for binary operators keep what is performed.
-/

namespace Waveform

namespace Expression

def isSilent {ν : Type} : Expression ν → Bool
  | .literal _ | .identifier _ | .builtin _ => true
  | .member object property => object.isSilent && property.isSilent
  | .unary _ argument => argument.isSilent
  | .binary _ left right | .logical _ left right => left.isSilent && right.isSilent
  | .conditional test consequent alternate =>
    test.isSilent && consequent.isSilent && alternate.isSilent
  | .array _ | .call _ _ | .function _ _ _ | .assignment _ _ _ | .update _ _ _ => false

theorem hasEffect_of_isSilent {ν : Type} : (e : Expression ν) → e.isSilent = true →
    e.hasEffect = false
  | .literal _, _ | .identifier _, _ | .builtin _, _ => rfl
  | .member a b, h | .binary _ a b, h | .logical _ a b, h => by
    rw [isSilent, Bool.and_eq_true] at h
    rw [hasEffect, a.hasEffect_of_isSilent h.1, b.hasEffect_of_isSilent h.2]
    rfl
  | .unary _ a, h => a.hasEffect_of_isSilent h
  | .conditional a b c, h => by
    rw [isSilent, Bool.and_eq_true, Bool.and_eq_true] at h
    rw [hasEffect, a.hasEffect_of_isSilent h.1.1, b.hasEffect_of_isSilent h.1.2,
      c.hasEffect_of_isSilent h.2]
    rfl

theorem eq_store_of_isSilent {ν : Type} [Numeric ν] {call : Caller ν} {env : Environment} :
    (e : Expression ν) → e.isSilent = true → ∀ {s t v},
      (e.evaluate call env).outcome s = (.ok v, t) → t = s
  | .literal _, _, s, t, v, h | .builtin _, _, s, t, v, h => by
    cases h
    rfl
  | .identifier _, _, s, t, v, h => (Run.read_ok.1 h).2
  | .member a b, hsilent, s, t, v, h => by
    rw [isSilent, Bool.and_eq_true] at hsilent
    obtain ⟨x, s₁, hx, h⟩ := Run.bind_ok.1 h
    obtain ⟨y, s₂, hy, h⟩ := Run.bind_ok.1 h
    rw [Run.member_ok h, b.eq_store_of_isSilent hsilent.2 hy, a.eq_store_of_isSilent hsilent.1 hx]
  | .unary _ a, hsilent, s, t, v, h => by
    obtain ⟨x, s₁, hx, h⟩ := Run.bind_ok.1 h
    cases h
    exact a.eq_store_of_isSilent hsilent hx
  | .binary _ a b, hsilent, s, t, v, h => by
    rw [isSilent, Bool.and_eq_true] at hsilent
    obtain ⟨x, s₁, hx, h⟩ := Run.bind_ok.1 h
    obtain ⟨y, s₂, hy, h⟩ := Run.bind_ok.1 h
    cases h
    rw [b.eq_store_of_isSilent hsilent.2 hy, a.eq_store_of_isSilent hsilent.1 hx]
  | .logical _ a b, hsilent, s, t, v, h => by
    rw [isSilent, Bool.and_eq_true] at hsilent
    obtain ⟨x, s₁, hx, hrest⟩ := Run.bind_ok.1 h
    obtain rfl := a.eq_store_of_isSilent hsilent.1 hx
    split at hrest
    · cases hrest
      rfl
    · exact b.eq_store_of_isSilent hsilent.2 hrest
  | .conditional a b c, hsilent, s, t, v, h => by
    rw [isSilent, Bool.and_eq_true, Bool.and_eq_true] at hsilent
    obtain ⟨x, s₁, hx, hrest⟩ := Run.bind_ok.1 h
    obtain rfl := a.eq_store_of_isSilent hsilent.1.1 hx
    split at hrest
    · exact b.eq_store_of_isSilent hsilent.1.2 hrest
    · exact c.eq_store_of_isSilent hsilent.2 hrest

end Expression

variable {M : Mathematics}

namespace Expression

/-- An expression of the shape of a silent one is that expression. Only functions may differ in
more. -/
theorem eq_of_same : (a b : Expression (Exact M)) → a.same b = true → b.isSilent = true → a = b
  | .literal l, e, h, _ => by
    cases e with
    | literal m =>
      rw [same] at h
      rw [Literal.eq_of_same h]
    | _ => simp [same] at h
  | .identifier n, e, h, _ | .builtin n, e, h, _ => by
    cases e <;> simp_all [same]
  | .member a b, e, h, hsilent => by
    cases e with
    | member c d =>
      rw [same, Bool.and_eq_true] at h
      rw [isSilent, Bool.and_eq_true] at hsilent
      rw [eq_of_same a c h.1 hsilent.1, eq_of_same b d h.2 hsilent.2]
    | _ => simp [same] at h
  | .unary op a, e, h, hsilent => by
    cases e with
    | unary op' b =>
      rw [same, Bool.and_eq_true, beq_iff_eq] at h
      rw [h.1, eq_of_same a b h.2 hsilent]
    | _ => simp [same] at h
  | .binary op a b, e, h, hsilent => by
    cases e with
    | binary op' c d =>
      rw [same, Bool.and_eq_true, Bool.and_eq_true, beq_iff_eq] at h
      rw [isSilent, Bool.and_eq_true] at hsilent
      rw [h.1.1, eq_of_same a c h.1.2 hsilent.1, eq_of_same b d h.2 hsilent.2]
    | _ => simp [same] at h
  | .logical op a b, e, h, hsilent => by
    cases e with
    | logical op' c d =>
      rw [same, Bool.and_eq_true, Bool.and_eq_true, beq_iff_eq] at h
      rw [isSilent, Bool.and_eq_true] at hsilent
      rw [h.1.1, eq_of_same a c h.1.2 hsilent.1, eq_of_same b d h.2 hsilent.2]
    | _ => simp [same] at h
  | .conditional a b c, g, h, hsilent => by
    cases g with
    | conditional d e f =>
      rw [same, Bool.and_eq_true, Bool.and_eq_true] at h
      rw [isSilent, Bool.and_eq_true, Bool.and_eq_true] at hsilent
      rw [eq_of_same a d h.1.1 hsilent.1.1, eq_of_same b e h.1.2 hsilent.1.2,
        eq_of_same c f h.2 hsilent.2]
    | _ => simp [same] at h
  | .array _, e, h, hsilent | .call _ _, e, h, hsilent | .function _ _ _, e, h, hsilent
  | .assignment _ _ _, e, h, hsilent | .update _ _ _, e, h, hsilent => by
    cases e <;> simp_all [same, isSilent]

def isWrittenZero {ν : Type} [Numeric ν] (e : Expression ν) : Bool :=
  (e.asNumber?.map Numeric.isZero).getD false

/-- Whether the rules for a binary operation leave out an operand that is not neutral: beside a
zero, or compared with what it cannot be equal to. -/
def absorbs {ν : Type} [Numeric ν] (op : BinaryOperator) (left right : Expression ν) : Bool :=
  (Simplify.compareWithPrimitive op left right).isSome ||
    op == .multiply && (left.isWrittenZero || right.isWrittenZero)

/-- The rules for a binary operation leave out nothing that does something. -/
def sparesBinary (op : BinaryOperator) (left right : Expression (Exact M)) : Prop :=
  absorbs op left right = true → left.isSilent = true ∧ right.isSilent = true

/-- A written right operand takes the place of nothing that does something, and where the value of
the selection counts, both operands are truth values. -/
def sparesLogical (isTest : Bool) (op : LogicalOperator) (left right : Expression (Exact M)) :
    Prop :=
  ∀ l, left.asLiteral? = none → right.asLiteral? = some l →
    (op.decides l.isTruthy = true → left.isSilent = true) ∧
      (isTest = false → left.isBoolean = true ∧ right.isBoolean = true)

def repeats (test : Expression (Exact M)) : Expression (Exact M) → Bool
  | .conditional inner _ _ => inner.same test
  | _ => false

/-- A test that is evaluated by one choice takes the place of no test that does something, and is
left out itself only if it does nothing and makes no difference. -/
def sparesConditional (test consequent alternate : Expression (Exact M)) : Prop :=
  test.asLiteral? = none →
    (repeats test consequent = true ∨ repeats test alternate = true → test.isSilent = true) ∧
      (consequent.same alternate = true → test.hasEffect = false →
        test.isSilent = true ∧ consequent = alternate)

end Expression

/-- Simplifying the expression to the depth leaves out only what does nothing or what no run gets
to. Of a test only the truth counts, and of what is negated. -/
def Simplify.Spares : (depth : Nat) → (isTest : Bool) → Expression (Exact M) → Prop
  | 0, _, _ => True
  | depth + 1, isTest, e =>
    match e with
    | .unary op a => Spares depth (op == .not) a
    | .binary op a b =>
      Spares depth false a ∧ Spares depth false b ∧
        Expression.sparesBinary op (upTo depth a) (upTo depth b) ∧
        ∀ l r, upTo depth b = .binary op l r → op.isAssociative = true →
          Spares depth false (.binary op (upTo depth a) l)
    | .logical op a b =>
      Spares depth isTest a ∧ Expression.sparesLogical isTest op (upTo depth a) (upTo depth b) ∧
        ((∀ l, (upTo depth a).asLiteral? = some l → op.decides l.isTruthy = false) →
          Spares depth isTest b)
    | .conditional t c a =>
      Spares depth true t ∧
        Expression.sparesConditional (upTo depth t) (upTo depth c) (upTo depth a) ∧
        ((∀ l, (upTo depth t).asLiteral? = some l → l.isTruthy = true) → Spares depth isTest c) ∧
        ((∀ l, (upTo depth t).asLiteral? = some l → l.isTruthy = false) → Spares depth isTest a)
    | _ => True

namespace Expression

/-- Simplifying the expression leaves out only what does nothing or what no run gets to. -/
def Spares (e : Expression (Exact M)) : Prop :=
  Simplify.Spares e.reach false e

/-- Simplification leaves the expression as it is, whatever is in it. -/
def isWhole {ν : Type} : Expression ν → Bool
  | .builtin _ | .array _ | .member _ _ | .call _ _ | .function _ _ _ | .update _ _ _ => true
  | _ => false

/-- Evaluating the expression from the first store ends with the value in the second one, and has
the effects. On the way arithmetic has numbers on both sides, equality has anything, names stand for
no negative number, and assignments that are shortened add alike. -/
inductive Performs (call : Caller (Exact M)) (env : Environment) :
    Expression (Exact M) → Store (Exact M) → Value (Exact M) → Store (Exact M) →
      List (Effect (Exact M)) → Prop
  | literal (l s) : Performs call env (.literal l) s (.primitive l) s []
  | name {name s v} (h : s.lookup? name env = some v)
    (hnonneg : ∀ q, v = .number (.of q) → 0 ≤ q) : Performs call env (.identifier name) s v s []
  | whole {e s v t} (he : e.isWhole = true) (h : (e.evaluate call env).outcome s = (.ok v, t)) :
    Performs call env e s v t (e.effects call env s)
  | assignment {op target value s v t}
    (h : ((Expression.assignment op target value).evaluate call env).outcome s = (.ok v, t))
    (halike : ShortensAlike call env op target value s) :
    Performs call env (.assignment op target value) s v t
      ((Expression.assignment op target value).effects call env s)
  | unary (op) {a s v t τ} (ha : Performs call env a s v t τ) :
    Performs call env (.unary op a) s (op.apply v) t τ
  | numbers {op a b s t u τ υ p q l} (ha : Performs call env a s (.number (.of p)) t τ)
    (hb : Performs call env b t (.number (.of q)) u υ)
    (h : Meaning.arithmetic op p q = some (.primitive l)) :
    Performs call env (.binary op a b) s (.primitive l) u (τ ++ υ)
  | equality {op a b s t u τ υ v w} (hop : op.isEquality = true)
    (ha : Performs call env a s v t τ) (hb : Performs call env b t w u υ) :
    Performs call env (.binary op a b) s (op.apply v w) u (τ ++ υ)
  | decided {op a b s v t τ} (ha : Performs call env a s v t τ)
    (h : op.decides v.isTruthy = true) : Performs call env (.logical op a b) s v t τ
  | undecided {op a b s t u τ υ v w} (ha : Performs call env a s v t τ)
    (h : op.decides v.isTruthy = false) (hb : Performs call env b t w u υ) :
    Performs call env (.logical op a b) s w u (τ ++ υ)
  | consequent {a b c s t u τ υ v w} (ha : Performs call env a s v t τ) (h : v.isTruthy = true)
    (hb : Performs call env b t w u υ) : Performs call env (.conditional a b c) s w u (τ ++ υ)
  | alternate {a b c s t u τ υ v w} (ha : Performs call env a s v t τ) (h : v.isTruthy = false)
    (hc : Performs call env c t w u υ) : Performs call env (.conditional a b c) s w u (τ ++ υ)

namespace Performs

variable {call : Caller (Exact M)} {env : Environment} {e a b c : Expression (Exact M)}
  {s t u : Store (Exact M)} {v w : Value (Exact M)} {τ υ : List (Effect (Exact M))}
  {op inner : BinaryOperator} {x : Exact M} {p q : ℚ} {l m : Literal (Exact M)}

theorem evaluate (h : Performs call env e s v t τ) :
    (e.evaluate call env).outcome s = (.ok v, t) := by
  induction h with
  | literal => rfl
  | name h _ => exact Run.outcome_read_of_lookup h
  | whole _ h | assignment h _ => exact h
  | unary op _ iha => exact Run.bind_ok.2 ⟨_, _, iha, rfl⟩
  | numbers _ _ h iha ihb =>
    obtain rfl := Meaning.primitive.inj (Meaning.arithmetic_eq h)
    refine Run.bind_ok.2 ⟨_, _, iha, Run.bind_ok.2 ⟨_, _, ihb, ?_⟩⟩
    rw [Value.number, Value.number, Reading.binary_apply_primitives]
    rfl
  | equality _ _ _ iha ihb => exact Run.bind_ok.2 ⟨_, _, iha, Run.bind_ok.2 ⟨_, _, ihb, rfl⟩⟩
  | decided _ h iha =>
    refine Run.bind_ok.2 ⟨_, _, iha, ?_⟩
    rw [if_pos h]
    rfl
  | undecided _ h _ iha ihb =>
    refine Run.bind_ok.2 ⟨_, _, iha, ?_⟩
    rw [if_neg (by rw [h]; decide)]
    exact ihb
  | consequent _ h _ iha ihb =>
    refine Run.bind_ok.2 ⟨_, _, iha, ?_⟩
    rw [if_pos h]
    exact ihb
  | alternate _ h _ iha ihb =>
    refine Run.bind_ok.2 ⟨_, _, iha, ?_⟩
    rw [if_neg (by rw [h]; decide)]
    exact ihb

theorem effects_eq (h : Performs call env e s v t τ) : e.effects call env s = τ := by
  induction h with
  | literal | name | whole | assignment => rfl
  | unary op _ iha => exact iha
  | numbers ha _ _ iha ihb | equality _ ha _ iha ihb =>
    rw [effects, iha, Run.andThen_of_outcome ha.evaluate, ihb]
  | decided ha h iha =>
    rw [effects, iha, Run.andThen_of_outcome ha.evaluate, if_pos h, List.append_nil]
  | undecided ha h _ iha ihb =>
    rw [effects, iha, Run.andThen_of_outcome ha.evaluate, if_neg (by rw [h]; decide), ihb]
  | consequent ha h _ iha ihb =>
    rw [effects, iha, Run.andThen_of_outcome ha.evaluate, if_pos h, ihb]
  | alternate ha h _ iha ihb =>
    rw [effects, iha, Run.andThen_of_outcome ha.evaluate, if_neg (by rw [h]; decide), ihb]

/-- What is silent performs nothing, and leaves the store as it is. -/
theorem eq_nil_of_isSilent (h : Performs call env e s v t τ) (hsilent : e.isSilent = true) :
    t = s ∧ τ = [] :=
  ⟨e.eq_store_of_isSilent hsilent h.evaluate, by
    rw [← h.effects_eq, e.effects_eq_nil_of_hasEffect (e.hasEffect_of_isSilent hsilent)]⟩

/-- A run from one store ends in one way. -/
theorem unique (h : Performs call env e s v t τ) (h' : Performs call env e s w u υ) :
    w = v ∧ u = t ∧ υ = τ := by
  have hrun := h'.evaluate
  rw [h.evaluate] at hrun
  cases hrun
  exact ⟨rfl, rfl, h'.effects_eq.symm.trans h.effects_eq⟩

theorem of_literal (h : Performs call env (.literal l) s v t τ) :
    v = .primitive l ∧ t = s ∧ τ = [] :=
  (Performs.literal l s).unique h

/-! ## Rules for binary operators -/

theorem isEquality_of_isAssociative (hop : op.isAssociative = true) : op.isEquality = false := by
  cases op <;> first | rfl | cases hop

theorem isEquality_of_arithmetic {d : Meaning M} (h : Meaning.arithmetic op p q = some d) :
    op.isEquality = false := by
  cases op <;> first | rfl | cases h

theorem of_numbers (h : Performs call env (.binary op a b) s v t τ) (hop : op.isEquality = false) :
    ∃ p q l s₁ τ₁ τ₂, Performs call env a s (.number (.of p)) s₁ τ₁ ∧
      Performs call env b s₁ (.number (.of q)) t τ₂ ∧
      Meaning.arithmetic op p q = some (.primitive l) ∧ v = .primitive l ∧ τ = τ₁ ++ τ₂ := by
  cases h with
  | whole he => cases he
  | numbers ha hb h => exact ⟨_, _, _, _, _, _, ha, hb, h, rfl, rfl⟩
  | equality hequality =>
    rw [hop] at hequality
    cases hequality

theorem of_number (h : Performs call env (.number x) s (.number (.of p)) t τ) :
    x = .of p ∧ t = s ∧ τ = [] := by
  obtain ⟨hv, ht, hτ⟩ := h.of_literal
  cases hv
  exact ⟨rfl, ht, hτ⟩

theorem of_number_left (h : Performs call env (.binary op (.number x) b) s v t τ)
    (hop : op.isEquality = false) :
    ∃ p q l, x = .of p ∧ Performs call env b s (.number (.of q)) t τ ∧
      Meaning.arithmetic op p q = some (.primitive l) ∧ v = .primitive l := by
  obtain ⟨p, q, l, s₁, τ₁, τ₂, ha, hb, hl, rfl, rfl⟩ := h.of_numbers hop
  obtain ⟨rfl, rfl, rfl⟩ := ha.of_number
  exact ⟨p, q, l, rfl, hb, hl, rfl⟩

theorem of_number_right (h : Performs call env (.binary op a (.number x)) s v t τ)
    (hop : op.isEquality = false) :
    ∃ p q l, x = .of q ∧ Performs call env a s (.number (.of p)) t τ ∧
      Meaning.arithmetic op p q = some (.primitive l) ∧ v = .primitive l := by
  obtain ⟨p, q, l, s₁, τ₁, τ₂, ha, hb, hl, rfl, rfl⟩ := h.of_numbers hop
  obtain ⟨rfl, rfl, rfl⟩ := hb.of_number
  rw [List.append_nil]
  exact ⟨p, q, l, rfl, ha, hl, rfl⟩

theorem number_right (ha : Performs call env a s (.number (.of p)) t τ)
    (h : Meaning.arithmetic op p q = some (.primitive l)) :
    Performs call env (.binary op a (.number (.of q))) s (.primitive l) t τ := by
  have hnumber := ha.numbers (.literal (.number (.of q)) t) h
  rwa [List.append_nil] at hnumber

/-- The first half of a regrouped chain performs first, whatever takes its place. -/
theorem regroup (hop : op.isAssociative = true)
    (h : Performs call env (.binary op a (.binary op b c)) s v t τ) :
    ∃ w u υ, Performs call env (.binary op a b) s w u υ ∧
      ∀ e, Performs call env e s w u υ → Performs call env (.binary op e c) s v t τ := by
  have hequality := isEquality_of_isAssociative hop
  obtain ⟨p, q, l, s₁, τ₁, τ₂, ha, hbc, hl, rfl, rfl⟩ := h.of_numbers hequality
  obtain ⟨q', r, k, s₂, τ₃, τ₄, hb, hc, hk, hq, rfl⟩ := hbc.of_numbers hequality
  obtain rfl := Value.primitive.inj hq
  rw [← Meaning.binary_number hequality] at hl
  obtain ⟨w, hfirst, hsecond⟩ := Simplify.arithmetic_regroup hop hk hl
  refine ⟨_, s₂, τ₁ ++ τ₃, ha.numbers hb hfirst, fun e he => ?_⟩
  rw [← List.append_assoc]
  exact he.numbers hc hsecond

theorem fold_eq (h : Meaning.arithmetic op p q = some (.primitive l)) :
    Simplify.fold op (.of p : Exact M) (.of q) = .literal l := by
  rw [Simplify.fold, Meaning.primitive.inj (Meaning.arithmetic_eq h)]

/-- Two written numbers of a chain are folded without anything between them being left out. -/
theorem merge (hop : op.isAssociative = true)
    (h : Performs call env (.binary op (.binary op a b) (.number x)) s v t τ) (y : Exact M) :
    (a = .number y → Performs call env (.binary op (Simplify.fold op y x) b) s v t τ) ∧
      (b = .number y → Performs call env (.binary op a (Simplify.fold op y x)) s v t τ) := by
  have hequality := isEquality_of_isAssociative hop
  obtain ⟨p, q, l, rfl, hab, hl, rfl⟩ := h.of_number_right hequality
  obtain ⟨q', r, k, s₁, τ₁, τ₂, ha, hb, hk, hp, rfl⟩ := hab.of_numbers hequality
  obtain rfl := Value.primitive.inj hp
  rw [← Meaning.binary_number hequality] at hl
  obtain ⟨⟨w, hw, hwl⟩, z, hz, hzl⟩ := Simplify.arithmetic_assoc hop hk hl
  constructor
  · rintro rfl
    obtain ⟨rfl, rfl, rfl⟩ := ha.of_number
    rw [fold_eq hw]
    exact (Performs.literal (.number (.of w)) s₁).numbers hb hwl
  · rintro rfl
    obtain ⟨rfl, rfl, rfl⟩ := hb.of_number
    rw [fold_eq hz, List.append_nil]
    exact ha.number_right hzl

/-- A written number that is subtracted on the left of a difference or a comparison may be added on
the right. -/
theorem shift (hop : (op == .subtract || op.isOrdering) = true) {y : Exact M}
    (h : Performs call env (.binary op (.binary .subtract a (.number y)) (.number x)) s v t τ) :
    Performs call env (.binary op a (Simplify.fold .add y x)) s v t τ := by
  have hequality : op.isEquality = false := by
    cases op <;> first | rfl | cases hop
  obtain ⟨p, q, l, rfl, hab, hl, rfl⟩ := h.of_number_right hequality
  obtain ⟨r, q', k, rfl, ha, hk, hp⟩ := hab.of_number_right rfl
  cases hk
  cases hp
  have hsum : Meaning.arithmetic .add q' q =
      some (.primitive (.number (.of (q' + q))) : Meaning M) := rfl
  rw [fold_eq hsum]
  rw [← Meaning.binary_number hequality] at hl
  exact ha.number_right (Simplify.arithmetic_shift hop hl)

theorem withLeftNumber (h : Performs call env (.binary op (.number x) b) s v t τ)
    (hrule : Simplify.withLeftNumber op x b = some e)
    (hspares : op = .multiply → Numeric.isZero x = true → b.isSilent = true) :
    Performs call env e s v t τ := by
  unfold Simplify.withLeftNumber at hrule
  split at hrule
  · obtain ⟨hx, ⟨⟩⟩ := Option.ite_none_right_eq_some.1 hrule
    obtain ⟨p, q, l, rfl, hb, hl, rfl⟩ := h.of_number_left rfl
    obtain rfl := Exact.of_inj (Exact.isZero_iff.1 hx)
    rw [Meaning.arithmetic, zero_add] at hl
    cases hl
    exact hb
  · obtain ⟨p, q, l, rfl, hb, hl, rfl⟩ := h.of_number_left rfl
    split at hrule
    · next hx =>
      cases hrule
      obtain ⟨rfl, rfl⟩ := hb.eq_nil_of_isSilent (hspares rfl hx)
      obtain rfl := Exact.of_inj (Exact.isZero_iff.1 hx)
      rw [Meaning.arithmetic, zero_mul] at hl
      cases hl
      exact .literal _ _
    · obtain ⟨hx, ⟨⟩⟩ := Option.ite_none_right_eq_some.1 hrule
      obtain rfl := Exact.of_inj (Exact.isOne_iff.1 hx)
      rw [Meaning.arithmetic, one_mul] at hl
      cases hl
      exact hb
  · cases hrule

theorem withRightNumber (h : Performs call env (.binary op a (.number x)) s v t τ)
    (hrule : Simplify.withRightNumber op a x = some e)
    (hspares : op = .multiply → Numeric.isZero x = true → a.isSilent = true) :
    Performs call env e s v t τ := by
  unfold Simplify.withRightNumber at hrule
  split at hrule
  · obtain ⟨hx, ⟨⟩⟩ := Option.ite_none_right_eq_some.1 hrule
    obtain ⟨p, q, l, rfl, ha, hl, rfl⟩ := h.of_number_right rfl
    obtain rfl := Exact.of_inj (Exact.isZero_iff.1 hx)
    rw [Meaning.arithmetic, add_zero] at hl
    cases hl
    exact ha
  · obtain ⟨hx, ⟨⟩⟩ := Option.ite_none_right_eq_some.1 hrule
    obtain ⟨p, q, l, rfl, ha, hl, rfl⟩ := h.of_number_right rfl
    obtain rfl := Exact.of_inj (Exact.isZero_iff.1 hx)
    rw [Meaning.arithmetic, sub_zero] at hl
    cases hl
    exact ha
  · obtain ⟨p, q, l, rfl, ha, hl, rfl⟩ := h.of_number_right rfl
    split at hrule
    · next hx =>
      cases hrule
      obtain ⟨rfl, rfl⟩ := ha.eq_nil_of_isSilent (hspares rfl hx)
      obtain rfl := Exact.of_inj (Exact.isZero_iff.1 hx)
      rw [Meaning.arithmetic, mul_zero] at hl
      cases hl
      exact .literal _ _
    · obtain ⟨hx, ⟨⟩⟩ := Option.ite_none_right_eq_some.1 hrule
      obtain rfl := Exact.of_inj (Exact.isOne_iff.1 hx)
      rw [Meaning.arithmetic, mul_one] at hl
      cases hl
      exact ha
  · obtain ⟨hx, ⟨⟩⟩ := Option.ite_none_right_eq_some.1 hrule
    obtain ⟨p, q, l, rfl, ha, hl, rfl⟩ := h.of_number_right rfl
    obtain rfl := Exact.of_inj (Exact.isOne_iff.1 hx)
    rw [Meaning.arithmetic, if_neg one_ne_zero, div_one] at hl
    cases hl
    exact ha
  · split at hrule
    · obtain ⟨hx, ⟨⟩⟩ := Option.ite_none_right_eq_some.1 hrule
      obtain ⟨p, q, l, rfl, ha, hl, rfl⟩ := h.of_number_right rfl
      obtain rfl := Exact.of_inj (Exact.isZero_iff.1 hx)
      cases ha with
      | whole he => cases he
      | name hread hnonneg =>
        rw [Meaning.arithmetic, decide_eq_false (not_lt.2 (hnonneg p rfl))] at hl
        cases hl
        exact .literal _ _
    · cases hrule
  · cases hrule

theorem mergeNumbers (h : Performs call env (.binary op (.binary inner a b) (.number x)) s v t τ)
    (hrule : Simplify.mergeNumbers op inner a b x = some e) : Performs call env e s v t τ := by
  unfold Simplify.mergeNumbers at hrule
  split at hrule
  · next hop =>
    rw [Bool.and_eq_true, beq_iff_eq] at hop
    obtain ⟨rfl, hassociative⟩ := hop
    split at hrule
    · next y hy =>
      cases hrule
      exact (h.merge hassociative y).1 (Expression.eq_number_of_asNumber? hy)
    · next y _ hy =>
      cases hrule
      exact (h.merge hassociative y).2 (Expression.eq_number_of_asNumber? hy)
    · cases hrule
  · split at hrule
    · next y hy =>
      obtain ⟨hop, ⟨⟩⟩ := Option.ite_none_right_eq_some.1 hrule
      rw [Bool.and_eq_true, beq_iff_eq] at hop
      obtain ⟨rfl, hop⟩ := hop
      rw [Expression.eq_number_of_asNumber? hy] at h
      exact h.shift hop
    · cases hrule

theorem finishBinary (h : Performs call env (.binary op a b) s v t τ)
    (hspares : op = .multiply → b.isWrittenZero = true → a.isSilent = true) :
    Performs call env (Simplify.finishBinary op a b) s v t τ := by
  unfold Simplify.finishBinary
  split
  · exact h
  · next x hx =>
    obtain rfl := Expression.eq_number_of_asNumber? hx
    split
    · next hresult => exact h.withRightNumber hresult hspares
    · split
      · next inner l r _ =>
        cases hmerge : Simplify.mergeNumbers op inner l r x with
        | none => exact h
        | some merged => exact h.mergeNumbers hmerge
      · exact h

theorem compareWithLiteral_sound {f : Builtin} {r : Bool}
    (hrule : Simplify.compareWithLiteral op l = some r) :
    op.isEquality = true ∧ op.apply (.primitive l) (.builtin f) = .boolean r ∧
      op.apply (.builtin f) (.primitive l) = (.boolean r : Value (Exact M)) := by
  unfold Simplify.compareWithLiteral at hrule
  split at hrule
  · cases hrule
    exact ⟨rfl, rfl, rfl⟩
  · cases hrule
    exact ⟨rfl, rfl, rfl⟩
  · obtain ⟨hl, ⟨⟩⟩ := Option.ite_none_right_eq_some.1 hrule
    simp [BinaryOperator.isEquality, BinaryOperator.apply, Value.looselyEqual, hl]
  · obtain ⟨hl, ⟨⟩⟩ := Option.ite_none_right_eq_some.1 hrule
    simp [BinaryOperator.isEquality, BinaryOperator.apply, Value.looselyEqual, hl]
  · cases hrule

theorem of_builtin {f : Builtin} (h : Performs call env (.builtin f) s v t τ) :
    v = .builtin f ∧ t = s ∧ τ = [] :=
  (Performs.whole rfl rfl).unique h

theorem exists_builtin_of_isStructure (hstructure : Simplify.isStructure e = true)
    (hsilent : e.isSilent = true) : ∃ f, e = .builtin f := by
  cases e with
  | builtin f => exact ⟨f, rfl⟩
  | array | function => cases hsilent
  | _ => cases hstructure

/-- A comparison with a literal is decided by what is not a primitive, which is left out. -/
theorem compareWithPrimitive {r : Bool} (h : Performs call env (.binary op a b) s v t τ)
    (hrule : Simplify.compareWithPrimitive op a b = some r) (ha : a.isSilent = true)
    (hb : b.isSilent = true) : Performs call env (.boolean r) s v t τ := by
  have hequal (hop : op.isEquality = true) : ∃ v' w' s' τ' τ'', Performs call env a s v' s' τ' ∧
      Performs call env b s' w' t τ'' ∧ v = op.apply v' w' ∧ τ = τ' ++ τ'' := by
    cases h with
    | whole he => cases he
    | numbers _ _ harithmetic =>
      rw [isEquality_of_arithmetic harithmetic] at hop
      cases hop
    | equality _ ha hb => exact ⟨_, _, _, _, _, ha, hb, rfl, rfl⟩
  unfold Simplify.compareWithPrimitive at hrule
  split at hrule
  · obtain ⟨hstructure, hrule⟩ := Option.ite_none_right_eq_some.1 hrule
    obtain ⟨f, rfl⟩ := exists_builtin_of_isStructure hstructure hb
    obtain ⟨hop, happly, -⟩ := compareWithLiteral_sound (f := f) hrule
    obtain ⟨v', w', s', τ', τ'', hl, hf, rfl, rfl⟩ := hequal hop
    obtain ⟨rfl, rfl, rfl⟩ := hl.of_literal
    obtain ⟨rfl, rfl, rfl⟩ := hf.of_builtin
    rw [happly]
    exact .literal _ _
  · obtain ⟨hstructure, hrule⟩ := Option.ite_none_right_eq_some.1 hrule
    obtain ⟨f, rfl⟩ := exists_builtin_of_isStructure hstructure ha
    obtain ⟨hop, -, happly⟩ := compareWithLiteral_sound (f := f) hrule
    obtain ⟨v', w', s', τ', τ'', hf, hl, rfl, rfl⟩ := hequal hop
    obtain ⟨rfl, rfl, rfl⟩ := hf.of_builtin
    obtain ⟨rfl, rfl, rfl⟩ := hl.of_literal
    rw [happly]
    exact .literal _ _
  · cases hrule

theorem binary_rule {again : Expression (Exact M) → Expression (Exact M)}
    (hagain : ∀ l r, b = .binary op l r → op.isAssociative = true → ∀ {s v t τ},
      Performs call env (.binary op a l) s v t τ →
        Performs call env (again (.binary op a l)) s v t τ)
    (h : Performs call env (.binary op a b) s v t τ)
    (hspares : sparesBinary op a b) :
    Performs call env (Simplify.binary again op a b) s v t τ := by
  have hfinish : Performs call env (Simplify.finishBinary op a b) s v t τ := by
    refine h.finishBinary fun hop hzero => (hspares ?_).1
    rw [absorbs, hop, hzero, Bool.or_true, Bool.and_true, beq_self_eq_true, Bool.or_true]
  unfold Simplify.binary
  split
  · next l m hl hm =>
    obtain rfl := Expression.eq_literal_of_asLiteral? hl
    obtain rfl := Expression.eq_literal_of_asLiteral? hm
    have hfold : Performs call env (.literal (op.evaluate l m)) s
        (.primitive (op.evaluate l m)) s [] := .literal _ _
    have hrun : ((binary op (.literal l) (.literal m)).evaluate call env).outcome s =
        (.ok (.primitive (op.evaluate l m)), s) := by
      rw [← Reading.binary_apply_primitives]
      rfl
    have heffects : (binary op (.literal l) (.literal m)).effects call env s = [] := rfl
    have hrun' := h.evaluate
    rw [hrun] at hrun'
    cases hrun'
    rw [← h.effects_eq, heffects]
    exact hfold
  · split
    · next r hr =>
      obtain ⟨ha, hb⟩ := hspares (by rw [absorbs, hr]; rfl)
      exact h.compareWithPrimitive hr ha hb
    · split
      · next hresult =>
        obtain ⟨x, hx, hrule⟩ := Option.bind_eq_some_iff.1 hresult
        obtain rfl := Expression.eq_number_of_asNumber? hx
        refine h.withLeftNumber hrule fun hop hzero => (hspares ?_).2
        have hwritten : (Expression.number x).isWrittenZero = true := hzero
        rw [absorbs, hop, hwritten, Bool.true_or, Bool.and_true, beq_self_eq_true, Bool.or_true]
      · split
        · next inner l r _ _ _ =>
          split
          · next hop =>
            rw [Bool.and_eq_true, beq_iff_eq] at hop
            obtain ⟨rfl, hassociative⟩ := hop
            obtain ⟨w, u, υ, hfirst, hchain⟩ := h.regroup hassociative
            exact hchain _ (hagain l r rfl hassociative hfirst)
          · exact hfinish
        · exact hfinish

end Performs

end Expression

end Waveform
