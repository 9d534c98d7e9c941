import Waveform.Proofs.Symbolic.Evaluation

/-!
# Literals of expressions

Where names stand for literals, an expression of operators comes to a literal, as long as arithmetic
and comparisons have numbers to work on. Nothing else is asked: a logical operator may have operands
of any kind, and a choice may be made by any test. Evaluation gives this literal, and the rules for
binary operators keep it.
-/

namespace Waveform

variable {M : Mathematics}

abbrev Literals (M : Mathematics) := String → Option (Literal (Exact M))

/-- No name stands for a negative number. -/
def Literals.IsNonneg (ρ : Literals M) : Prop :=
  ∀ name q, ρ name = some (.number (.of q)) → 0 ≤ q

def Literals.HoldsIn (ρ : Literals M) (s : Store (Exact M)) (env : Environment) : Prop :=
  ∀ name l, ρ name = some l → s.lookup? name env = some (.primitive l)

/-- Whether the literal is a rational number. -/
def Literal.isRational : Literal (Exact M) → Bool
  | .number x => x.value?.isSome
  | _ => false

/-- What an operator comes to on two literals. Other operators than equality ask for numbers. -/
def BinaryOperator.combine? (op : BinaryOperator) (l m : Literal (Exact M)) :
    Option (Literal (Exact M)) :=
  if op.isEquality || (l.isRational && m.isRational) then some (op.evaluate l m) else none

/-- The literal that an expression of operators comes to, if each of its operands comes to one. -/
def Expression.literalAt? (ρ : Literals M) : Expression (Exact M) → Option (Literal (Exact M))
  | .literal l => some l
  | .identifier name => ρ name
  | .unary op a => (a.literalAt? ρ).map op.evaluate
  | .binary op a b =>
    (a.literalAt? ρ).bind fun l => (b.literalAt? ρ).bind fun m => op.combine? l m
  | .logical op a b =>
    (a.literalAt? ρ).bind fun l => (b.literalAt? ρ).map fun m => op.select l m l.isTruthy
  | .conditional t a b =>
    (t.literalAt? ρ).bind fun w => (a.literalAt? ρ).bind fun l => (b.literalAt? ρ).map fun m =>
      if w.isTruthy then l else m
  | _ => none

namespace Expression

variable {ρ : Literals M} {a b t : Expression (Exact M)} {l : Literal (Exact M)}

theorem literalAt?_unary {op : UnaryOperator} :
    (unary op a).literalAt? ρ = some l ↔ ∃ u, a.literalAt? ρ = some u ∧ l = op.evaluate u := by
  change (a.literalAt? ρ).map op.evaluate = some l ↔ _
  rw [Option.map_eq_some_iff]
  exact exists_congr fun u => and_congr .rfl eq_comm

theorem literalAt?_binary {op : BinaryOperator} :
    (binary op a b).literalAt? ρ = some l ↔
      ∃ u v, a.literalAt? ρ = some u ∧ b.literalAt? ρ = some v ∧ op.combine? u v = some l := by
  change ((a.literalAt? ρ).bind fun l => (b.literalAt? ρ).bind fun m => op.combine? l m) = some l ↔ _
  simp only [Option.bind_eq_some_iff]
  constructor
  · rintro ⟨u, hu, v, hv, h⟩
    exact ⟨u, v, hu, hv, h⟩
  · rintro ⟨u, v, hu, hv, h⟩
    exact ⟨u, hu, v, hv, h⟩

theorem literalAt?_logical {op : LogicalOperator} :
    (logical op a b).literalAt? ρ = some l ↔
      ∃ u v, a.literalAt? ρ = some u ∧ b.literalAt? ρ = some v ∧ l = op.select u v u.isTruthy := by
  change ((a.literalAt? ρ).bind fun l => (b.literalAt? ρ).map fun m =>
    op.select l m l.isTruthy) = some l ↔ _
  simp only [Option.bind_eq_some_iff, Option.map_eq_some_iff]
  constructor
  · rintro ⟨u, hu, v, hv, rfl⟩
    exact ⟨u, v, hu, hv, rfl⟩
  · rintro ⟨u, v, hu, hv, rfl⟩
    exact ⟨u, hu, v, hv, rfl⟩

theorem literalAt?_conditional :
    (conditional t a b).literalAt? ρ = some l ↔
      ∃ w u v, t.literalAt? ρ = some w ∧ a.literalAt? ρ = some u ∧ b.literalAt? ρ = some v ∧
        l = if w.isTruthy then u else v := by
  change ((t.literalAt? ρ).bind fun w => (a.literalAt? ρ).bind fun l => (b.literalAt? ρ).map fun m =>
    if w.isTruthy then l else m) = some l ↔ _
  simp only [Option.bind_eq_some_iff, Option.map_eq_some_iff]
  constructor
  · rintro ⟨w, hw, u, hu, v, hv, rfl⟩
    exact ⟨w, u, v, hw, hu, hv, rfl⟩
  · rintro ⟨w, u, v, hw, hu, hv, rfl⟩
    exact ⟨w, hw, u, hu, v, hv, rfl⟩

theorem literalAt?_of_same (ρ : Literals M) : (a b : Expression (Exact M)) → a.same b = true →
    a.literalAt? ρ = b.literalAt? ρ
  | .literal l, e, h => by
    cases e with
    | literal m =>
      rw [same] at h
      rw [Literal.eq_of_same h]
    | _ => simp [same] at h
  | .identifier n, e, h => by
    cases e with
    | identifier m =>
      rw [same, beq_iff_eq] at h
      rw [h]
    | _ => simp [same] at h
  | .unary op a, e, h => by
    cases e with
    | unary op' b =>
      rw [same, Bool.and_eq_true, beq_iff_eq] at h
      rw [literalAt?, literalAt?, h.1, literalAt?_of_same ρ a b h.2]
    | _ => simp [same] at h
  | .binary op a b, e, h => by
    cases e with
    | binary op' c d =>
      rw [same, Bool.and_eq_true, Bool.and_eq_true, beq_iff_eq] at h
      rw [literalAt?, literalAt?, h.1.1, literalAt?_of_same ρ a c h.1.2,
        literalAt?_of_same ρ b d h.2]
    | _ => simp [same] at h
  | .logical op a b, e, h => by
    cases e with
    | logical op' c d =>
      rw [same, Bool.and_eq_true, Bool.and_eq_true, beq_iff_eq] at h
      rw [literalAt?, literalAt?, h.1.1, literalAt?_of_same ρ a c h.1.2,
        literalAt?_of_same ρ b d h.2]
    | _ => simp [same] at h
  | .conditional a b c, g, h => by
    cases g with
    | conditional d e f =>
      rw [same, Bool.and_eq_true, Bool.and_eq_true] at h
      rw [literalAt?, literalAt?, literalAt?_of_same ρ a d h.1.1, literalAt?_of_same ρ b e h.1.2,
        literalAt?_of_same ρ c f h.2]
    | _ => simp [same] at h
  | .builtin _, e, h | .array _, e, h | .member _ _, e, h | .call _ _, e, h
  | .function _ _ _, e, h | .assignment _ _ _, e, h | .update _ _ _, e, h => by
    cases e <;> first | rfl | simp [same] at h

theorem evaluate_of_literalAt? {call : Caller (Exact M)} {env : Environment}
    {s : Store (Exact M)} (hs : ρ.HoldsIn s env) :
    (e : Expression (Exact M)) → {l : Literal (Exact M)} → e.literalAt? ρ = some l →
      (e.evaluate call env).outcome s = (.ok (.primitive l), s)
  | .literal m, l, h => by
    cases h
    rfl
  | .identifier name, l, h => Run.outcome_read_of_lookup (hs name l h)
  | .unary op a, l, h => by
    obtain ⟨u, hu, rfl⟩ := literalAt?_unary.1 h
    refine Run.bind_ok.2 ⟨_, s, evaluate_of_literalAt? hs a hu, ?_⟩
    cases op <;> rfl
  | .binary op a b, l, h => by
    obtain ⟨u, v, hu, hv, h⟩ := literalAt?_binary.1 h
    obtain ⟨-, ⟨⟩⟩ := Option.ite_none_right_eq_some.1 h
    refine Run.bind_ok.2 ⟨_, s, evaluate_of_literalAt? hs a hu, ?_⟩
    refine Run.bind_ok.2 ⟨_, s, evaluate_of_literalAt? hs b hv, ?_⟩
    cases op <;> rfl
  | .logical op a b, l, h => by
    obtain ⟨u, v, hu, hv, rfl⟩ := literalAt?_logical.1 h
    refine Run.bind_ok.2 ⟨_, s, evaluate_of_literalAt? hs a hu, ?_⟩
    change (if op.decides u.isTruthy = true then _ else _ : Run _ _).outcome s = _
    rw [LogicalOperator.select]
    split
    · rfl
    · exact evaluate_of_literalAt? hs b hv
  | .conditional t a b, l, h => by
    obtain ⟨w, u, v, hw, hu, hv, rfl⟩ := literalAt?_conditional.1 h
    refine Run.bind_ok.2 ⟨_, s, evaluate_of_literalAt? hs t hw, ?_⟩
    change (if w.isTruthy = true then _ else _ : Run _ _).outcome s = _
    split
    · exact evaluate_of_literalAt? hs a hu
    · exact evaluate_of_literalAt? hs b hv

end Expression

theorem Literal.isRational_iff {l : Literal (Exact M)} :
    l.isRational = true ↔ ∃ q, l = .number (.of q) := by
  constructor
  · intro h
    match l, h with
    | .number (some q), _ => exact ⟨q, rfl⟩
  · rintro ⟨q, rfl⟩
    rfl

theorem BinaryOperator.combine?_eq_some {op : BinaryOperator} (hop : op.isEquality = false)
    {l m r : Literal (Exact M)} :
    op.combine? l m = some r ↔
      ∃ p q, l = .number (.of p) ∧ m = .number (.of q) ∧
        r = op.evaluate (.number (.of p)) (.number (.of q)) := by
  rw [combine?, hop, Bool.false_or, Option.ite_none_right_eq_some, Bool.and_eq_true,
    Literal.isRational_iff, Literal.isRational_iff]
  constructor
  · rintro ⟨⟨⟨p, rfl⟩, q, rfl⟩, ⟨⟩⟩
    exact ⟨p, q, rfl, rfl, rfl⟩
  · rintro ⟨p, q, rfl, rfl, rfl⟩
    exact ⟨⟨⟨p, rfl⟩, q, rfl⟩, rfl⟩

namespace Literals

open Simplify Meaning

variable {ρ : Literals M}

def operate (op : BinaryOperator) : Meaning M → Meaning M → Option (Meaning M)
  | .primitive l, .primitive m => (op.combine? l m).map .primitive
  | _, _ => none

theorem operate_eq_some {op : BinaryOperator} {u v d : Meaning M} :
    operate op u v = some d ↔
      ∃ l m r, u = .primitive l ∧ v = .primitive m ∧ d = .primitive r ∧
        op.combine? l m = some r := by
  constructor
  · intro h
    match u, v, h with
    | .primitive l, .primitive m, h =>
      obtain ⟨r, hr, rfl⟩ := Option.map_eq_some_iff.1 h
      exact ⟨l, m, r, rfl, rfl, rfl, hr⟩
  · rintro ⟨l, m, r, rfl, rfl, rfl, hr⟩
    rw [operate, hr]
    rfl

theorem operate_of_isTotal {op : BinaryOperator} (hop : op.isTotal = true) :
    (operate op : Meaning M → Meaning M → Option (Meaning M)) = Meaning.binary op := by
  have hequality := BinaryOperator.isEquality_of_isTotal hop
  funext u v
  apply Option.ext
  intro d
  rw [operate_eq_some]
  constructor
  · rintro ⟨l, m, r, rfl, rfl, rfl, hr⟩
    obtain ⟨p, q, rfl, rfl, rfl⟩ := (BinaryOperator.combine?_eq_some hequality).1 hr
    obtain ⟨d, hd⟩ := exists_arithmetic (M := M) hop p q
    change Meaning.binary op (number p) (number q) = _
    rw [binary_number hequality, hd, arithmetic_eq hd]
  · intro h
    obtain ⟨p, q, rfl, rfl, hd⟩ := numbers_of_binary h hequality
    have hr := (BinaryOperator.combine?_eq_some (M := M) hequality).2 ⟨p, q, rfl, rfl, rfl⟩
    exact ⟨_, _, _, rfl, rfl, arithmetic_eq hd, hr⟩

theorem isComparison_of_operate {op : BinaryOperator} {u v : Meaning M} {b : Bool}
    (h : operate op u v = some (boolean b)) : op.isComparison = true := by
  obtain ⟨l, m, _, rfl, rfl, hr, hcombine⟩ := operate_eq_some.1 h
  cases op with
  | add | subtract | multiply | divide | remainder | exponent =>
    obtain ⟨p, q, rfl, rfl, rfl⟩ := (BinaryOperator.combine?_eq_some rfl).1 hcombine
    cases hr
  | _ => rfl

theorem faithful (hρ : ρ.IsNonneg) :
    Faithful (fun e d => ∃ l, e.literalAt? ρ = some l ∧ d = .primitive l) operate where
  literal l d := by
    simp only [Expression.literalAt?, Option.some.injEq, exists_eq_left']
  identifier name q h := by
    obtain ⟨l, hl, hq⟩ := h
    cases hq
    exact hρ name q hl
  unique name d d' h h' := by
    obtain ⟨l, hl, rfl⟩ := h
    obtain ⟨l', hl', rfl⟩ := h'
    rw [Option.some.inj (hl.symm.trans hl')]
  structured e l h := by
    cases e with
    | array _ | function _ _ _ | builtin _ =>
      rintro ⟨m, hm, -⟩
      cases hm
    | _ => cases h
  binary op a b d := by
    simp only [operate_eq_some, Expression.literalAt?_binary]
    constructor
    · rintro ⟨r, ⟨l, m, hl, hm, hr⟩, rfl⟩
      exact ⟨_, _, ⟨l, hl, rfl⟩, ⟨m, hm, rfl⟩, l, m, r, rfl, rfl, rfl, hr⟩
    · rintro ⟨_, _, ⟨l, hl, rfl⟩, ⟨m, hm, rfl⟩, _, _, r, ⟨⟩, ⟨⟩, rfl, hr⟩
      exact ⟨r, ⟨l, m, hl, hm, hr⟩, rfl⟩
  total op := operate_of_isTotal
  quotient u d h := by
    obtain ⟨l, m, r, rfl, hm, rfl, hr⟩ := operate_eq_some.1 h
    obtain ⟨p, q, rfl, rfl, rfl⟩ := (BinaryOperator.combine?_eq_some rfl).1 hr
    obtain rfl : 1 = q := number_inj hm
    have hdiv : Numeric.div (.of p : Exact M) (.of 1) = .of p := by
      rw [Exact.div_of p one_ne_zero, div_one]
    exact congrArg (fun x => primitive (.number x)) hdiv
  fold op l m d h := by
    obtain ⟨_, _, r, ⟨⟩, ⟨⟩, rfl, hr⟩ := operate_eq_some.1 h
    obtain ⟨-, ⟨⟩⟩ := Option.ite_none_right_eq_some.1 hr
    rfl
  compare op l c v d h hv hd := by
    rcases hd with hd | hd
    · obtain ⟨_, m, _, -, hm, -⟩ := operate_eq_some.1 hd
      exact absurd hm (hv m)
    · obtain ⟨m, _, _, hm, -⟩ := operate_eq_some.1 hd
      exact absurd hm (hv m)

theorem literalAt?_binary_rule (hρ : ρ.IsNonneg) {op : BinaryOperator}
    {again : Expression (Exact M) → Expression (Exact M)} {a b : Expression (Exact M)}
    (hagain : ∀ l r, b = .binary op l r → op.isAssociative = true → ∀ v,
      (Expression.binary op a l).literalAt? ρ = some v →
        (again (.binary op a l)).literalAt? ρ = some v)
    {v : Literal (Exact M)} (h : (Expression.binary op a b).literalAt? ρ = some v) :
    (Simplify.binary again op a b).literalAt? ρ = some v := by
  obtain ⟨w, hw, hv⟩ := (faithful hρ).reads_binary_rule
    (fun l r hb hop d ⟨u, hu, hd⟩ => ⟨u, hagain l r hb hop u hu, hd⟩) ⟨v, h, rfl⟩
  rwa [primitive.inj hv]

theorem exists_literalAt?_regroup (hρ : ρ.IsNonneg) {op : BinaryOperator}
    (hop : op.isAssociative = true) {a l r : Expression (Exact M)} {v : Literal (Exact M)}
    (h : (Expression.binary op a (.binary op l r)).literalAt? ρ = some v) :
    ∃ u, (Expression.binary op a l).literalAt? ρ = some u := by
  obtain ⟨s, -, ⟨u, hu, -⟩, -⟩ := (faithful hρ).reads_regroup hop ⟨v, h, rfl⟩
  exact ⟨u, hu⟩

end Literals

end Waveform
