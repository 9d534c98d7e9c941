import Waveform.Proofs.Symbolic.Lawful

/-!
# Simplification of what is denoted

A valuation of the names by numbers that are not negative reads expressions lawfully, so simplifying
an expression keeps what it denotes.
-/

namespace Waveform

variable {M : Mathematics} {ρ : Valuation}

namespace Expression

mutual

theorem denote_of_same (ρ : Valuation) : (a b : Expression (Exact M)) → a.same b = true →
    a.denote ρ = b.denote ρ
  | .literal l, b, h => by
    cases b with
    | literal m =>
      rw [same] at h
      rw [Literal.eq_of_same h]
    | _ => simp [same] at h
  | .identifier n, b, h => by
    cases b with
    | identifier m =>
      rw [same, beq_iff_eq] at h
      rw [h]
    | _ => simp [same] at h
  | .builtin _, b, h => by
    cases b with
    | builtin _ => rfl
    | _ => simp [same] at h
  | .function _ _ _, b, h => by
    cases b with
    | function _ _ _ => rfl
    | _ => simp [same] at h
  | .array as, b, h => by
    cases b with
    | array bs =>
      rw [same] at h
      rw [denote, denote, denoteAll_of_same ρ as bs h]
    | _ => simp [same] at h
  | .member a b, e, h => by
    cases e with
    | member c d =>
      rw [same, Bool.and_eq_true] at h
      rw [denote, denote, denote_of_same ρ a c h.1, denote_of_same ρ b d h.2]
    | _ => simp [same] at h
  | .unary op a, e, h => by
    cases e with
    | unary op' b =>
      rw [same, Bool.and_eq_true, beq_iff_eq] at h
      rw [denote, denote, h.1, denote_of_same ρ a b h.2]
    | _ => simp [same] at h
  | .binary op a b, e, h => by
    cases e with
    | binary op' c d =>
      rw [same, Bool.and_eq_true, Bool.and_eq_true, beq_iff_eq] at h
      rw [denote, denote, h.1.1, denote_of_same ρ a c h.1.2, denote_of_same ρ b d h.2]
    | _ => simp [same] at h
  | .logical op a b, e, h => by
    cases e with
    | logical op' c d =>
      rw [same, Bool.and_eq_true, Bool.and_eq_true, beq_iff_eq] at h
      rw [denote, denote, h.1.1, denote_of_same ρ a c h.1.2, denote_of_same ρ b d h.2,
        isTruth_of_same ρ b d h.2]
    | _ => simp [same] at h
  | .conditional a b c, g, h => by
    cases g with
    | conditional d e f =>
      rw [same, Bool.and_eq_true, Bool.and_eq_true] at h
      rw [denote, denote, denote_of_same ρ a d h.1.1, denote_of_same ρ b e h.1.2,
        denote_of_same ρ c f h.2]
    | _ => simp [same] at h
  | .call callee as, e, h => by
    cases e with
    | call callee' bs =>
      rw [same, Bool.and_eq_true] at h
      cases callee with
      | builtin b =>
        cases callee' with
        | builtin b' =>
          rw [same, beq_iff_eq] at h
          rw [denote, denote, h.1, denoteAll_of_same ρ as bs h.2]
        | _ => simp [same] at h
      | _ =>
        cases callee' with
        | builtin b' => simp [same] at h
        | _ => rfl
    | _ => simp [same] at h
  | .assignment _ _ _, b, h | .update _ _ _, b, h => by
    cases b <;> first | rfl | simp [same] at h

theorem isTruth_of_same (ρ : Valuation) : (a b : Expression (Exact M)) → a.same b = true →
    a.isTruth ρ = b.isTruth ρ
  | .literal l, b, h => by
    cases b with
    | literal m =>
      rw [same] at h
      rw [Literal.eq_of_same h]
    | _ => simp [same] at h
  | .unary op a, e, h => by
    cases e with
    | unary op' b =>
      rw [same, Bool.and_eq_true, beq_iff_eq] at h
      rw [isTruth, isTruth, h.1]
    | _ => simp [same] at h
  | .binary op a b, e, h => by
    cases e with
    | binary op' c d =>
      rw [same, Bool.and_eq_true, Bool.and_eq_true, beq_iff_eq] at h
      rw [isTruth, isTruth, h.1.1]
    | _ => simp [same] at h
  | .logical op a b, e, h => by
    cases e with
    | logical op' c d =>
      rw [same, Bool.and_eq_true, Bool.and_eq_true] at h
      rw [isTruth, isTruth, isTruth_of_same ρ a c h.1.2, isTruth_of_same ρ b d h.2]
    | _ => simp [same] at h
  | .conditional a b c, g, h => by
    cases g with
    | conditional d e f =>
      rw [same, Bool.and_eq_true, Bool.and_eq_true] at h
      rw [isTruth, isTruth, denote_of_same ρ a d h.1.1, isTruth_of_same ρ b e h.1.2,
        isTruth_of_same ρ c f h.2]
    | _ => simp [same] at h
  | .identifier _, b, h | .builtin _, b, h | .array _, b, h | .member _ _, b, h | .call _ _, b, h
  | .function _ _ _, b, h | .assignment _ _ _, b, h | .update _ _ _, b, h => by
    cases b <;> first | rfl | simp [same] at h

theorem denoteAll_of_same (ρ : Valuation) : (as bs : List (Expression (Exact M))) →
    sameList as bs = true → denoteAll ρ as = denoteAll ρ bs
  | [], [], _ => rfl
  | [], _ :: _, h => by simp [sameList] at h
  | _ :: _, [], h => by simp [sameList] at h
  | a :: as, b :: bs, h => by
    rw [sameList, Bool.and_eq_true] at h
    rw [denoteAll, denoteAll, denote_of_same ρ a b h.1, denoteAll_of_same ρ as bs h.2]

end

end Expression

namespace Simplify

theorem denote_isStructure {a : Expression (Exact M)} (h : isStructure a = true)
    {l : Literal (Exact M)} : a.denote ρ ≠ some (.primitive l) := by
  intro hl
  cases a with
  | array items =>
    rw [Expression.denote] at hl
    split at hl <;> cases hl
  | function _ _ _ | builtin _ => cases hl
  | _ => cases h

end Simplify

namespace Semantics

open Simplify Meaning

variable {d : Meaning M}

theorem eq_boolean_of_compare {op : BinaryOperator} {l : Literal (Exact M)} {v : Meaning M}
    {c : Bool} (h : compareWithLiteral op l = some c) (hv : ∀ m, v ≠ .primitive m)
    (hd : Meaning.binary op (.primitive l) v = some d ∨
      Meaning.binary op v (.primitive l) = some d) : d = .boolean c := by
  have hside {loosely r : Bool} (hr : equals? loosely (.primitive l) v = some r ∨
      equals? loosely v (.primitive l) = some r) : r = false := by
    cases v with
    | primitive m => exact absurd rfl (hv m)
    | pair _ _ | function =>
      rcases hr with hr | hr
      all_goals
        obtain ⟨-, ⟨⟩⟩ := Option.ite_none_left_eq_some.1 hr
        rfl
  obtain rfl : d = .boolean (op == .strictNotEqual || op == .notEqual) := by
    cases op with
    | strictEqual | strictNotEqual | equal | notEqual =>
      rcases hd with hd | hd
      · obtain ⟨r, hr, rfl⟩ := Option.map_eq_some_iff.1 hd
        rw [hside (.inl hr)]
        rfl
      · obtain ⟨r, hr, rfl⟩ := Option.map_eq_some_iff.1 hd
        rw [hside (.inr hr)]
        rfl
    | _ => cases h
  cases op with
  | strictEqual | strictNotEqual =>
    cases h
    rfl
  | equal | notEqual =>
    obtain ⟨-, ⟨⟩⟩ := Option.ite_none_right_eq_some.1 h
    rfl
  | _ => cases h

theorem lawful_ofValuation (hρ : ∀ name q, ρ name = some q → 0 ≤ q) :
    (ofValuation ρ : Semantics M).Lawful where
  literal l := by
    change Expression.denote ρ (.literal l) = _
    rw [Expression.denote]
  identifier name d h := by
    obtain ⟨q, hq, rfl⟩ := Option.map_eq_some_iff.1 h
    exact ⟨q, hρ name q hq, rfl⟩
  structured e l h := denote_isStructure h
  assignment op target value := by
    change Expression.denote ρ (.assignment op target value) = _
    rw [Expression.denote]
  same a b := Expression.denote_of_same ρ a b
  total op h := rfl
  truth op u v b := isComparison_of_binary
  quotient u d := eq_of_divide_one
  fold op l m d := binary_primitives
  compare op l c v d h hv := eq_boolean_of_compare h hv

end Semantics

namespace Expression

variable (hρ : ∀ name q, ρ name = some q → 0 ≤ q) {e : Expression (Exact M)}

include hρ

/-- Simplifying an expression keeps what it denotes. -/
theorem denote_simplify {d : Meaning M} (h : e.denote ρ = some d) :
    e.simplify.denote ρ = some d := by
  rw [← Semantics.denote_ofValuation] at h ⊢
  exact (Semantics.lawful_ofValuation hρ).denote_simplify h

theorem isTruth_simplify (h : e.isTruth ρ = true) : e.simplify.isTruth ρ = true := by
  rw [← Semantics.isTruth_ofValuation] at h ⊢
  exact (Semantics.lawful_ofValuation hρ).isTruth_simplify h

theorem isTruth_of_denote {u : Bool} (h : e.denote ρ = some (.boolean u)) :
    e.isTruth ρ = true := by
  rw [← Semantics.denote_ofValuation] at h
  rw [← Semantics.isTruth_ofValuation]
  exact (Semantics.lawful_ofValuation hρ).isTruth_of_denote e h

theorem isTruth_of_isBoolean (h : e.isBoolean = true) : e.isTruth ρ = true := by
  rw [← Semantics.isTruth_ofValuation]
  exact (Semantics.lawful_ofValuation hρ).isTruth_of_isBoolean e h

end Expression

end Waveform
