import Waveform.Proofs.Evaluation.Discipline
import Waveform.Proofs.Inlining.Outcome

/-!
# Truth values by form

Comparisons, negations, and logical operations and choices of them are truth values whatever their
operands are. Neither simplification nor inlining turns them into anything else.
-/

namespace Waveform

variable {ν : Type} [Numeric ν]

namespace Simplify

theorem isBoolean_evaluate {op : BinaryOperator} (hop : op.isComparison = true)
    (l r : Literal ν) : (Expression.literal (op.evaluate l r)).isBoolean = true := by
  cases op with
  | add | subtract | multiply | divide | remainder | exponent => cases hop
  | _ => rfl

theorem isBoolean_mergeNumbers {op inner : BinaryOperator} {left right e : Expression ν} {x : ν}
    (hop : op.isComparison = true) (h : mergeNumbers op inner left right x = some e) :
    e.isBoolean = true := by
  unfold mergeNumbers at h
  split at h
  · split at h
    · cases h
      exact hop
    · cases h
      exact hop
    · cases h
  · split at h
    · split at h
      · cases h
        exact hop
      · cases h
    · cases h

theorem isBoolean_finishBinary {op : BinaryOperator} (hop : op.isComparison = true)
    (left right : Expression ν) : (finishBinary op left right).isBoolean = true := by
  unfold finishBinary
  split
  · exact hop
  · next x _ =>
    split
    · next result hresult =>
      unfold withRightNumber at hresult
      cases op with
      | add | subtract | multiply | divide | remainder | exponent => cases hop
      | lessThan =>
        simp only at hresult
        split at hresult
        · split at hresult
          · cases hresult
            rfl
          · cases hresult
        · cases hresult
      | _ => cases hresult
    · split
      · next inner l r _ =>
        cases hmerge : mergeNumbers op inner l r x with
        | none => exact hop
        | some merged => exact isBoolean_mergeNumbers hop hmerge
      · exact hop

theorem isBoolean_binary {op : BinaryOperator} (hop : op.isComparison = true)
    (again : Expression ν → Expression ν) (left right : Expression ν) :
    (binary again op left right).isBoolean = true := by
  unfold binary
  split
  · exact isBoolean_evaluate hop _ _
  · split
    · rfl
    · split
      · next result hresult =>
        obtain ⟨x, -, hx⟩ := Option.bind_eq_some_iff.1 hresult
        cases op with
        | add | subtract | multiply | divide | remainder | exponent => cases hop
        | _ => cases hx
      · split
        · next inner l r =>
          split
          · exact hop
          · exact isBoolean_finishBinary hop _ _
        · exact isBoolean_finishBinary hop _ _

theorem isBoolean_logical {op : LogicalOperator} {left right : Expression ν}
    (hleft : left.isBoolean = true) (hright : right.isBoolean = true) :
    (logical op left right).isBoolean = true := by
  have hplain : (Expression.logical op left right).isBoolean = true := by
    rw [Expression.isBoolean, hleft, hright]
    rfl
  unfold logical
  split
  · unfold LogicalOperator.select
    split
    · exact hleft
    · exact hright
  · split
    · split
      · exact hright
      · exact hleft
    · split
      · split
        · rfl
        · exact hplain
      · exact hplain

omit [Numeric ν] in
theorem isBoolean_conditional_iff {test consequent alternate : Expression ν} :
    (Expression.conditional test consequent alternate).isBoolean = true ↔
      consequent.isBoolean = true ∧ alternate.isBoolean = true := by
  rw [Expression.isBoolean, Bool.and_eq_true]

theorem isBoolean_whenTrue (test : Expression ν) :
    (e : Expression ν) → e.isBoolean = true → (whenTrue test e).isBoolean = true
  | .conditional inner consequent alternate => by
    intro h
    rw [whenTrue]
    split
    · exact isBoolean_whenTrue test consequent (isBoolean_conditional_iff.1 h).1
    · exact h
  | .literal _ | .identifier _ | .builtin _ | .array _ | .member _ _ | .unary _ _ | .binary _ _ _
  | .logical _ _ _ | .call _ _ | .function _ _ _ | .assignment _ _ _ | .update _ _ _ => id

theorem isBoolean_whenFalse (test : Expression ν) :
    (e : Expression ν) → e.isBoolean = true → (whenFalse test e).isBoolean = true
  | .conditional inner consequent alternate => by
    intro h
    rw [whenFalse]
    split
    · exact isBoolean_whenFalse test alternate (isBoolean_conditional_iff.1 h).2
    · exact h
  | .literal _ | .identifier _ | .builtin _ | .array _ | .member _ _ | .unary _ _ | .binary _ _ _
  | .logical _ _ _ | .call _ _ | .function _ _ _ | .assignment _ _ _ | .update _ _ _ => id

theorem isBoolean_decideInner (test : Expression ν) {e : Expression ν} (h : e.isBoolean = true) :
    (decideInner test e).isBoolean = true := by
  unfold decideInner
  split
  · obtain ⟨hconsequent, halternate⟩ := isBoolean_conditional_iff.1 h
    split
    · split
      · exact hconsequent
      · exact halternate
    · exact h
  · exact h

theorem isBoolean_conditional {test consequent alternate : Expression ν}
    (hconsequent : consequent.isBoolean = true) (halternate : alternate.isBoolean = true) :
    (conditional test consequent alternate).isBoolean = true := by
  unfold conditional
  split
  · split
    · exact hconsequent
    · exact halternate
  · split
    · exact hconsequent
    · exact isBoolean_conditional_iff.2
        ⟨isBoolean_decideInner test (isBoolean_whenTrue test _ hconsequent),
          isBoolean_whenFalse test _ halternate⟩

theorem isBoolean_upTo :
    (depth : Nat) → (e : Expression ν) → e.isBoolean = true → (upTo depth e).isBoolean = true
  | 0, e => id
  | depth + 1, .unary op argument => by
    intro h
    rw [upTo, unary]
    split
    · rw [Expression.isBoolean, beq_iff_eq] at h
      rw [h]
      rfl
    · exact h
  | depth + 1, .binary op left right => fun h => isBoolean_binary h _ _ _
  | depth + 1, .logical op left right => by
    intro h
    rw [Expression.isBoolean, Bool.and_eq_true] at h
    exact isBoolean_logical (isBoolean_upTo depth left h.1) (isBoolean_upTo depth right h.2)
  | depth + 1, .conditional test consequent alternate => by
    intro h
    obtain ⟨hconsequent, halternate⟩ := isBoolean_conditional_iff.1 h
    exact isBoolean_conditional (isBoolean_upTo depth _ hconsequent)
      (isBoolean_upTo depth _ halternate)
  | depth + 1, .assignment _ _ _ => fun h => by cases h
  | depth + 1, .literal _ | depth + 1, .identifier _ | depth + 1, .builtin _
  | depth + 1, .array _ | depth + 1, .member _ _ | depth + 1, .call _ _
  | depth + 1, .function _ _ _ | depth + 1, .update _ _ _ => id

end Simplify

namespace Expression

theorem isBoolean_simplify {e : Expression ν} (h : e.isBoolean = true) :
    e.simplify.isBoolean = true :=
  Simplify.isBoolean_upTo _ e h

theorem isBoolean_of_inline {residual : List Builtin} {reduce : Reducer ν} {floors : Floors}
    {scope : Nat} {e' : Expression ν} {σ σ' : Scopes ν} :
    (e : Expression ν) → e.isBoolean = true →
      (e.inline residual reduce floors scope).run σ = .ok (e', σ') → e'.isBoolean = true
  | .literal l => by
    intro h hinline
    rw [inline] at hinline
    obtain ⟨rfl, -⟩ := Inlining.pure_ok.1 hinline
    exact h
  | .unary op argument => by
    intro h hinline
    rw [inline, Inlining.bind_ok] at hinline
    obtain ⟨a, σ₁, -, hinline⟩ := hinline
    obtain ⟨rfl, -⟩ := Inlining.pure_ok.1 hinline
    exact isBoolean_simplify h
  | .binary op left right => by
    intro h hinline
    rw [inline, Inlining.bind_ok] at hinline
    obtain ⟨a, σ₁, -, hinline⟩ := hinline
    rw [Inlining.bind_ok] at hinline
    obtain ⟨b, σ₂, -, hinline⟩ := hinline
    obtain ⟨rfl, -⟩ := Inlining.pure_ok.1 hinline
    exact isBoolean_simplify h
  | .logical op left right => by
    intro h hinline
    rw [isBoolean, Bool.and_eq_true] at h
    rw [inline, Inlining.bind_ok] at hinline
    obtain ⟨a, σ₁, ha, hinline⟩ := hinline
    have hleft := isBoolean_of_inline left h.1 ha
    split at hinline
    · split at hinline
      · obtain ⟨rfl, -⟩ := Inlining.pure_ok.1 hinline
        exact hleft
      · exact isBoolean_of_inline right h.2 hinline
    · rw [Inlining.bind_ok] at hinline
      obtain ⟨b, σ₂, hb, hinline⟩ := hinline
      obtain ⟨rfl, -⟩ := Inlining.pure_ok.1 hinline
      have hright := isBoolean_of_inline right h.2 (Inlining.branching_ok.1 hb)
      refine isBoolean_simplify ?_
      rw [isBoolean, hleft, hright]
      rfl
  | .conditional test consequent alternate => by
    intro h hinline
    obtain ⟨hconsequent, halternate⟩ := Simplify.isBoolean_conditional_iff.1 h
    rw [inline, Inlining.bind_ok] at hinline
    obtain ⟨a, σ₁, -, hinline⟩ := hinline
    split at hinline
    · split at hinline
      · exact isBoolean_of_inline consequent hconsequent hinline
      · exact isBoolean_of_inline alternate halternate hinline
    · rw [Inlining.bind_ok] at hinline
      obtain ⟨b, σ₂, hb, hinline⟩ := hinline
      rw [Inlining.bind_ok] at hinline
      obtain ⟨c, σ₃, hc, hinline⟩ := hinline
      obtain ⟨rfl, -⟩ := Inlining.pure_ok.1 hinline
      exact isBoolean_simplify (Simplify.isBoolean_conditional_iff.2
        ⟨isBoolean_of_inline consequent hconsequent (Inlining.branching_ok.1 hb),
          isBoolean_of_inline alternate halternate (Inlining.branching_ok.1 hc)⟩)
  | .identifier _ | .builtin _ | .array _ | .member _ _ | .call _ _ | .function _ _ _
  | .assignment _ _ _ | .update _ _ _ => nofun

end Expression

end Waveform
