import Waveform.Specialize.Simplify

/-!
# Properties kept by simplification

A property of expressions is hereditary when literals have it and operators have it exactly when
their operands do. The rules of simplification take operators apart, put them together in other
ways and fold literals, so each of them keeps every hereditary property.
-/

namespace Waveform

variable {ν : Type} [Numeric ν]

/-- Holds of literals, and of operators exactly when it holds of their operands. -/
structure Expression.Hereditary (P : Expression ν → Prop) : Prop where
  literal : ∀ l, P (.literal l)
  unary : ∀ op a, P (.unary op a) ↔ P a
  binary : ∀ op l r, P (.binary op l r) ↔ P l ∧ P r
  logical : ∀ op l r, P (.logical op l r) ↔ P l ∧ P r
  conditional : ∀ t c a, P (.conditional t c a) ↔ P t ∧ P c ∧ P a
  assignment : ∀ op target value, P (.assignment op target value) →
    P (Simplify.assignment op target value)

namespace Simplify

variable {P : Expression ν → Prop} {op : BinaryOperator} {left right test e : Expression ν}

section

variable (hliteral : ∀ l, P (.literal l))

include hliteral

theorem withLeftNumber_hereditary {x : ν} (hright : P right)
    (hrule : withLeftNumber op x right = some e) : P e := by
  unfold withLeftNumber at hrule
  split at hrule
  · obtain ⟨-, ⟨⟩⟩ := Option.ite_none_right_eq_some.1 hrule
    exact hright
  · split at hrule
    · cases hrule
      exact hliteral _
    · obtain ⟨-, ⟨⟩⟩ := Option.ite_none_right_eq_some.1 hrule
      exact hright
  · cases hrule

theorem withRightNumber_hereditary {x : ν} (hleft : P left)
    (hrule : withRightNumber op left x = some e) : P e := by
  unfold withRightNumber at hrule
  split at hrule
  · obtain ⟨-, ⟨⟩⟩ := Option.ite_none_right_eq_some.1 hrule
    exact hleft
  · obtain ⟨-, ⟨⟩⟩ := Option.ite_none_right_eq_some.1 hrule
    exact hleft
  · split at hrule
    · cases hrule
      exact hliteral _
    · obtain ⟨-, ⟨⟩⟩ := Option.ite_none_right_eq_some.1 hrule
      exact hleft
  · obtain ⟨-, ⟨⟩⟩ := Option.ite_none_right_eq_some.1 hrule
    exact hleft
  · split at hrule
    · obtain ⟨-, ⟨⟩⟩ := Option.ite_none_right_eq_some.1 hrule
      exact hliteral _
    · cases hrule
  · cases hrule

variable (hbinary : ∀ op l r, P (.binary op l r) ↔ P l ∧ P r)

include hbinary

theorem mergeNumbers_hereditary {inner : BinaryOperator} {x : ν} (hleft : P left)
    (hright : P right) (hrule : mergeNumbers op inner left right x = some e) : P e := by
  unfold mergeNumbers at hrule
  split at hrule
  · split at hrule
    · cases hrule
      exact (hbinary ..).2 ⟨hliteral _, hright⟩
    · cases hrule
      exact (hbinary ..).2 ⟨hleft, hliteral _⟩
    · cases hrule
  · split at hrule
    · obtain ⟨-, ⟨⟩⟩ := Option.ite_none_right_eq_some.1 hrule
      exact (hbinary ..).2 ⟨hleft, hliteral _⟩
    · cases hrule

theorem finishBinary_hereditary (hleft : P left) (hright : P right) :
    P (finishBinary op left right) := by
  have hplain : P (.binary op left right) := (hbinary ..).2 ⟨hleft, hright⟩
  unfold finishBinary
  split
  · exact hplain
  · next x _ =>
    split
    · next hresult => exact withRightNumber_hereditary hliteral hleft hresult
    · split
      · next inner l r _ =>
        obtain ⟨hl, hr⟩ := (hbinary ..).1 hleft
        cases hmerge : mergeNumbers op inner l r x with
        | none => exact hplain
        | some merged => exact mergeNumbers_hereditary hliteral hbinary hl hr hmerge
      · exact hplain

theorem binary_hereditary {again : Expression ν → Expression ν}
    (hagain : ∀ l r, right = .binary op l r → op.isAssociative = true →
      P (.binary op left l) → P (again (.binary op left l)))
    (hleft : P left) (hright : P right) : P (binary again op left right) := by
  unfold binary
  split
  · exact hliteral _
  · split
    · exact hliteral _
    · split
      · next hresult =>
        obtain ⟨x, -, hx⟩ := Option.bind_eq_some_iff.1 hresult
        exact withLeftNumber_hereditary hliteral hright hx
      · split
        · next inner l r _ _ _ =>
          obtain ⟨hl, hr⟩ := (hbinary ..).1 hright
          split
          · next hop =>
            rw [Bool.and_eq_true, beq_iff_eq] at hop
            obtain ⟨rfl, hassociative⟩ := hop
            have hfirst := hagain l r rfl hassociative ((hbinary ..).2 ⟨hleft, hl⟩)
            exact (hbinary ..).2 ⟨hfirst, hr⟩
          · exact finishBinary_hereditary hliteral hbinary hleft hright
        · exact finishBinary_hereditary hliteral hbinary hleft hright

end

section

variable (h : Expression.Hereditary P)

include h

theorem unary_hereditary {op : UnaryOperator} {argument : Expression ν} (ha : P argument) :
    P (unary op argument) := by
  unfold unary
  split
  · exact h.literal _
  · exact (h.unary op argument).2 ha

theorem logical_hereditary {op : LogicalOperator} (hleft : P left) (hright : P right) :
    P (logical op left right) := by
  have hplain : P (.logical op left right) := (h.logical ..).2 ⟨hleft, hright⟩
  unfold logical
  split
  · unfold LogicalOperator.select
    split
    · exact hleft
    · exact hright
  · split
    · split
      · exact hright
      · exact hleft
    · split
      · split
        · exact h.literal _
        · exact hplain
      · exact hplain

theorem whenTrue_hereditary (test : Expression ν) :
    (e : Expression ν) → P e → P (whenTrue test e)
  | .conditional inner consequent alternate => by
    intro he
    rw [whenTrue]
    split
    · exact whenTrue_hereditary test consequent ((h.conditional ..).1 he).2.1
    · exact he
  | .literal _ | .identifier _ | .builtin _ | .array _ | .member _ _ | .unary _ _ | .binary _ _ _
  | .logical _ _ _ | .call _ _ | .function _ _ _ | .assignment _ _ _ | .update _ _ _ => id

theorem whenFalse_hereditary (test : Expression ν) :
    (e : Expression ν) → P e → P (whenFalse test e)
  | .conditional inner consequent alternate => by
    intro he
    rw [whenFalse]
    split
    · exact whenFalse_hereditary test alternate ((h.conditional ..).1 he).2.2
    · exact he
  | .literal _ | .identifier _ | .builtin _ | .array _ | .member _ _ | .unary _ _ | .binary _ _ _
  | .logical _ _ _ | .call _ _ | .function _ _ _ | .assignment _ _ _ | .update _ _ _ => id

theorem decideInner_hereditary (test : Expression ν) (he : P e) : P (decideInner test e) := by
  unfold decideInner
  split
  · obtain ⟨-, hconsequent, halternate⟩ := (h.conditional ..).1 he
    split
    · split
      · exact hconsequent
      · exact halternate
    · exact he
  · exact he

theorem conditional_hereditary {consequent alternate : Expression ν} (htest : P test)
    (hconsequent : P consequent) (halternate : P alternate) :
    P (conditional test consequent alternate) := by
  unfold conditional
  split
  · split
    · exact hconsequent
    · exact halternate
  · split
    · exact hconsequent
    · have htrue := decideInner_hereditary h test (whenTrue_hereditary h test _ hconsequent)
      have hfalse := whenFalse_hereditary h test _ halternate
      exact (h.conditional ..).2 ⟨htest, htrue, hfalse⟩

theorem upTo_hereditary : (depth : Nat) → (e : Expression ν) → P e → P (upTo depth e)
  | 0, _ => id
  | depth + 1, .unary op argument => fun he =>
    unary_hereditary h (upTo_hereditary depth argument ((h.unary ..).1 he))
  | depth + 1, .binary op left right => by
    intro he
    obtain ⟨hleft, hright⟩ := (h.binary ..).1 he
    exact binary_hereditary h.literal h.binary (fun _ _ _ _ => upTo_hereditary depth _)
      (upTo_hereditary depth left hleft) (upTo_hereditary depth right hright)
  | depth + 1, .logical op left right => by
    intro he
    obtain ⟨hleft, hright⟩ := (h.logical ..).1 he
    exact logical_hereditary h (upTo_hereditary depth left hleft)
      (upTo_hereditary depth right hright)
  | depth + 1, .conditional test consequent alternate => by
    intro he
    obtain ⟨htest, hconsequent, halternate⟩ := (h.conditional ..).1 he
    exact conditional_hereditary h (upTo_hereditary depth test htest)
      (upTo_hereditary depth consequent hconsequent) (upTo_hereditary depth alternate halternate)
  | depth + 1, .assignment op target value => h.assignment op target value
  | depth + 1, .literal _ | depth + 1, .identifier _ | depth + 1, .builtin _
  | depth + 1, .array _ | depth + 1, .member _ _ | depth + 1, .call _ _
  | depth + 1, .function _ _ _ | depth + 1, .update _ _ _ => id

end

end Simplify

/-- Simplification keeps every hereditary property. -/
theorem Expression.Hereditary.simplify {P : Expression ν → Prop} (h : Expression.Hereditary P)
    {e : Expression ν} (he : P e) : P e.simplify :=
  Simplify.upTo_hereditary h e.reach e he

end Waveform
