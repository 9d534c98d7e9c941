import Mathlib.Logic.Relation
import Waveform.Specialize.Simplify

/-!
# Simplification as rewriting

The rules of simplification leave an operand or a literal where an operator was, regroup a chain,
merge the two literals of a chain, or shorten an assignment. `Step` does one of these at one place
below operators, with any literals for the results. Simplifying an expression takes finitely many
steps, so that what every step keeps is kept by simplification.
-/

namespace Waveform

variable {ν : Type}

theorem Expression.eq_number_of_asNumber? {e : Expression ν} {x : ν} (h : e.asNumber? = some x) :
    e = .number x := by
  unfold asNumber? at h
  split at h
  · cases h
    rfl
  · cases h

theorem Expression.eq_literal_of_asLiteral? {e : Expression ν} {l : Literal ν}
    (h : e.asLiteral? = some l) : e = .literal l := by
  unfold asLiteral? at h
  split at h
  · cases h
    rfl
  · cases h

namespace Simplify

variable [Numeric ν]

/-- One change of the shape of an expression, of a kind that some rule makes. -/
inductive Step : Expression ν → Expression ν → Prop
  | foldUnary (op a l) : Step (.unary op a) (.literal l)
  | foldBinary (op a b l) : Step (.binary op a b) (.literal l)
  | foldLogical (op a b l) : Step (.logical op a b) (.literal l)
  | left (op a b) : Step (.binary op a b) a
  | right (op a b) : Step (.binary op a b) b
  | selectLeft (op a b) : Step (.logical op a b) a
  | selectRight (op a b) : Step (.logical op a b) b
  | consequent (t c a) : Step (.conditional t c a) c
  | alternate (t c a) : Step (.conditional t c a) a
  | regroup (op a l r) : Step (.binary op a (.binary op l r)) (.binary op (.binary op a l) r)
  | mergeLeft (op inner x r y z) :
    Step (.binary op (.binary inner (.literal x) r) (.literal y)) (.binary op (.literal z) r)
  | mergeRight (op inner l x y z) :
    Step (.binary op (.binary inner l (.literal x)) (.literal y)) (.binary op l (.literal z))
  | addAssign (target value) :
    Step (.assignment .assign target (.binary .add (.identifier target) value))
      (.assignment .addAssign target value)
  | increment (target x) (hx : Numeric.isOne x = true) :
    Step (.assignment .assign target (.binary .add (.identifier target) (.number x)))
      (.update .increment true target)
  | inUnary (op) {a a'} (h : Step a a') : Step (.unary op a) (.unary op a')
  | inLeft (op) {a a'} (b) (h : Step a a') : Step (.binary op a b) (.binary op a' b)
  | inRight (op a) {b b'} (h : Step b b') : Step (.binary op a b) (.binary op a b')
  | inLogicalLeft (op) {a a'} (b) (h : Step a a') : Step (.logical op a b) (.logical op a' b)
  | inLogicalRight (op a) {b b'} (h : Step b b') : Step (.logical op a b) (.logical op a b')
  | inTest {t t'} (c a) (h : Step t t') : Step (.conditional t c a) (.conditional t' c a)
  | inConsequent (t) {c c'} (a) (h : Step c c') : Step (.conditional t c a) (.conditional t c' a)
  | inAlternate (t c) {a a'} (h : Step a a') : Step (.conditional t c a) (.conditional t c a')

abbrev Steps : Expression ν → Expression ν → Prop :=
  Relation.ReflTransGen Step

namespace Steps

variable {a a' b b' c c' : Expression ν}

theorem inside (f : Expression ν → Expression ν) (hf : ∀ {a b}, Step a b → Step (f a) (f b))
    (h : Steps a a') : Steps (f a) (f a') :=
  Relation.ReflTransGen.lift f (fun _ _ => hf) _ _ h

theorem unary (op : UnaryOperator) (h : Steps a a') : Steps (.unary op a) (.unary op a') :=
  h.inside (.unary op ·) (.inUnary op)

theorem binary (op : BinaryOperator) (ha : Steps a a') (hb : Steps b b') :
    Steps (.binary op a b) (.binary op a' b') := by
  have hleft := ha.inside (.binary op · b) (.inLeft op b)
  have hright := hb.inside (.binary op a' ·) (.inRight op a')
  exact hleft.trans hright

theorem logical (op : LogicalOperator) (ha : Steps a a') (hb : Steps b b') :
    Steps (.logical op a b) (.logical op a' b') := by
  have hleft := ha.inside (.logical op · b) (.inLogicalLeft op b)
  have hright := hb.inside (.logical op a' ·) (.inLogicalRight op a')
  exact hleft.trans hright

theorem conditional (ha : Steps a a') (hb : Steps b b') (hc : Steps c c') :
    Steps (.conditional a b c) (.conditional a' b' c') := by
  have htest := ha.inside (.conditional · b c) (.inTest b c)
  have hconsequent := hb.inside (.conditional a' · c) (.inConsequent a' c)
  have halternate := hc.inside (.conditional a' b' ·) (.inAlternate a' b')
  exact (htest.trans hconsequent).trans halternate

end Steps

section Rules

variable {op inner : BinaryOperator} {left right e : Expression ν} {x : ν}

theorem step_of_withLeftNumber (left : Expression ν) (h : withLeftNumber op x right = some e) :
    Step (.binary op left right) e := by
  unfold withLeftNumber at h
  split at h
  · obtain ⟨-, ⟨⟩⟩ := Option.ite_none_right_eq_some.1 h
    exact .right ..
  · split at h
    · cases h
      exact .foldBinary ..
    · obtain ⟨-, ⟨⟩⟩ := Option.ite_none_right_eq_some.1 h
      exact .right ..
  · cases h

theorem step_of_withRightNumber (right : Expression ν) (h : withRightNumber op left x = some e) :
    Step (.binary op left right) e := by
  unfold withRightNumber at h
  split at h
  · obtain ⟨-, ⟨⟩⟩ := Option.ite_none_right_eq_some.1 h
    exact .left ..
  · obtain ⟨-, ⟨⟩⟩ := Option.ite_none_right_eq_some.1 h
    exact .left ..
  · split at h
    · cases h
      exact .foldBinary ..
    · obtain ⟨-, ⟨⟩⟩ := Option.ite_none_right_eq_some.1 h
      exact .left ..
  · obtain ⟨-, ⟨⟩⟩ := Option.ite_none_right_eq_some.1 h
    exact .left ..
  · split at h
    · obtain ⟨-, ⟨⟩⟩ := Option.ite_none_right_eq_some.1 h
      exact .foldBinary ..
    · cases h
  · cases h

theorem step_of_mergeNumbers (h : mergeNumbers op inner left right x = some e) :
    Step (.binary op (.binary inner left right) (.number x)) e := by
  unfold mergeNumbers at h
  split at h
  · split at h
    · next hl =>
      cases h
      rw [Expression.eq_number_of_asNumber? hl]
      exact .mergeLeft ..
    · next hr =>
      cases h
      rw [Expression.eq_number_of_asNumber? hr]
      exact .mergeRight ..
    · cases h
  · split at h
    · next hr =>
      obtain ⟨-, ⟨⟩⟩ := Option.ite_none_right_eq_some.1 h
      rw [Expression.eq_number_of_asNumber? hr]
      exact .mergeRight ..
    · cases h

theorem steps_finishBinary (op : BinaryOperator) (left right : Expression ν) :
    Steps (.binary op left right) (finishBinary op left right) := by
  unfold finishBinary
  split
  · exact .refl
  · next x hx =>
    split
    · next hresult => exact .single (step_of_withRightNumber right hresult)
    · split
      · next inner l r _ =>
        cases hmerge : mergeNumbers op inner l r x with
        | none => exact .refl
        | some merged =>
          rw [Expression.eq_number_of_asNumber? hx]
          exact .single (step_of_mergeNumbers hmerge)
      · exact .refl

theorem steps_binary {again : Expression ν → Expression ν}
    (hagain : ∀ l r, right = .binary op l r →
      Steps (.binary op left l) (again (.binary op left l))) :
    Steps (.binary op left right) (binary again op left right) := by
  unfold binary
  split
  · exact .single (.foldBinary ..)
  · split
    · exact .single (.foldBinary ..)
    · split
      · next hresult =>
        obtain ⟨x, -, hx⟩ := Option.bind_eq_some_iff.1 hresult
        exact .single (step_of_withLeftNumber left hx)
      · split
        · next inner l r _ _ _ =>
          split
          · next hop =>
            obtain rfl : inner = op := by simpa using (Bool.and_eq_true_iff.1 hop).1
            have hfirst := hagain l r rfl
            exact .head (.regroup ..) (hfirst.binary inner .refl)
          · exact steps_finishBinary ..
        · exact steps_finishBinary ..

theorem steps_unary (op : UnaryOperator) (argument : Expression ν) :
    Steps (.unary op argument) (unary op argument) := by
  unfold unary
  split
  · exact .single (.foldUnary ..)
  · exact .refl

theorem steps_logical (op : LogicalOperator) (left right : Expression ν) :
    Steps (.logical op left right) (logical op left right) := by
  unfold logical
  split
  · unfold LogicalOperator.select
    split
    · exact .single (.selectLeft ..)
    · exact .single (.selectRight ..)
  · split
    · split
      · exact .single (.selectRight ..)
      · exact .single (.selectLeft ..)
    · split
      · split
        · exact .single (.foldLogical ..)
        · exact .refl
      · exact .refl

theorem steps_whenTrue (test e : Expression ν) : Steps e (whenTrue test e) := by
  induction e using whenTrue.induct test with
  | case1 inner consequent alternate hsame ih =>
    rw [whenTrue, if_pos hsame]
    exact .head (.consequent ..) ih
  | case2 inner consequent alternate hsame =>
    rw [whenTrue, if_neg hsame]
  | case3 e he =>
    rw [whenTrue]
    exact he

theorem steps_whenFalse (test e : Expression ν) : Steps e (whenFalse test e) := by
  induction e using whenFalse.induct test with
  | case1 inner consequent alternate hsame ih =>
    rw [whenFalse, if_pos hsame]
    exact .head (.alternate ..) ih
  | case2 inner consequent alternate hsame =>
    rw [whenFalse, if_neg hsame]
  | case3 e he =>
    rw [whenFalse]
    exact he

theorem steps_decideInner (test e : Expression ν) : Steps e (decideInner test e) := by
  unfold decideInner
  split
  · split
    · split
      · exact .single (.consequent ..)
      · exact .single (.alternate ..)
    · exact .refl
  · exact .refl

theorem steps_conditional (test consequent alternate : Expression ν) :
    Steps (.conditional test consequent alternate) (conditional test consequent alternate) := by
  unfold conditional
  split
  · split
    · exact .single (.consequent ..)
    · exact .single (.alternate ..)
  · split
    · exact .single (.consequent ..)
    · have htrue := (steps_whenTrue test consequent).trans (steps_decideInner test _)
      exact Steps.conditional .refl htrue (steps_whenFalse test alternate)

theorem steps_assignment (op : AssignmentOperator) (target : String) (value : Expression ν) :
    Steps (.assignment op target value) (assignment op target value) := by
  unfold assignment
  split
  · next name right =>
    split
    · next hname =>
      obtain rfl : name = target := by simpa using hname
      split
      · next hone =>
        cases hx : right.asNumber? with
        | none => simp [hx] at hone
        | some x =>
          rw [Expression.eq_number_of_asNumber? hx]
          exact .single (.increment name x (by simpa [hx] using hone))
      · exact .single (.addAssign ..)
    · exact .refl
  · exact .refl

end Rules

/-- Simplifying, to any depth, takes finitely many steps. -/
theorem steps_upTo (depth : Nat) (e : Expression ν) : Steps e (upTo depth e) := by
  induction depth generalizing e with
  | zero => exact .refl
  | succ depth ih =>
    cases e with
    | unary op argument => exact ((ih argument).unary op).trans (steps_unary ..)
    | binary op left right =>
      have hoperands := (ih left).binary op (ih right)
      exact hoperands.trans (steps_binary fun l _ _ => ih _)
    | logical op left right =>
      have hoperands := (ih left).logical op (ih right)
      exact hoperands.trans (steps_logical ..)
    | conditional test consequent alternate =>
      have hoperands := (ih test).conditional (ih consequent) (ih alternate)
      exact hoperands.trans (steps_conditional ..)
    | assignment op target value => exact steps_assignment ..
    | _ => exact .refl

theorem steps_simplify (e : Expression ν) : Steps e e.simplify :=
  steps_upTo e.reach e

end Simplify

end Waveform
