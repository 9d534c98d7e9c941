import Waveform.Proofs.Evaluation.Outcome
import Waveform.Specialize.Simplify

/-!
# Effects

The calls and the writes that evaluating an expression performs, in their order. What a called
function does itself belongs to the call. An expression that performs neither may make pairs and
functions, and leaves everything else as it is.
-/

namespace Waveform

/-- Something noticeable that evaluation does: a call, or a write of a name. -/
inductive Effect (ν : Type)
  | call (callee : Value ν) (arguments : List (Value ν))
  | write (target : String) (value : Value ν)

variable {ν : Type}

namespace Run

variable {α β : Type} {x : Run ν α} {s t : Store ν} {a : α}

/-- What follows a run. Nothing does if the run ends without a value. -/
def andThen (x : Run ν α) (s : Store ν) (next : α → Store ν → List β) : List β :=
  match x.outcome s with
  | (.ok a, t) => next a t
  | (.error _, _) => []

theorem andThen_of_outcome (h : x.outcome s = (.ok a, t)) (next : α → Store ν → List β) :
    x.andThen s next = next a t := by
  rw [andThen, h]

theorem andThen_nil {next : α → Store ν → List β}
    (h : ∀ a t, x.outcome s = (.ok a, t) → next a t = []) : x.andThen s next = [] := by
  unfold andThen
  split
  · exact h _ _ ‹_›
  · rfl

end Run

variable [Numeric ν]

section

variable (call : Caller ν) (env : Environment)

mutual

/-- The effects of evaluating the expression from the store, the first one first. -/
def Expression.effects : Expression ν → Store ν → List (Effect ν)
  | .literal _, _ | .identifier _, _ | .builtin _, _ | .function _ _ _, _ => []
  | .array [head, tail], s =>
    head.effects s ++ (head.evaluate call env).andThen s fun _ s => tail.effects s
  | .array _, _ => []
  | .member object property, s =>
    object.effects s ++ (object.evaluate call env).andThen s fun _ s => property.effects s
  | .unary _ argument, s => argument.effects s
  | .binary _ left right, s =>
    left.effects s ++ (left.evaluate call env).andThen s fun _ s => right.effects s
  | .logical op left right, s =>
    left.effects s ++ (left.evaluate call env).andThen s fun v s =>
      if op.decides v.isTruthy then [] else right.effects s
  | .conditional test consequent alternate, s =>
    test.effects s ++ (test.evaluate call env).andThen s fun v s =>
      if v.isTruthy then consequent.effects s else alternate.effects s
  | .call callee arguments, s =>
    callee.effects s ++ (callee.evaluate call env).andThen s fun f s =>
      Expression.effectsAll arguments s ++
        (Expression.evaluateAll call env arguments).andThen s fun args _ => [.call f args]
  | .assignment op target value, s =>
    value.effects s ++ ((Expression.assignment op target value).evaluate call env).andThen s
      fun v _ => [.write target v]
  | .update op _ target, s =>
    (Run.read env target).andThen s fun current _ =>
      [.write target (op.binaryOperator.apply (.number current.toNumber) (.number Numeric.one))]

def Expression.effectsAll : List (Expression ν) → Store ν → List (Effect ν)
  | [], _ => []
  | e :: es, s =>
    e.effects s ++ (e.evaluate call env).andThen s fun _ s => Expression.effectsAll es s

end

end

/-- The two stores bind the same and have drawn the same. -/
structure Store.Alike (s t : Store ν) : Prop where
  frames : t.frames = s.frames
  draws : t.draws = s.draws

omit [Numeric ν] in
theorem Store.Alike.refl (s : Store ν) : s.Alike s :=
  ⟨rfl, rfl⟩

omit [Numeric ν] in
theorem Store.Alike.trans {s t u : Store ν} (hst : s.Alike t) (htu : t.Alike u) : s.Alike u :=
  ⟨htu.frames.trans hst.frames, htu.draws.trans hst.draws⟩

omit [Numeric ν] in
theorem Store.Alike.lookup? {s t : Store ν} (h : s.Alike t) (name : String) (env : Environment) :
    t.lookup? name env = s.lookup? name env :=
  Store.lookup?_congr fun j _ => by rw [Store.frame, Store.frame, h.frames]

theorem Run.member_ok {object property v : Value ν} {s t : Store ν}
    (h : (Run.member object property).outcome s = (.ok v, t)) : t = s := by
  unfold Run.member at h
  split at h
  · split at h
    · split at h
      · cases h
        rfl
      · split at h <;>
        · cases h
          rfl
    · cases h
      rfl
  · cases h
  · cases h
  · cases h
    rfl

namespace Expression

variable {call : Caller ν} {env : Environment}

/-- Evaluating an expression without performing an effect changes no binding and draws nothing. -/
theorem alike_of_effects_eq_nil : (e : Expression ν) → ∀ {s t v}, e.effects call env s = [] →
    (e.evaluate call env).outcome s = (.ok v, t) → s.Alike t
  | .literal _, s, t, v, _, h | .builtin _, s, t, v, _, h | .function _ _ _, s, t, v, _, h => by
    cases h
    exact ⟨rfl, rfl⟩
  | .identifier _, s, t, v, _, h => by
    obtain ⟨-, rfl⟩ := Run.read_ok.1 h
    exact .refl _
  | .array [head, tail], s, t, v, hnone, h => by
    obtain ⟨a, s₁, hhead, h⟩ := Run.bind_ok.1 h
    obtain ⟨b, s₂, htail, h⟩ := Run.bind_ok.1 h
    rw [effects, Run.andThen_of_outcome hhead, List.append_eq_nil_iff] at hnone
    have hfirst := head.alike_of_effects_eq_nil hnone.1 hhead
    have hsecond := tail.alike_of_effects_eq_nil hnone.2 htail
    cases h
    exact hfirst.trans ⟨hsecond.frames, hsecond.draws⟩
  | .array [], s, t, v, _, h | .array [_], s, t, v, _, h
  | .array (_ :: _ :: _ :: _), s, t, v, _, h => by cases h
  | .member object property, s, t, v, hnone, h => by
    obtain ⟨a, s₁, hobject, h⟩ := Run.bind_ok.1 h
    obtain ⟨b, s₂, hproperty, h⟩ := Run.bind_ok.1 h
    rw [effects, Run.andThen_of_outcome hobject, List.append_eq_nil_iff] at hnone
    obtain rfl := Run.member_ok h
    exact (object.alike_of_effects_eq_nil hnone.1 hobject).trans
      (property.alike_of_effects_eq_nil hnone.2 hproperty)
  | .unary _ argument, s, t, v, hnone, h => by
    obtain ⟨a, s₁, hargument, h⟩ := Run.bind_ok.1 h
    cases h
    exact argument.alike_of_effects_eq_nil hnone hargument
  | .binary _ left right, s, t, v, hnone, h => by
    obtain ⟨a, s₁, hleft, h⟩ := Run.bind_ok.1 h
    obtain ⟨b, s₂, hright, h⟩ := Run.bind_ok.1 h
    rw [effects, Run.andThen_of_outcome hleft, List.append_eq_nil_iff] at hnone
    cases h
    exact (left.alike_of_effects_eq_nil hnone.1 hleft).trans
      (right.alike_of_effects_eq_nil hnone.2 hright)
  | .logical op left right, s, t, v, hnone, h => by
    obtain ⟨a, s₁, hleft, h⟩ := Run.bind_ok.1 h
    rw [effects, Run.andThen_of_outcome hleft, List.append_eq_nil_iff] at hnone
    have hfirst := left.alike_of_effects_eq_nil hnone.1 hleft
    obtain ⟨-, hnone⟩ := hnone
    split at h
    · cases h
      exact hfirst
    · next hdecides =>
      rw [if_neg hdecides] at hnone
      exact hfirst.trans (right.alike_of_effects_eq_nil hnone h)
  | .conditional test consequent alternate, s, t, v, hnone, h => by
    obtain ⟨a, s₁, htest, h⟩ := Run.bind_ok.1 h
    rw [effects, Run.andThen_of_outcome htest, List.append_eq_nil_iff] at hnone
    have hfirst := test.alike_of_effects_eq_nil hnone.1 htest
    obtain ⟨-, hnone⟩ := hnone
    split at h
    · next htruthy =>
      rw [if_pos htruthy] at hnone
      exact hfirst.trans (consequent.alike_of_effects_eq_nil hnone h)
    · next htruthy =>
      rw [if_neg htruthy] at hnone
      exact hfirst.trans (alternate.alike_of_effects_eq_nil hnone h)
  | .call callee arguments, s, t, v, hnone, h => by
    obtain ⟨f, s₁, hcallee, h⟩ := Run.bind_ok.1 h
    obtain ⟨args, s₂, harguments, -⟩ := Run.bind_ok.1 h
    rw [effects, Run.andThen_of_outcome hcallee, Run.andThen_of_outcome harguments] at hnone
    simp at hnone
  | .assignment op target value, s, t, v, hnone, h => by
    rw [effects, Run.andThen_of_outcome h] at hnone
    simp at hnone
  | .update op isBefore target, s, t, v, hnone, h => by
    obtain ⟨current, s₁, hread, -⟩ := Run.bind_ok.1 h
    rw [effects, Run.andThen_of_outcome hread] at hnone
    cases hnone

/-- The form of an expression shows that evaluating it performs no effect. -/
theorem effects_eq_nil_of_hasEffect : (e : Expression ν) → e.hasEffect = false →
    ∀ s, e.effects call env s = []
  | .literal _, _, _ | .identifier _, _, _ | .builtin _, _, _ | .function _ _ _, _, _ => rfl
  | .array [head, tail], h, s => by
    simp only [hasEffect, anyEffect, Bool.or_eq_false_iff] at h
    rw [effects, head.effects_eq_nil_of_hasEffect h.1, List.nil_append]
    exact Run.andThen_nil fun _ t _ => tail.effects_eq_nil_of_hasEffect h.2.1 t
  | .array [], _, _ | .array [_], _, _ | .array (_ :: _ :: _ :: _), _, _ => rfl
  | .member object property, h, s => by
    simp only [hasEffect, Bool.or_eq_false_iff] at h
    rw [effects, object.effects_eq_nil_of_hasEffect h.1, List.nil_append]
    exact Run.andThen_nil fun _ t _ => property.effects_eq_nil_of_hasEffect h.2 t
  | .unary _ argument, h, s => argument.effects_eq_nil_of_hasEffect h s
  | .binary _ left right, h, s => by
    simp only [hasEffect, Bool.or_eq_false_iff] at h
    rw [effects, left.effects_eq_nil_of_hasEffect h.1, List.nil_append]
    exact Run.andThen_nil fun _ t _ => right.effects_eq_nil_of_hasEffect h.2 t
  | .logical op left right, h, s => by
    simp only [hasEffect, Bool.or_eq_false_iff] at h
    rw [effects, left.effects_eq_nil_of_hasEffect h.1, List.nil_append]
    refine Run.andThen_nil fun v t _ => ?_
    rw [right.effects_eq_nil_of_hasEffect h.2, ite_self]
  | .conditional test consequent alternate, h, s => by
    simp only [hasEffect, Bool.or_eq_false_iff] at h
    rw [effects, test.effects_eq_nil_of_hasEffect h.1.1, List.nil_append]
    refine Run.andThen_nil fun v t _ => ?_
    rw [consequent.effects_eq_nil_of_hasEffect h.1.2, alternate.effects_eq_nil_of_hasEffect h.2,
      ite_self]
  | .call _ _, h, _ | .assignment _ _ _, h, _ | .update _ _ _, h, _ => by cases h

end Expression

end Waveform
