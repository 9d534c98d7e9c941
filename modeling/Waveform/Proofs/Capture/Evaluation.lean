import Waveform.Proofs.Capture.Following

/-!
# Evaluation of captured expressions

An expression and what it is captured as follow each other wherever the tree is placed, if calls
do.
-/

namespace Waveform

variable {ν : Type}

namespace Mirror

def CallsFollow (m : Mirror ν) (call call' : Caller ν) (check : CallCheck ν) : Prop :=
  ∀ ⦃W : Twins⦄ ⦃f f' : Value ν⦄ ⦃args args' : List (Value ν)⦄ ⦃s s' : Store ν⦄,
    m.Agrees W s s' → m.Mirrors W f f' → List.Forall₂ (m.Mirrors W) args args' →
      check f args s → m.Follows m.Values W (call f args) (call' f' args') s s'

theorem Placed.hosts {m : Mirror ν} {home env env' : Environment} {l : Locals}
    (h : m.Placed home l env env') : m.Hosts home := by
  induction h with
  | unit h | root h => exact h
  | frame _ _ ih => exact ih

end Mirror

section

variable [Numeric ν] {m : Mirror ν} {call call' : Caller ν} {check : CallCheck ν}
  {home env env' : Environment}
  {l : Locals}

mutual

theorem Expression.Captured.follows (hcalls : m.CallsFollow call call' check)
    (hplaced : m.Placed home l env env') : {e e' : Expression ν} → {W : Twins} → {s s' : Store ν} →
    Expression.Captured m.toOrigin home l e e' → e.Obeys m.discipline call check env s →
      m.Agrees W s s' → m.Follows m.Values W (e.evaluate call env) (e'.evaluate call' env') s s'
  | .literal v, _, _, _, _, hcaptured, _, h => by
    cases hcaptured
    exact .pure h (.primitive v)
  | .builtin b, _, _, _, _, hcaptured, _, h => by
    cases hcaptured
    exact .pure h (.builtin b)
  | .identifier name, _, W, s, s', hcaptured, hobeys, h => by
    rw [Expression.Obeys] at hobeys
    cases hcaptured with
    | bound hname => exact h.follows_read hplaced hname hobeys
    | @hardcoded _ _ b hname hb =>
      have hread : s.lookup? name env = some (.builtin b) := by
        rw [hplaced.lookup?_free h hname, hplaced.hosts.builtin hb]
      exact .of_outcome (Run.outcome_read_of_lookup hread) (Run.outcome_pure _ s')
        (Set.Subset.refl W) (.refl s) h (.builtin b)
    | @free _ _ v e hname hv hq =>
      have hread : s.lookup? name env = some v := by rw [hplaced.lookup?_free h hname, hv]
      obtain ⟨v', t', hv', hmirrors, h'⟩ :=
        h.quoted hplaced (fun c hc => Store.holds_of_lookup hv hc) hq call'
      exact .of_outcome (Run.outcome_read_of_lookup hread) hv' (Set.Subset.refl W) (.refl s) h'
        hmirrors
  | .array [head, tail], _, _, _, _, .array (.cons hhead (.cons htail .nil)), hobeys, h => by
    rw [Expression.Obeys] at hobeys
    rw [Expression.evaluate, Expression.evaluate]
    refine .bind (hhead.follows hcalls hplaced hobeys.1 h) ?_
    intro W' v v' t t' ht _ _ h' hv
    refine .bind (htail.follows hcalls hplaced (hobeys.2 v t ht) h') ?_
    intro W'' w w' u u' _ hW' _ h'' hw
    exact h''.follows_makePair (hv.mono hW') hw
  | .array [], _, _, _, _, .array .nil, _, _ => .fail _ _
  | .array [_], _, _, _, _, .array (.cons _ .nil), _, _ => .fail _ _
  | .array (_ :: _ :: _ :: _), _, _, _, _, .array (.cons _ (.cons _ (.cons _ _))), _, _ => .fail _ _
  | .member object property, _, _, _, _, hcaptured, hobeys, h => by
    cases hcaptured with
    | member hobject hproperty =>
      rw [Expression.Obeys] at hobeys
      rw [Expression.evaluate, Expression.evaluate]
      refine .bind (hobject.follows hcalls hplaced hobeys.1 h) ?_
      intro W' v v' t t' ht _ _ h' hv
      refine .bind (hproperty.follows hcalls hplaced (hobeys.2 v t ht).1 h') ?_
      intro W'' w w' u u' _ hW' _ h'' hw
      exact h''.follows_member (hv.mono hW') hw
  | .unary op argument, _, _, _, _, hcaptured, hobeys, h => by
    cases hcaptured with
    | unary hargument =>
      rw [Expression.Obeys] at hobeys
      rw [Expression.evaluate, Expression.evaluate]
      refine .bind (hargument.follows hcalls hplaced hobeys.1 h) ?_
      intro W' v v' t t' ht _ _ h' hv
      exact .pure h' (hv.unary (hobeys.2 v t ht))
  | .binary op left right, _, _, _, _, hcaptured, hobeys, h => by
    cases hcaptured with
    | binary hleft hright =>
      rw [Expression.Obeys] at hobeys
      rw [Expression.evaluate, Expression.evaluate]
      refine .bind (hleft.follows hcalls hplaced hobeys.1 h) ?_
      intro W' v v' t t' ht _ _ h' hv
      obtain ⟨hright', hop⟩ := hobeys.2 v t ht
      refine .bind (hright.follows hcalls hplaced hright' h') ?_
      intro W'' w w' u u' hu hW' _ h'' hw
      exact .pure h'' ((hv.mono hW').binary hw h''.twins (hop w u hu))
  | .logical op left right, _, _, _, _, hcaptured, hobeys, h => by
    cases hcaptured with
    | logical hleft hright =>
      rw [Expression.Obeys] at hobeys
      rw [Expression.evaluate, Expression.evaluate]
      refine .bind (hleft.follows hcalls hplaced hobeys.1 h) ?_
      intro W' v v' t t' ht _ _ h' hv
      obtain ⟨-, hright'⟩ := hobeys.2 v t ht
      rw [hv.isTruthy]
      split
      · exact .pure h' hv
      · next hdecides =>
        exact hright.follows hcalls hplaced (hright' (.inl (Bool.eq_false_iff.2 hdecides))).1 h'
  | .conditional test consequent alternate, _, _, _, _, hcaptured, hobeys, h => by
    cases hcaptured with
    | conditional htest hconsequent halternate =>
      rw [Expression.Obeys] at hobeys
      rw [Expression.evaluate, Expression.evaluate]
      refine .bind (htest.follows hcalls hplaced hobeys.1 h) ?_
      intro W' v v' t t' ht _ _ h' hv
      obtain ⟨-, htrue, hfalse⟩ := hobeys.2 v t ht
      rw [hv.isTruthy]
      split
      · next htruthy => exact hconsequent.follows hcalls hplaced (htrue htruthy).1 h'
      · next htruthy =>
        exact halternate.follows hcalls hplaced (hfalse (Bool.eq_false_iff.2 htruthy)).1 h'
  | .call callee arguments, _, _, _, _, hcaptured, hobeys, h => by
    cases hcaptured with
    | call hcallee harguments =>
      rw [Expression.Obeys] at hobeys
      rw [Expression.evaluate, Expression.evaluate]
      refine .bind (hcallee.follows hcalls hplaced hobeys.1 h) ?_
      intro W' f f' t t' ht _ _ h' hf
      obtain ⟨hargs, hfollows⟩ := hobeys.2 f t ht
      refine .bind (harguments.follows hcalls hplaced hargs h') ?_
      intro W'' args args' u u' hu hW' _ h'' hmargs
      exact hcalls h'' (hf.mono hW') hmargs (hfollows args u hu)
  | .function params body home, _, _, _, _, hcaptured, _, h => by
    cases hcaptured with
    | function hbody => exact h.follows_makeClosure hplaced none hbody
  | .assignment op target value, _, W, s, s', hcaptured, hobeys, h => by
    cases hcaptured with
    | assignment htarget hvalue =>
      rw [Expression.Obeys] at hobeys
      rw [Expression.evaluate, Expression.evaluate]
      refine .bind (hvalue.follows hcalls hplaced hobeys.1 h) ?_
      intro W' v v' t t' ht _ _ h' hv
      obtain ⟨hsettled, hbinary⟩ := hobeys.2 v t ht
      have hwrite {U : Twins} {w w' : Value ν} {u u' : Store ν} (hu : m.Agrees U u u')
          (hw : m.Mirrors U w w') (hsettled : u.IsSettled m.base m.declared target env) :
          m.Follows m.Values U (do Run.assign env target w; return w : Run ν (Value ν))
            (do Run.assign env' target w'; return w' : Run ν (Value ν)) u u' := by
        refine .bind (hu.follows_assign hplaced htarget hsettled hw) ?_
        intro U' _ _ _ _ _ hU _ hagrees _
        exact .pure hagrees (hw.mono hU)
      cases hop : op.binaryOperator? with
      | none => exact hwrite h' hv hsettled
      | some o =>
        refine .bind (h'.follows_read hplaced htarget hsettled) ?_
        intro W'' w w' u u' hu hW' _ h'' hw
        obtain ⟨hlookup, rfl⟩ := Run.read_ok.1 hu
        have hresult := hw.binary (hv.mono hW') h''.twins (hbinary o w hop hlookup)
        exact hwrite h'' hresult hsettled
  | .update op isBefore target, _, W, s, s', hcaptured, hobeys, h => by
    cases hcaptured with
    | update htarget =>
      rw [Expression.Obeys] at hobeys
      rw [Expression.evaluate, Expression.evaluate]
      refine .bind (h.follows_read hplaced htarget hobeys.1) ?_
      intro W' v v' t t' ht _ _ h' hv
      obtain ⟨-, rfl⟩ := Run.read_ok.1 ht
      rw [hv.toNumber]
      have hprevious : m.Mirrors W' (.number v.toNumber) (.number v.toNumber) := .primitive _
      have hone : m.Mirrors W' (.number Numeric.one) (.number Numeric.one) := .primitive _
      have hupdated : m.Mirrors W'
          (op.binaryOperator.apply (.number v.toNumber) (.number Numeric.one))
          (op.binaryOperator.apply (.number v.toNumber) (.number Numeric.one)) := by
        refine hprevious.binary hone h'.twins ?_
        cases op <;> exact ⟨rfl, rfl⟩
      refine .bind (h'.follows_assign hplaced htarget hobeys.1 hupdated) ?_
      intro W'' _ _ u u' _ hW' _ h'' _
      cases isBefore with
      | true => exact .pure h'' (hupdated.mono hW')
      | false => exact .pure h'' (hprevious.mono hW')

theorem Expression.CapturedAll.follows (hcalls : m.CallsFollow call call' check)
    (hplaced : m.Placed home l env env') : {es es' : List (Expression ν)} → {W : Twins} →
    {s s' : Store ν} → Expression.CapturedAll m.toOrigin home l es es' →
      Expression.allObey m.discipline call check env es s → m.Agrees W s s' →
        m.Follows m.Lists W (Expression.evaluateAll call env es)
          (Expression.evaluateAll call' env' es') s s'
  | [], _, _, _, _, hcaptured, _, h => by
    cases hcaptured
    exact .pure h .nil
  | e :: es, _, _, _, _, hcaptured, hobeys, h => by
    cases hcaptured with
    | cons he hes =>
      rw [Expression.allObey] at hobeys
      rw [Expression.evaluateAll, Expression.evaluateAll]
      refine .bind (he.follows hcalls hplaced hobeys.1 h) ?_
      intro W' v v' t t' ht _ _ h' hv
      refine .bind (hes.follows hcalls hplaced (hobeys.2 v t ht) h') ?_
      intro W'' vs vs' u u' _ hW' _ h'' hvs
      exact .pure h'' (.cons (hv.mono hW') hvs)

end

end

end Waveform
