import Waveform.Proofs.Inlining.Evaluation

/-!
# Inlined statements

Statements that are inlined successfully end as the run of them ends: the next statement follows
on both sides, or the function has a result and the specializer has an expression for it. Where a
test is not known the specializer joins what both sides of a branch come to; the run is on one of
them, and the statements after the branch are inlined once for the side that reaches them.
-/

namespace Waveform

variable {ν : Type}

namespace Reading

/-- How inlining statements and running them end alike. With `ended` the specializer has a result
where the run has reached the end of the function. -/
inductive Alike (r : Reading ν) (W : World) (σ : Scopes ν) (isTail : Bool) :
    Flow ν → Completion ν → Store ν → Prop
  | continues {t} : r.Corr W σ t → Alike r W σ isTail .continues .normal t
  | returned {e v t} : r.Models (r.Home W σ) e v → (r.higherOrder → r.Corr W σ t) →
    r.discipline.result v ∨ v = .undefined → Alike r W σ isTail (.returned e) (.returned v) t
  | ended {e t} : ¬ r.higherOrder → isTail = true → r.Reads e .undefined →
    Alike r W σ isTail (.returned e) .normal t

/-- How a statement ends in its place. Of a split the run is on the side that the test says. -/
inductive StepAlike [Numeric ν] (r : Reading ν) (W : World) (σ : Scopes ν) (isTail : Bool) :
    Step ν → Completion ν → Store ν → Prop
  | done {flow c t} : r.Alike W σ isTail flow c t → StepAlike r W σ isTail (.done flow) c t
  | split {test u consequent alternate c t} : ¬ r.higherOrder → test.asLiteral? = none →
    r.discipline.branch u → r.Depicts test u →
    (u.isTruthy = true → r.Alike W σ isTail consequent c t) →
    (u.isTruthy = false → r.Alike W σ isTail alternate c t) →
    StepAlike r W σ isTail (.split test consequent alternate) c t

variable {r : Reading ν} {W W' : World} {σ σ' : Scopes ν} {s t : Store ν}

theorem Alike.kept {floor : Nat} {own : Nat → Prop} {isTail : Bool} {flow : Flow ν}
    {c : Completion ν} (h : r.Alike W σ isTail flow c t) (hk : Scopes.Kept floor own σ σ')
    (hfloor : σ.size ≤ floor) (hown : ∀ j < σ.size, ¬ own j) : r.Alike W σ' isTail flow c t := by
  cases h with
  | continues h => exact .continues (h.kept hk hfloor hown)
  | returned hm hcorr hv =>
    exact .returned (hm.grow (.refl W) hk.extend) (fun hh => (hcorr hh).kept hk hfloor hown) hv
  | ended hh htail hreads => exact .ended hh htail hreads

theorem finish_ok {isTail : Bool} {side following : Flow ν} {e : Expression ν}
    (h : (Inlining.finish isTail side following).run σ = .ok (e, σ')) :
    σ' = σ ∧ (side = .returned e ∨ side = .continues ∧
      (following = .returned e ∨ following = .continues ∧ isTail = true ∧ e = .undefined)) := by
  unfold Inlining.finish at h
  split at h
  · obtain ⟨rfl, rfl⟩ := Inlining.pure_ok.1 h
    exact ⟨rfl, .inl rfl⟩
  · obtain ⟨rfl, rfl⟩ := Inlining.pure_ok.1 h
    exact ⟨rfl, .inr ⟨rfl, .inl rfl⟩⟩
  · split at h
    · next htail =>
      obtain ⟨rfl, rfl⟩ := Inlining.pure_ok.1 h
      exact ⟨rfl, .inr ⟨rfl, .inr ⟨rfl, htail, rfl⟩⟩⟩
    · exact (Inlining.throw_ok.1 h).elim

def after (c : Completion ν) (k : Run ν (Completion ν)) : Run ν (Completion ν) :=
  match c with
  | .returned v => pure (.returned v)
  | .normal => k

variable [Numeric ν]

theorem finish_agrees (hr : r.Sound) {must : Prop} {isTail tail : Bool} {side following : Flow ν}
    {c : Completion ν} {k : Run ν (Completion ν)} {e : Expression ν}
    (hside : r.Alike W σ tail side c t)
    (hfinish : (Inlining.finish isTail side following).run σ' = .ok (e, σ'))
    (hrest : side = .continues → c = .normal → r.Corr W σ t →
      k.Ensures must t fun c' t' => ∃ W', r.Alike W' σ' isTail following c' t')
    (htail : tail = true → isTail = true ∧ k.outcome t = (.ok .normal, t)) :
    (after c k).Ensures must t fun c' _ =>
      ∃ v, r.Depicts e v ∧ (r.discipline.result v ∨ v = .undefined) ∧
        (c' = .returned v ∨ c' = .normal ∧ isTail = true ∧ v = .undefined) := by
  obtain ⟨-, hfin⟩ := finish_ok hfinish
  cases hside with
  | returned hm _ hv =>
    obtain rfl : _ = e := by simpa using hfin
    exact .of_outcome (Run.outcome_pure _ t) ⟨_, hm.depicts, hv, .inl rfl⟩
  | ended hh htrue hreads =>
    obtain rfl : _ = e := by simpa using hfin
    obtain ⟨hisTail, hk⟩ := htail htrue
    exact .of_outcome hk ⟨_, .residual hreads, .inr rfl, .inr ⟨rfl, hisTail, rfl⟩⟩
  | continues hcorr =>
    refine (hrest rfl rfl hcorr).mono fun c' t' ⟨W', halike⟩ => ?_
    have hfollow : following = .returned e ∨
        following = .continues ∧ isTail = true ∧ e = .undefined := by simpa using hfin
    cases halike with
    | continues _ =>
      obtain ⟨hisTail, rfl⟩ : isTail = true ∧ e = .undefined := by simpa using hfollow
      exact ⟨.undefined, hr.models_literal .undefined, .inr rfl, .inr ⟨rfl, hisTail, rfl⟩⟩
    | returned hm _ hv =>
      obtain rfl : _ = e := by simpa using hfollow
      exact ⟨_, hm.depicts, hv, .inl rfl⟩
    | ended _ hisTail hreads =>
      obtain rfl : _ = e := by simpa using hfollow
      exact ⟨_, .residual hreads, .inr rfl, .inr ⟨rfl, hisTail, rfl⟩⟩

theorem merge_ok {floors : Floors} {scope : Nat} {isTail : Bool} {test : Expression ν}
    {consequent alternate flow : Flow ν} {rest : Floors → Nat → Inlining ν (Flow ν)}
    (h : (Inlining.merge floors scope isTail test consequent alternate rest).run σ =
      .ok (flow, σ')) :
    ∃ following a b,
      (Inlining.follow floors scope consequent alternate rest).run σ = .ok (following, σ') ∧
        (Inlining.finish isTail consequent following).run σ' = .ok (a, σ') ∧
        (Inlining.finish isTail alternate following).run σ' = .ok (b, σ') ∧
        flow = .returned (Expression.conditional test a b).simplify := by
  rw [Inlining.merge, Inlining.bind_ok] at h
  obtain ⟨following, σ₁, hfollow, h⟩ := h
  rw [Inlining.bind_ok] at h
  obtain ⟨a, σ₂, ha, h⟩ := h
  rw [Inlining.bind_ok] at h
  obtain ⟨b, σ₃, hb, h⟩ := h
  obtain ⟨rfl, rfl⟩ := Inlining.pure_ok.1 h
  obtain rfl := (finish_ok hb).1
  obtain rfl := (finish_ok ha).1
  exact ⟨following, a, b, hfollow, ha, hb, rfl⟩

/-- The sides of a split are joined to a choice by its test, and the run is on the side that the
choice takes. -/
theorem merge_agrees (hr : r.Sound) {must : Prop} {floors : Floors} {scope : Nat}
    {isTail tail : Bool} {test : Expression ν} {consequent alternate flow : Flow ν}
    {c : Completion ν} {k : Run ν (Completion ν)} {rest : Floors → Nat → Inlining ν (Flow ν)}
    (hsplit : r.StepAlike W σ tail (.split test consequent alternate) c t)
    (h : (Inlining.merge floors scope isTail test consequent alternate rest).run σ =
      .ok (flow, σ'))
    (hrest : ∀ following floors,
      (do let block ← Inlining.child scope .block; rest floors block).run σ =
        .ok (following, σ') → ¬ r.higherOrder → c = .normal → r.Corr W σ t →
      k.Ensures must t fun c' t' => ∃ W', r.Alike W' σ' isTail following c' t')
    (htail : tail = true → isTail = true ∧ k.outcome t = (.ok .normal, t)) :
    (after c k).Ensures must t fun c' t' => ∃ W', W.Grows W' ∧ r.Alike W' σ' isTail flow c' t' := by
  obtain ⟨following, a, b, hfollow, ha, hb, rfl⟩ := merge_ok h
  cases hsplit with
  | @split _ u _ _ _ _ hh hl hbranch hu hconsequent halternate =>
    have hfollowing (side : Flow ν) (hside : side = consequent ∨ side = alternate)
        (hcontinues : side = .continues) (hc : c = .normal) (hcorr : r.Corr W σ t) :
        k.Ensures must t fun c' t' => ∃ W', r.Alike W' σ' isTail following c' t' := by
      unfold Inlining.follow at hfollow
      split at hfollow
      · next hboth =>
        simp only [Bool.and_eq_true] at hboth
        rcases hside with rfl | rfl
        · rw [hcontinues] at hboth
          cases hboth.1
        · rw [hcontinues] at hboth
          cases hboth.2
      · exact hrest following _ hfollow hh hc hcorr
    have hjoin {v : Value ν} {c' : Completion ν} {t' : Store ν}
        (hreads : r.Reads (Expression.conditional test a b).simplify v)
        (hv : r.discipline.result v ∨ v = .undefined)
        (hc' : c' = .returned v ∨ c' = .normal ∧ isTail = true ∧ v = .undefined) :
        ∃ W', W.Grows W' ∧ r.Alike W' σ' isTail
          (.returned (Expression.conditional test a b).simplify) c' t' := by
      refine ⟨W, .refl W, ?_⟩
      rcases hc' with rfl | ⟨rfl, hisTail, rfl⟩
      · exact .returned (.residual hreads) (fun h => absurd h hh) hv
      · exact .ended hh hisTail hreads
    cases htruthy : u.isTruthy with
    | true =>
      have hside := finish_agrees hr (hconsequent htruthy) ha (hfollowing _ (.inl rfl)) htail
      refine hside.mono fun c' t' ⟨v, hm, hv, hc'⟩ => hjoin ?_ hv hc'
      refine hr.conditional hl (.inr ⟨hbranch, hv⟩) hu (fun _ => hm) fun hfalse => ?_
      rw [htruthy] at hfalse
      cases hfalse
    | false =>
      have hside := finish_agrees hr (halternate htruthy) hb (hfollowing _ (.inr rfl)) htail
      refine hside.mono fun c' t' ⟨v, hm, hv, hc'⟩ => hjoin ?_ hv hc'
      refine hr.conditional hl (.inr ⟨hbranch, hv⟩) hu (fun htrue => ?_) fun _ => hm
      rw [htruthy] at htrue
      cases htrue

def StepAgrees (r : Reading ν) (patience : Nat) (call : Caller ν) (follows : CallCheck ν)
    (isTail : Bool) (st : Statement ν) (step : Nat → Inlining ν (Step ν)) : Prop :=
  ∀ ⦃W : World⦄ ⦃σ σ' : Scopes ν⦄ ⦃s : Store ν⦄ ⦃scope : Nat⦄ ⦃env : Environment⦄
    ⦃result : Step ν⦄, st.Obeys r.discipline call follows patience env s →
    (step scope).run σ = .ok (result, σ') → r.Corr W σ s → Placed W σ scope env →
    (st.isDeclaration = true → Owned W scope env) →
    (st.execute patience call env).Ensures r.discipline.strict s fun c t =>
      ∃ W', W.Grows W' ∧ r.StepAlike W' σ' isTail result c t

theorem alone_agrees (hr : r.Sound) {patience : Nat} {call : Caller ν} {follows : CallCheck ν}
    {floors : Floors} {scope : Nat} {isTail : Bool} {st : Statement ν} {flow : Flow ν}
    {env : Environment} {step : Nat → Inlining ν (Step ν)}
    (hstep : r.StepAgrees patience call follows isTail st step)
    (halone : r.discipline.alone st)
    (henters : r.discipline.Enters env [st] s fun inner s =>
      st.Obeys r.discipline call follows patience inner s)
    (h : (Inlining.alone floors scope isTail st step).run σ = .ok (flow, σ'))
    (hcorr : r.Corr W σ s) (hplaced : Placed W σ scope env) :
    (do let inner ← Run.enter env [st]; st.execute patience call inner).Ensures
      r.discipline.strict s fun c t => ∃ W', W.Grows W' ∧ r.Alike W' σ' isTail flow c t := by
  obtain ⟨-, hfunction, hobeys⟩ := henters
  have hdeclaration := hr.alone halone
  rw [Inlining.alone, Inlining.bind_ok] at h
  obtain ⟨place, σ₁, hplace, h⟩ := h
  rw [Inlining.bind_ok] at h
  obtain ⟨_, σ₂, hhoist, h⟩ := h
  obtain rfl := Inlining.modify_ok.1 hhoist
  rw [Inlining.bind_ok] at h
  obtain ⟨result, σ₃, hresult, h⟩ := h
  have hjoin {W₁ : World} {c : Completion ν} {t : Store ν} (hW₁ : W.Grows W₁)
      (halike : r.StepAlike W₁ σ₃ isTail result c t) :
      (pure c : Run ν (Completion ν)).Ensures r.discipline.strict t fun c t =>
        ∃ W', W.Grows W' ∧ r.Alike W' σ' isTail flow c t := by
    cases result with
    | done flow' =>
      obtain ⟨rfl, rfl⟩ := Inlining.pure_ok.1 h
      cases halike with
      | done halike => exact .of_outcome (Run.outcome_pure c t) ⟨W₁, hW₁, halike⟩
    | split test consequent alternate =>
      have hafter : after c (pure .normal) = pure c := by cases c <;> rfl
      rw [← hafter]
      refine (merge_agrees hr halike h ?_ fun htail => ⟨htail, Run.outcome_pure _ t⟩).mono
        fun c t ⟨W₂, hW₂, halike⟩ => ⟨W₂, hW₁.trans hW₂, halike⟩
      intro following _ hfollowing _ _ hcorr
      rw [Inlining.bind_ok] at hfollowing
      obtain ⟨_, σ₄, hchild, hpure⟩ := hfollowing
      obtain ⟨-, rfl⟩ := Inlining.child_ok.1 hchild
      obtain ⟨rfl, rfl⟩ := Inlining.pure_ok.1 hpure
      refine .of_outcome (Run.outcome_pure _ t) ⟨W₁, .continues (hcorr.extend ?_ ?_)⟩
      · exact Scopes.extends_child _ _ _
      · exact fun j hj => Scopes.frame_child_of_lt _ _ _ _ hj
  have hinner : (Run.enter env [st]).Ensures r.discipline.strict s fun inner t =>
      ∃ W₁, W.Grows W₁ ∧ r.Corr W₁ (σ₁.hoist place [st]) t ∧
        Placed W₁ (σ₁.hoist place [st]) place inner := by
    cases st with
    | branch _ _ _ | function _ _ _ =>
      obtain ⟨rfl, rfl⟩ := Inlining.child_ok.1 hplace
      exact (hcorr.enter hplaced fun hfun => hr.function (hfunction hfun)).mono
        fun inner t ⟨W₁, hW₁, hinside⟩ => ⟨W₁, hW₁, hinside.corr, hinside.placed⟩
    | _ =>
      obtain ⟨rfl, rfl⟩ := Inlining.pure_ok.1 hplace
      exact hcorr.enterPlain hplaced rfl
  refine hinner.bind fun inner t ht ⟨W₁, hW₁, hcorr₁, hplaced₁⟩ => ?_
  have hrun := hstep (hobeys inner t ht) hresult hcorr₁ hplaced₁ fun htrue => by
    rw [hdeclaration] at htrue
    cases htrue
  have hjoined := hrun.bind fun c t' _ ⟨W₂, hW₂, halike⟩ => hjoin (hW₁.trans hW₂) halike
  rwa [bind_pure] at hjoined

theorem choose_agrees (hr : r.Sound) {σ₀ : Scopes ν} {must : Prop} {floors : Floors} {isTail : Bool}
    {test : Expression ν} {u : Value ν} {consequent alternate : Floors → Inlining ν (Flow ν)}
    {result : Step ν} {onTrue onFalse : Run ν (Completion ν)}
    (hkeepsTrue : ∀ floors, Inlining.Keeps floors.branch (fun _ => False) (consequent floors))
    (hkeepsFalse : ∀ floors, Inlining.Keeps floors.branch (fun _ => False) (alternate floors))
    (htrue : u.isTruthy = true → ∀ {σ σ' floors flow}, r.Corr W σ s → Scopes.Extends σ₀ σ →
      (consequent floors).run σ = .ok (flow, σ') →
      onTrue.Ensures must s fun c t => ∃ W', W.Grows W' ∧ r.Alike W' σ' isTail flow c t)
    (hfalse : u.isTruthy = false → ∀ {σ σ' floors flow}, r.Corr W σ s → Scopes.Extends σ₀ σ →
      (alternate floors).run σ = .ok (flow, σ') →
      onFalse.Ensures must s fun c t => ∃ W', W.Grows W' ∧ r.Alike W' σ' isTail flow c t)
    (hm : r.Models (r.Home W σ₀) test u) (hbranch : r.discipline.branch u)
    (h : (Inlining.choose floors test consequent alternate).run σ₀ = .ok (result, σ'))
    (hcorr : r.Corr W σ₀ s) :
    (if u.isTruthy then onTrue else onFalse).Ensures must s fun c t =>
      ∃ W', W.Grows W' ∧ r.StepAlike W' σ' isTail result c t := by
  unfold Inlining.choose at h
  cases hl : test.asLiteral? with
  | some l =>
    simp only [hl, ← hr.isTruthy_of hm hl] at h
    split
    · next htruthy =>
      rw [if_pos htruthy, Inlining.bind_ok] at h
      obtain ⟨flow, σ₁, hflow, h⟩ := h
      obtain ⟨rfl, rfl⟩ := Inlining.pure_ok.1 h
      exact (htrue htruthy hcorr (.refl _) hflow).mono fun c t ⟨W', hW', halike⟩ =>
        ⟨W', hW', .done halike⟩
    · next htruthy =>
      rw [if_neg htruthy, Inlining.bind_ok] at h
      obtain ⟨flow, σ₁, hflow, h⟩ := h
      obtain ⟨rfl, rfl⟩ := Inlining.pure_ok.1 h
      exact (hfalse (Bool.eq_false_iff.2 htruthy) hcorr (.refl _) hflow).mono
        fun c t ⟨W', hW', halike⟩ => ⟨W', hW', .done halike⟩
  | none =>
    have hh : ¬ r.higherOrder := fun hh => hr.known hh hbranch hm.depicts hl
    simp only [hl] at h
    rw [Inlining.bind_ok] at h
    obtain ⟨left, σ₁, hleft, h⟩ := h
    rw [Inlining.bind_ok] at h
    obtain ⟨right, σ₂, hright, h⟩ := h
    obtain ⟨rfl, rfl⟩ := Inlining.pure_ok.1 h
    rw [Inlining.branching_ok] at hleft hright
    have hkeptLeft := hkeepsTrue _ σ₀ left σ₁ hleft
    have hkeptRight := hkeepsFalse _ σ₁ right _ hright
    have hresult {W' : World} {c : Completion ν} {t : Store ν}
        (hl' : u.isTruthy = true → r.Alike W' σ' isTail left c t)
        (hr' : u.isTruthy = false → r.Alike W' σ' isTail right c t) :
        r.StepAlike W' σ' isTail
          (if left.isReturn || right.isReturn then .split test left right else .done .continues)
          c t := by
      split
      · exact .split hh hl hbranch hm.depicts hl' hr'
      · next hreturn =>
        have hboth : left = .continues ∧ right = .continues := by
          cases left <;> cases right <;> simp_all [Flow.isReturn]
        obtain ⟨rfl, rfl⟩ := hboth
        cases htruthy : u.isTruthy with
        | true => exact .done (hl' htruthy)
        | false => exact .done (hr' htruthy)
    split
    · next htruthy =>
      refine (htrue htruthy hcorr (.refl _) hleft).mono fun c t ⟨W', hW', halike⟩ =>
        ⟨W', hW', hresult (fun _ => ?_) fun hf => ?_⟩
      · exact halike.kept hkeptRight (Nat.le_refl _) fun _ _ => id
      · rw [htruthy] at hf
        cases hf
    · next htruthy =>
      have hcorr₁ := hcorr.kept hkeptLeft (Nat.le_refl _) fun _ _ => id
      exact (hfalse (Bool.eq_false_iff.2 htruthy) hcorr₁ hkeptLeft.extend hright).mono
        fun c t ⟨W', hW', halike⟩ =>
          ⟨W', hW', hresult (fun ht => absurd ht htruthy) fun _ => halike⟩

end Reading

open Reading

variable [Numeric ν] {r : Reading ν} {options : SpecializationOptions} {residual : List Builtin}
  {reduce : Reducer ν} {call : Caller ν} {follows : CallCheck ν}

theorem Inlining.declare_agrees (hr : r.Sound) (hk : Inlining.ReducerKeeps reduce)
    (hcalls : r.CallsAgree call follows reduce) {W : World} {σ σ' : Scopes ν} {s : Store ν}
    {scope : Nat} {env : Environment} {floors : Floors} {kind : DeclarationKind} {name : String}
    {init : Option (Expression ν)} {u : Unit}
    (hobeys : Expression.initObeys r.discipline call follows env init s)
    (h : (Inlining.declare (Expression.inline residual reduce floors) scope kind name init).run σ =
      .ok (u, σ')) (hcorr : r.Corr W σ s) (hplaced : Placed W σ scope env)
    (howned : Owned W scope env) :
    (Run.declare call env name init).Ensures r.discipline.strict s fun _ t =>
      ∃ W', W.Grows W' ∧ r.Corr W' σ' t := by
  have hdefine {W₁ : World} {σ₁ : Scopes ν} {t : Store ν} {e : Expression ν} {v : Value ν}
      (hW₁ : W.Grows W₁) (hcorr₁ : r.Corr W₁ σ₁ t) (hm : r.Models (r.Home W₁ σ₁) e v)
      (h : (Inlining.define scope name (kind.binding e)).run σ₁ = .ok (u, σ')) :
      (Run.define env name v).Ensures r.discipline.strict t fun _ t =>
        ∃ W', W.Grows W' ∧ r.Corr W' σ' t := by
    obtain ⟨i, outer, js, rfl, hi⟩ := howned.mono hW₁
    obtain rfl := Inlining.modify_ok.1 h
    refine .of_outcome (Run.outcome_define _ _ _ _) ⟨W₁, hW₁, hcorr₁.define hi ?_⟩
    cases kind with
    | mutable => exact .mutable hm
    | constant => exact .constant hm
  unfold Inlining.declare at h
  cases init with
  | none =>
    refine .step (Run.outcome_pure _ s) ?_
    exact hdefine (.refl W) hcorr (hr.models_literal .undefined) h
  | some e =>
    dsimp only at h
    rw [Inlining.bind_ok] at h
    obtain ⟨a, σ₁, ha, h⟩ := h
    by_cases he : ∃ params body home, e = .function params body home
    · obtain ⟨params, body, home, rfl⟩ := he
      rw [Expression.inline] at ha
      obtain ⟨rfl, rfl⟩ := Inlining.pure_ok.1 ha
      refine .step (Run.outcome_makeClosure (some name) ⟨params, body⟩ env s) ?_
      have hcorr₁ : r.Corr W σ₁ { s with made := s.made + 1 } := hcorr.of_frames rfl
      exact hdefine (.refl W) hcorr₁ (.closure ⟨hr.function hobeys, hplaced⟩) h
    · have hne : ∀ params body home, e ≠ .function params body home :=
        fun params body home heq => he ⟨params, body, home, heq⟩
      rw [Run.declare_expression hne]
      refine (Expression.inline_agrees hr hk hcalls e (Expression.initObeys_expression hne hobeys)
        ha hcorr hplaced).bind fun v t _ hvalue => ?_
      obtain ⟨W₁, hW₁, hcorr₁, hm⟩ := hvalue
      exact hdefine hW₁ hcorr₁ hm h

mutual

theorem Statement.step_agrees (hr : r.Sound) (hk : Inlining.ReducerKeeps reduce)
    (hcalls : r.CallsAgree call follows reduce) {patience : Nat} {floors : Floors}
    {isTail : Bool} : (st : Statement ν) →
      r.StepAgrees patience call follows isTail st fun scope =>
        st.step options reduce floors scope isTail
  | .block body => by
    intro W σ σ' s scope env result hobeys h hcorr hplaced _
    rw [Statement.Obeys] at hobeys
    obtain ⟨-, hfunction, hinside⟩ := hobeys
    dsimp only at h
    rw [Statement.step, Inlining.bind_ok] at h
    obtain ⟨block, σ₁, hchild, h⟩ := h
    obtain ⟨rfl, rfl⟩ := Inlining.child_ok.1 hchild
    rw [Inlining.bind_ok] at h
    obtain ⟨_, σ₂, hhoist, h⟩ := h
    obtain rfl := Inlining.modify_ok.1 hhoist
    rw [Inlining.bind_ok] at h
    obtain ⟨flow, σ₃, hflow, h⟩ := h
    obtain ⟨rfl, rfl⟩ := Inlining.pure_ok.1 h
    rw [Statement.execute]
    refine (hcorr.enter hplaced fun hfun => hr.function (hfunction hfun)).bind
      fun inner t ht ⟨W₁, hW₁, hin⟩ => ?_
    refine (Statement.inlineAll_agrees hr hk hcalls body (fun hfun => hr.function (hfunction hfun))
      (hinside inner t ht) hflow hin.corr hin.placed hin.owned).mono
      fun c t' ⟨W₂, hW₂, halike⟩ => ⟨W₂, hW₁.trans hW₂, .done halike⟩
  | .expression e => by
    intro W σ σ' s scope env result hobeys h hcorr hplaced _
    rw [Statement.Obeys] at hobeys
    dsimp only at h
    rw [Statement.step, Inlining.bind_ok] at h
    obtain ⟨a, σ₁, ha, h⟩ := h
    obtain ⟨rfl, rfl⟩ := Inlining.pure_ok.1 h
    rw [Statement.execute]
    refine (Expression.inline_agrees hr hk hcalls e hobeys ha hcorr hplaced).bind
      fun v t _ ⟨W₁, hW₁, hcorr₁, _⟩ => ?_
    exact .of_outcome (Run.outcome_pure _ t) ⟨W₁, hW₁, .done (.continues hcorr₁)⟩
  | .result none => by
    intro W σ σ' s scope env result _ h hcorr _ _
    dsimp only at h
    rw [Statement.step] at h
    obtain ⟨rfl, rfl⟩ := Inlining.pure_ok.1 h
    rw [Statement.execute]
    refine .of_outcome (Run.outcome_pure _ s) ⟨W, .refl W, .done (.returned ?_ ?_ (.inr rfl))⟩
    · exact hr.models_literal .undefined
    · exact fun _ => hcorr
  | .result (some e) => by
    intro W σ σ' s scope env result hobeys h hcorr hplaced _
    rw [Statement.Obeys] at hobeys
    dsimp only at h
    rw [Statement.step, Inlining.bind_ok] at h
    obtain ⟨a, σ₁, ha, h⟩ := h
    obtain ⟨rfl, rfl⟩ := Inlining.pure_ok.1 h
    rw [Statement.execute]
    refine (Expression.inline_agrees hr hk hcalls e hobeys.1 ha hcorr hplaced).bind
      fun v t ht ⟨W₁, hW₁, hcorr₁, hm⟩ => ?_
    refine .of_outcome (Run.outcome_pure _ t) ⟨W₁, hW₁, .done (.returned hm (fun _ => hcorr₁) ?_)⟩
    exact .inl (hobeys.2 v t ht)
  | .branch test consequent alternate => by
    intro W σ σ' s scope env result hobeys h hcorr hplaced _
    rw [Statement.Obeys] at hobeys
    obtain ⟨halone, haloneElse, hobeysTest, hafter⟩ := hobeys
    dsimp only at h
    rw [Statement.step, Inlining.bind_ok] at h
    obtain ⟨a, σ₁, ha, h⟩ := h
    have hextend := (test.inline_keeps hk floors scope σ a σ₁ ha).extend
    unfold Statement.execute
    refine (Expression.inline_agrees hr hk hcalls test hobeysTest ha hcorr hplaced).bind
      fun u t ht ⟨W₁, hW₁, hcorr₁, hm⟩ => ?_
    obtain ⟨hbranch, htrue, hfalse⟩ := hafter u t ht
    have hplaced₁ := hplaced.mono hW₁ hextend
    have hkeeps (st : Statement ν) (halone : r.discipline.alone st) (floors : Floors) :
        Inlining.Keeps floors.branch (fun _ => False)
          (Inlining.alone floors scope isTail st fun place =>
            st.step options reduce floors place isTail) := by
      refine (Inlining.alone_keeps fun place => st.step_keeps hk floors place isTail).mono
        (Nat.le_refl _) ?_
      rintro j ⟨-, hdeclaration⟩
      rw [hr.alone halone] at hdeclaration
      cases hdeclaration
    refine (choose_agrees hr (hkeeps consequent halone) ?_ (fun htruthy => ?_)
      (fun hfalsy => ?_) hm hbranch h hcorr₁).mono
      fun c t' ⟨W₂, hW₂, halike⟩ => ⟨W₂, hW₁.trans hW₂, halike⟩
    · intro floors
      cases alternate with
      | none => exact Inlining.keeps_pure _
      | some st => exact hkeeps st (haloneElse st rfl) floors
    · intro σ₂ σ₃ floors flow hcorr₂ hσ hflow
      exact alone_agrees hr (Statement.step_agrees hr hk hcalls consequent) halone
        (htrue htruthy) hflow hcorr₂ (hplaced₁.mono (.refl _) hσ)
    · intro σ₂ σ₃ floors flow hcorr₂ hσ hflow
      cases alternate with
      | none =>
        obtain ⟨rfl, rfl⟩ := Inlining.pure_ok.1 hflow
        exact .of_outcome (Run.outcome_pure _ t) ⟨W₁, .refl _, .continues hcorr₂⟩
      | some st =>
        exact alone_agrees hr (Statement.step_agrees hr hk hcalls st) (haloneElse st rfl)
          (hfalse hfalsy) hflow hcorr₂ (hplaced₁.mono (.refl _) hσ)
  | .loop start test update body => by
    intro W σ σ' s scope env result hobeys
    rw [Statement.Obeys] at hobeys
    exact absurd hobeys.2.1 (hr.loop start)
  | .declaration kind name init => by
    intro W σ σ' s scope env result hobeys h hcorr hplaced howned
    rw [Statement.Obeys] at hobeys
    dsimp only at h
    rw [Statement.step, Inlining.bind_ok] at h
    obtain ⟨_, σ₁, hdeclare, h⟩ := h
    obtain ⟨rfl, rfl⟩ := Inlining.pure_ok.1 h
    rw [Statement.execute]
    refine (Inlining.declare_agrees hr hk hcalls hobeys hdeclare hcorr hplaced (howned rfl)).bind
      fun _ t _ ⟨W₁, hW₁, hcorr₁⟩ => ?_
    exact .of_outcome (Run.outcome_pure _ t) ⟨W₁, hW₁, .done (.continues hcorr₁)⟩
  | .function name params body => by
    intro W σ σ' s scope env result _ h hcorr _ _
    dsimp only at h
    rw [Statement.step] at h
    obtain ⟨rfl, rfl⟩ := Inlining.pure_ok.1 h
    rw [Statement.execute]
    exact .of_outcome (Run.outcome_pure _ s) ⟨W, .refl W, .done (.continues hcorr)⟩

theorem Statement.inlineAll_agrees (hr : r.Sound) (hk : Inlining.ReducerKeeps reduce)
    (hcalls : r.CallsAgree call follows reduce) {patience : Nat} {floors : Floors}
    {isTail : Bool} {W : World} {σ σ' : Scopes ν} {s : Store ν} {scope : Nat}
    {env : Environment} {flow : Flow ν} : (body : List (Statement ν)) →
      (Statement.declaresFunction body = true → r.higherOrder) →
      Statement.allObey r.discipline call follows patience env body s →
      (Statement.inlineAll options reduce floors scope isTail body).run σ = .ok (flow, σ') →
      r.Corr W σ s → Placed W σ scope env → Owned W scope env →
      (Statement.executeAll patience call env body).Ensures r.discipline.strict s fun c t =>
        ∃ W', W.Grows W' ∧ r.Alike W' σ' isTail flow c t
  | [] => by
    intro _ _ h hcorr _ _
    rw [Statement.inlineAll] at h
    obtain ⟨rfl, rfl⟩ := Inlining.pure_ok.1 h
    rw [Statement.executeAll]
    exact .of_outcome (Run.outcome_pure _ s) ⟨W, .refl W, .continues hcorr⟩
  | st :: rest => by
    intro hfun hobeys h hcorr hplaced howned
    have hfunRest : Statement.declaresFunction rest = true → r.higherOrder := fun hrest => hfun (by
      cases st <;> simp [Statement.declaresFunction, hrest])
    rw [Statement.allObey] at hobeys
    rw [Statement.inlineAll, Inlining.bind_ok] at h
    obtain ⟨result, σ₁, hresult, h⟩ := h
    have hkept := st.step_keeps hk floors scope _ σ result σ₁ hresult
    rw [Statement.executeAll]
    refine (Statement.step_agrees hr hk hcalls st hobeys.1 hresult hcorr hplaced
      fun _ => howned).bind fun c t ht ⟨W₁, hW₁, halike⟩ => ?_
    have hplaced₁ := hplaced.mono hW₁ hkept.extend
    have howned₁ := howned.mono hW₁
    have hfollow := hobeys.2 c t ht
    cases result with
    | done flow' =>
      cases halike with
      | done halike =>
        cases halike with
        | continues hcorr₁ =>
          refine (Statement.inlineAll_agrees hr hk hcalls rest hfunRest (hfollow rfl) h hcorr₁
            hplaced₁ howned₁).mono fun c' t' ⟨W₂, hW₂, halike⟩ => ⟨W₂, hW₁.trans hW₂, halike⟩
        | returned hm hcorr₁ hv =>
          obtain ⟨rfl, rfl⟩ := Inlining.pure_ok.1 h
          exact .of_outcome (Run.outcome_pure _ t) ⟨W₁, hW₁, .returned hm hcorr₁ hv⟩
        | ended hh htail hreads =>
          obtain ⟨rfl, rfl⟩ := Inlining.pure_ok.1 h
          obtain ⟨hisTail, hrest⟩ := Bool.and_eq_true_iff.1 htail
          obtain rfl := List.isEmpty_iff.1 hrest
          rw [Statement.executeAll]
          exact .of_outcome (Run.outcome_pure _ t) ⟨W₁, hW₁, .ended hh hisTail hreads⟩
    | split test consequent alternate =>
      suffices hjoined : (after c (Statement.executeAll patience call env rest)).Ensures
          r.discipline.strict t fun c' t' => ∃ W', W.Grows W' ∧ r.Alike W' σ' isTail flow c' t' by
        cases c <;> exact hjoined
      refine (merge_agrees hr halike h ?_ ?_).mono
        fun c' t' ⟨W₂, hW₂, halike⟩ => ⟨W₂, hW₁.trans hW₂, halike⟩
      · intro following floors hfollowing hh hc hcorr₁
        subst hc
        rw [Inlining.bind_ok] at hfollowing
        obtain ⟨block, σ₂, hchild, hfollowing⟩ := hfollowing
        obtain ⟨rfl, rfl⟩ := Inlining.child_ok.1 hchild
        rw [Inlining.bind_ok] at hfollowing
        obtain ⟨_, σ₃, hhoist, hfollowing⟩ := hfollowing
        obtain rfl := Inlining.modify_ok.1 hhoist
        obtain ⟨W₂, hin⟩ := hcorr₁.overlay hh hplaced₁ howned₁
        have hnone : Statement.declaresFunction rest = false :=
          Bool.eq_false_iff.2 fun hrest => hh (hfunRest hrest)
        rw [Scopes.hoist_of_none _ _ hnone] at hfollowing
        exact (Statement.inlineAll_agrees hr hk hcalls rest hfunRest (hfollow rfl) hfollowing
          hin.corr hin.placed hin.owned).mono fun c' t' ⟨W₃, _, halike⟩ => ⟨W₃, halike⟩
      · intro htail
        obtain ⟨hisTail, hrest⟩ := Bool.and_eq_true_iff.1 htail
        obtain rfl := List.isEmpty_iff.1 hrest
        exact ⟨hisTail, by rw [Statement.executeAll]; exact Run.outcome_pure _ t⟩

end

end Waveform
