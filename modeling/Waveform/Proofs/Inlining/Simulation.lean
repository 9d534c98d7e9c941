import Waveform.Proofs.Inlining.Execution

/-!
# Simulation

Calls that are inlined agree with the calls of a run, by induction on how deep they may be nested,
and so the expression that a function is reduced to stands for the value that the function returns.
-/

namespace Waveform

variable {ν : Type} [Numeric ν]

namespace Reading

variable {r : Reading ν}

theorem Models.simplify (hr : r.Sound) {home : Nat → Environment → Prop} {e : Expression ν}
    {v : Value ν} (h : r.Models home e v) : r.Models home e.simplify v := by
  cases h with
  | residual h => exact .residual (hr.simplify h)
  | builtin b => exact .builtin b
  | pair i ha hb => exact .pair i ha hb
  | closure h => exact .closure h

/-- A call is reduced by inlining the body in a frame after that of its arguments. -/
theorem reduce_ok {options : SpecializationOptions} {depth : Nat} {floors : Floors}
    {scope home : Nat} {params : List String} {body : List (Statement ν)}
    {arguments : List (Expression ν)} {e : Expression ν} {σ σ' : Scopes ν}
    (h : (Inlining.reduce options (depth + 1) floors scope ⟨params, body⟩ (some home)
      arguments).run σ = .ok (e, σ')) :
    ∃ flow, (Statement.inlineAll options (Inlining.reduce options depth)
        { floors with call := σ.size } (σ.size + 1) true body).run
      ((((σ.child home .substitute).2.defineArguments σ.size params arguments).child σ.size
        .block).2.hoist (σ.size + 1) body) = .ok (flow, σ') ∧
      ((∃ value, flow = .returned value ∧ e = value.simplify) ∨
        flow = .continues ∧ e = .undefined) := by
  rw [Inlining.reduce, Inlining.bind_ok] at h
  obtain ⟨substitute, σ₁, hchild, h⟩ := h
  obtain ⟨rfl, rfl⟩ := Inlining.child_ok.1 hchild
  rw [Inlining.bind_ok] at h
  obtain ⟨_, σ₂, hdefine, h⟩ := h
  obtain rfl := Inlining.modify_ok.1 hdefine
  rw [Inlining.bind_ok] at h
  obtain ⟨block, σ₃, hchild, h⟩ := h
  obtain ⟨rfl, rfl⟩ := Inlining.child_ok.1 hchild
  rw [Inlining.bind_ok] at h
  obtain ⟨_, σ₄, hhoist, h⟩ := h
  obtain rfl := Inlining.modify_ok.1 hhoist
  rw [Inlining.bind_ok] at h
  obtain ⟨flow, σ₅, hflow, h⟩ := h
  have hsize : ((σ.child home .substitute).2.defineArguments σ.size params arguments).size =
      σ.size + 1 := by simp
  simp only [Option.getD_some, hsize] at hflow
  cases flow with
  | returned value =>
    obtain ⟨rfl, rfl⟩ := Inlining.pure_ok.1 h
    exact ⟨_, hflow, .inl ⟨value, rfl, rfl⟩⟩
  | continues =>
    obtain ⟨rfl, rfl⟩ := Inlining.pure_ok.1 h
    exact ⟨_, hflow, .inr ⟨rfl, rfl⟩⟩

theorem body_agrees (hr : r.Sound) {options : SpecializationOptions} {depth : Nat}
    {call : Caller ν} {follows : CallCheck ν}
    (hcalls : r.CallsAgree call follows (Inlining.reduce options depth)) {W : World}
    {σ σ' : Scopes ν} {s : Store ν} {floors : Floors} {scope home i patience : Nat}
    {name : Option String} {params : List String} {body : List (Statement ν)}
    {env : Environment} {arguments : List (Expression ν)} {args : List (Value ν)}
    {e : Expression ν} (hcorr : r.Corr W σ s) (hhome : r.Home W σ home env)
    (hargs : List.Forall₂ (r.Models (r.Home W σ)) arguments args)
    (hobeys : Run.bodyObeys r.discipline call follows patience ⟨i, name, ⟨params, body⟩, env⟩
      args s)
    (h : (Inlining.reduce options (depth + 1) floors scope ⟨params, body⟩ (some home)
      arguments).run σ = .ok (e, σ')) :
    (Run.body patience call ⟨i, name, ⟨params, body⟩, env⟩ args).Ensures r.discipline.strict s
      (r.Agree W σ' e) := by
  obtain ⟨-, -, hobeys⟩ := hobeys
  obtain ⟨flow, hflow, he⟩ := reduce_ok h
  refine .step (Run.outcome_extend env s) (.step (Run.outcome_defineParams _ _ _ _ _) ?_)
  have hobeys := hobeys _ _ (Run.outcome_extend env s) _ _ (Run.outcome_defineParams _ _ _ _ _)
  rw [Run.block, bind_assoc]
  refine (hcorr.enterCall (hr.literal .undefined) hhome hargs rfl rfl).bind
    fun _ t ht ⟨W₁, hW₁, hin⟩ => ?_
  refine (Statement.inlineAll_agrees hr (Inlining.reduce_keeps options depth) hcalls body
    (fun _ => hhome.higherOrder) (hobeys _ t ht) hflow hin.corr hin.placed hin.owned).bind
    fun c t' _ ⟨W₂, hW₂, halike⟩ => ?_
  have hW := hW₁.trans hW₂
  cases halike with
  | continues hcorr₁ =>
    obtain rfl : e = .undefined := by simpa using he
    exact .of_outcome (Run.outcome_pure _ t') (hcorr₁.agree hW (hr.models_literal .undefined))
  | @returned value _ _ hm hcorr₁ _ =>
    obtain rfl : e = value.simplify := by simpa using he
    exact .of_outcome (Run.outcome_pure _ t')
      ((hcorr₁ hhome.higherOrder).agree hW (hm.simplify hr))
  | ended hh _ _ => exact absurd hhome.higherOrder hh

/-- Calls agree that may be nested to a depth. Under a strict discipline the run has to have the
patience for it. -/
theorem calls_agree (hr : r.Sound) (options : SpecializationOptions)
    (hunrun : ∀ depth, r.UnrunAgrees (Inlining.reduce options depth)) (limit : Option Nat)
    (depth : Nat) : ∀ {patience : Nat} (under : Nat),
      (r.discipline.strict → limit = none ∧ depth < patience) →
      r.CallsAgree (Run.call limit patience under) (Run.callObeys r.discipline limit patience under)
        (Inlining.reduce options depth) := by
  induction depth with
  | zero =>
    intro patience under hstrict
    refine ⟨fun _ _ _ _ h => (Inlining.throw_ok.1 h).elim, fun hfollows hbuiltin => ?_, hunrun 0⟩
    cases patience with
    | zero => exact .of_error (Run.outcome_throw _ _) fun hs => Nat.not_lt_zero _ (hstrict hs).2
    | succ patience => exact hbuiltin hfollows
  | succ depth ih =>
    intro patience under hstrict
    cases patience with
    | zero =>
      have hnot : ¬ r.discipline.strict := fun hs => Nat.not_lt_zero _ (hstrict hs).2
      exact ⟨fun _ _ _ _ _ => .of_error (Run.outcome_throw _ _) hnot,
        fun _ _ => .of_error (Run.outcome_throw _ _) hnot, hunrun _⟩
    | succ patience =>
      refine ⟨?_, fun hfollows hbuiltin => hbuiltin hfollows, hunrun _⟩
      intro W σ σ' s floors scope i name params body env j arguments args e hcorr hhome hargs
        hfollows h
      simp only [Run.call]
      split
      · next hlimit =>
        refine .of_error (Run.outcome_fail _ s) fun hs => ?_
        rw [(hstrict hs).1] at hlimit
        cases hlimit
      · next hlimit =>
        have hcalls := ih (under + 1) fun hs =>
          ⟨(hstrict hs).1, Nat.lt_of_succ_lt_succ (hstrict hs).2⟩
        exact body_agrees hr hcalls hcorr hhome hargs (hfollows (Bool.eq_false_iff.2 hlimit)) h

/-- A function is reduced by inlining its body in the frame after that of its parameters. -/
theorem residual_ok {options : SpecializationOptions} {f : Function ν} {path : String}
    {e : Expression ν} (h : f.residual path options = .ok e) :
    ∃ flow σ', (Statement.inlineAll options (Inlining.reduce options options.maxInlineDepth)
        ⟨0, 0⟩ 1 true f.body).run
      (((((Scopes.empty options.hardcodedBuiltins).root .closure path).2.defineParameters 0
        f.params).child 0 .block).2.hoist 1 f.body) = .ok (flow, σ') ∧
      (flow = .returned e ∨ flow = .continues ∧ e = .undefined) := by
  have hblock : (((((Scopes.empty (ν := ν) options.hardcodedBuiltins).root .closure
      path).2.defineParameters 0 f.params).child 0 .block).1) = 1 := by
    rw [Scopes.child, Scopes.size_defineParameters]
    rfl
  rw [← hblock]
  unfold Function.residual at h
  dsimp only at h
  split at h
  · next value σ' hrun =>
    cases h
    exact ⟨_, σ', hrun, .inl rfl⟩
  · next σ' hrun =>
    cases h
    exact ⟨_, σ', hrun, .inr ⟨rfl, rfl⟩⟩
  · cases h

/-- The expression that a function is reduced to stands for the value that it returns. -/
theorem residual_agrees (hr : r.Sound) {options : SpecializationOptions} {call : Caller ν}
    {follows : CallCheck ν}
    (hcalls : r.CallsAgree call follows (Inlining.reduce options options.maxInlineDepth))
    {f : Function ν} {path : String} {e : Expression ν} (h : f.residual path options = .ok e)
    {s : Store ν} (hbuiltins : ∀ b : Builtin, (s.frame 0).find? b.globalName = some (.builtin b))
    {i patience : Nat} {name : Option String} {args : List (Value ν)}
    (hparams : ∀ p v, (Bindings.empty.withParams .undefined f.params args).find? p = some v →
      r.Reads (.identifier p) v)
    (hobeys : Run.bodyObeys r.discipline call follows patience ⟨i, name, f, .global⟩ args s) :
    (Run.body patience call ⟨i, name, f, .global⟩ args).Ensures r.discipline.strict s
      fun v _ => r.Depicts e v := by
  obtain ⟨-, hfunction, hobeys⟩ := hobeys
  have hfun := fun hd => hr.function (hfunction hd)
  obtain ⟨W, hin⟩ := Corr.start options.hardcodedBuiltins path hbuiltins
    hparams rfl rfl
  have hobeys := hobeys _ _ (Run.outcome_extend .global s) _ _
    (Run.outcome_defineParams _ _ _ _ _)
  refine .step (Run.outcome_extend _ s) (.step (Run.outcome_defineParams _ _ _ _ _) ?_)
  rw [Run.block, bind_assoc]
  refine (hin.corr.hoist hin.owned hfun hin.placed).bind fun _ t ht hcorr => ?_
  have hplaced := hin.placed.mono (.refl W) (Scopes.extends_hoist _ 1 f.body)
  obtain ⟨flow, σ', hflow, he⟩ := residual_ok h
  refine (Statement.inlineAll_agrees hr (Inlining.reduce_keeps options _) hcalls f.body hfun
    (hobeys _ t ht) hflow hcorr hplaced hin.owned).bind fun c t' _ ⟨W₂, _, halike⟩ => ?_
  cases halike with
  | continues _ =>
    obtain rfl : e = .undefined := by simpa using he
    exact .of_outcome (Run.outcome_pure _ t') (hr.models_literal .undefined)
  | returned hm _ _ =>
    obtain rfl : _ = e := by simpa using he
    exact .of_outcome (Run.outcome_pure _ t') hm.depicts
  | ended _ _ hreads =>
    obtain rfl : _ = e := by simpa using he
    exact .of_outcome (Run.outcome_pure _ t') (.residual hreads)

/-- A call of the function comes to a value that the expression stands for. -/
theorem call_residual_agrees (hr : r.Sound) {options : SpecializationOptions}
    (hunrun : ∀ depth, r.UnrunAgrees (Inlining.reduce options depth)) {f : Function ν}
    {path : String} {e : Expression ν} (h : f.residual path options = .ok e) {s : Store ν}
    (hbuiltins : ∀ b : Builtin, (s.frame 0).find? b.globalName = some (.builtin b))
    {limit : Option Nat} {patience under i : Nat} {name : Option String} {args : List (Value ν)}
    (hstrict : r.discipline.strict → limit = none ∧ options.maxInlineDepth + 1 < patience)
    (hparams : ∀ p v, (Bindings.empty.withParams .undefined f.params args).find? p = some v →
      r.Reads (.identifier p) v)
    (hobeys : Run.callObeys r.discipline limit patience under (.closure ⟨i, name, f, .global⟩)
      args s) :
    (Run.call limit patience under (.closure ⟨i, name, f, .global⟩) args).Ensures
      r.discipline.strict s fun v _ => r.Depicts e v := by
  cases patience with
  | zero => exact .of_error (Run.outcome_throw _ s) fun hs => Nat.not_lt_zero _ (hstrict hs).2
  | succ patience =>
    simp only [Run.call]
    split
    · next hlimit =>
      refine .of_error (Run.outcome_fail _ s) fun hs => ?_
      rw [(hstrict hs).1] at hlimit
      cases hlimit
    · next hlimit =>
      have hcalls := calls_agree hr options hunrun limit options.maxInlineDepth (under + 1)
        fun hs => ⟨(hstrict hs).1, Nat.lt_of_succ_lt_succ (hstrict hs).2⟩
      exact residual_agrees hr hcalls h hbuiltins hparams (hobeys (Bool.eq_false_iff.2 hlimit))

end Reading

theorem Store.initial_builtins (b : Builtin) :
    ((Store.initial : Store ν).frame 0).find? b.globalName = some (.builtin b) := by
  cases b <;> rfl

end Waveform
