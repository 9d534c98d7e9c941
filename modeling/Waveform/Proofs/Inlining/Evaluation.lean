import Waveform.Proofs.Inlining.Boolean
import Waveform.Proofs.Inlining.Entering

/-!
# Inlined expressions

An expression that is inlined successfully comes to an expression that stands for the value that
the run gives it, as long as the run stays within the discipline of a sound reading. The frames of
both sides correspond again afterwards. That calls agree is a hypothesis here.
-/

namespace Waveform

variable {ν : Type} [Numeric ν]

theorem Numeric.entry_eq [Numeric.Indexed ν] {α : Type} (x : ν) (a b missing : α) :
    ((Numeric.toNat? x).bind fun i => [a, b][i]?).getD missing =
      if Numeric.isZero x then a else if Numeric.isOne x then b else missing := by
  by_cases hzero : Numeric.isZero x = true
  · rw [(Numeric.Indexed.zero x).2 hzero, if_pos hzero]
    rfl
  · rw [if_neg hzero]
    by_cases hone : Numeric.isOne x = true
    · rw [(Numeric.Indexed.one x).2 hone, if_pos hone]
      rfl
    · rw [if_neg hone]
      match hn : Numeric.toNat? x with
      | none => rfl
      | some 0 => exact absurd ((Numeric.Indexed.zero x).1 hn) hzero
      | some 1 => exact absurd ((Numeric.Indexed.one x).1 hn) hone
      | some (n + 2) => rfl

namespace Reading

/-- What evaluating an expression and inlining it come to: an expression that stands for the value,
with corresponding frames. -/
def Agree (r : Reading ν) (W : World) (σ : Scopes ν) (e : Expression ν) (v : Value ν)
    (t : Store ν) : Prop :=
  ∃ W', W.Grows W' ∧ r.Corr W' σ t ∧ r.Models (r.Home W' σ) e v

omit [Numeric ν] in
theorem Corr.agree {r : Reading ν} {W W' : World} {σ : Scopes ν} {e : Expression ν} {v : Value ν}
    {t : Store ν} (h : r.Corr W' σ t) (hW : W.Grows W') (hm : r.Models (r.Home W' σ) e v) :
    r.Agree W σ e v t :=
  ⟨W', hW, h, hm⟩

omit [Numeric ν] in
theorem Agree.grow {r : Reading ν} {W W' : World} {σ : Scopes ν} {e : Expression ν} {v : Value ν}
    {t : Store ν} (h : r.Agree W' σ e v t) (hW : W.Grows W') : r.Agree W σ e v t := by
  obtain ⟨W₁, hW₁, hcorr, hm⟩ := h
  exact ⟨W₁, hW.trans hW₁, hcorr, hm⟩

/-- A right side that the discipline lets stand is inlined to what may be left of it. -/
structure UnrunAgrees (r : Reading ν) (reduce : Reducer ν) : Prop where
  inline {W σ σ' s residual floors scope env} {e e' : Expression ν} :
    r.discipline.unrun env e s → r.Corr W σ s → Placed W σ scope env →
    (e.inline residual reduce floors scope).run σ = .ok (e', σ') → r.Unrun e'

theorem UnrunAgrees.never {r : Reading ν} {reduce : Reducer ν}
    (h : ∀ env e s, ¬ r.discipline.unrun env e s) : r.UnrunAgrees reduce where
  inline hunrun := absurd hunrun (h _ _ _)

/-- The calls of a run and those that are inlined agree. -/
structure CallsAgree (r : Reading ν) (call : Caller ν) (follows : CallCheck ν)
    (reduce : Reducer ν) : Prop where
  closure {W σ σ' s floors scope i name params body env j arguments args e} :
    r.Corr W σ s → r.Home W σ j env → List.Forall₂ (r.Models (r.Home W σ)) arguments args →
    follows (.closure ⟨i, name, ⟨params, body⟩, env⟩) args s →
    (reduce floors scope ⟨params, body⟩ (some j) arguments).run σ = .ok (e, σ') →
    (call (.closure ⟨i, name, ⟨params, body⟩, env⟩) args).Ensures r.discipline.strict s
      (r.Agree W σ' e)
  builtin {b args s P} : follows (.builtin b) args s →
    (r.discipline.builtin b args → (Run.applyBuiltin b args).Ensures r.discipline.strict s P) →
    (call (.builtin b) args).Ensures r.discipline.strict s P
  unrun : r.UnrunAgrees reduce

variable {r : Reading ν} {W W' : World} {σ σ' : Scopes ν} {s : Store ν}

theorem Sound.literal_of {e : Expression ν} {l : Literal ν} {v : Value ν} (hr : r.Sound)
    {home : Nat → Environment → Prop} (h : r.Models home e v) (he : e.asLiteral? = some l) :
    v = .primitive l := by
  cases e with
  | literal m =>
    obtain rfl : m = l := by simpa [Expression.asLiteral?] using he
    cases h with
    | residual h => exact hr.literal_inj h
  | _ => cases he

theorem Sound.isTruthy_of {e : Expression ν} {l : Literal ν} {v : Value ν} (hr : r.Sound)
    {home : Nat → Environment → Prop} (h : r.Models home e v) (he : e.asLiteral? = some l) :
    v.isTruthy = l.isTruthy := by
  rw [hr.literal_of h he]
  rfl

theorem Sound.models_literal (hr : r.Sound) {home : Nat → Environment → Prop} (l : Literal ν) :
    r.Models home (.literal l) (.primitive l) :=
  .residual (hr.literal l)

theorem Sound.number_of {e : Expression ν} {x : ν} {v : Value ν} (hr : r.Sound)
    {home : Nat → Environment → Prop} (h : r.Models home e v) (he : e.asNumber? = some x) :
    v = .number x := by
  refine hr.literal_of h ?_
  cases e with
  | literal m =>
    cases m with
    | number y =>
      obtain rfl : y = x := by simpa [Expression.asNumber?] using he
      rfl
    | _ => cases he
  | _ => cases he

theorem Sound.length_of (hr : r.Sound) {home : Nat → Environment → Prop} {e : Expression ν}
    {v : Value ν} (h : r.Models home e v) {n : Nat} (he : e.listLength? = some n) :
    v.listLength? = some n := by
  induction h generalizing n with
  | @residual e v hreads =>
    cases e with
    | literal l =>
      obtain rfl := hr.literal_inj hreads
      cases l with
      | null => exact he
      | _ => cases he
    | array items => cases hr.plain hreads
    | _ => cases he
  | builtin b => cases he
  | closure _ => cases he
  | pair i _ _ _ ih =>
    obtain ⟨m, hm, rfl⟩ := Option.map_eq_some_iff.1 he
    simp [Value.listLength?, ih hm]

omit [Numeric ν] in
theorem list_of {home : Nat → Environment → Prop} (hnull : r.Models home (.literal .null) .null)
    {must : Prop} {arguments : List (Expression ν)} {args : List (Value ν)}
    (h : List.Forall₂ (r.Models home) arguments args) (s : Store ν) :
    (Run.makeList args).Ensures must s fun v t =>
      t.frames = s.frames ∧ r.Models home (Expression.ofList arguments) v := by
  induction h with
  | nil => exact .of_outcome (Run.outcome_pure _ s) ⟨rfl, hnull⟩
  | cons hm _ ih =>
    refine ih.bind fun v t _ hv => ?_
    exact .of_outcome (Run.outcome_makePair _ _ t) ⟨hv.1, .pair _ hm hv.2⟩

theorem Sound.literals_of (hr : r.Sound) {home : Nat → Environment → Prop}
    {arguments : List (Expression ν)} {args : List (Value ν)} {ls : List (Literal ν)}
    (h : List.Forall₂ (r.Models home) arguments args)
    (hls : arguments.mapM (·.asLiteral?) = some ls) : args = ls.map .primitive := by
  induction h generalizing ls with
  | nil =>
    obtain rfl : ls = [] := by simpa using hls.symm
    rfl
  | cons hm _ ih =>
    simp only [List.mapM_cons, Option.bind_eq_bind, Option.bind_eq_some_iff, Option.pure_def,
      Option.some.injEq] at hls
    obtain ⟨l, hl, ms, hms, rfl⟩ := hls
    rw [hr.literal_of hm hl, ih hms]
    rfl

theorem Sound.member_agrees (hr : r.Sound) {home : Nat → Environment → Prop} {written : Bool}
    {o p e : Expression ν} {u v : Value ν} (ho : r.Models home o u) (hp : r.Models home p v)
    (hd : r.discipline.member written u v) (hwritten : written = true → p.asNumber?.isSome = true)
    (h : (Inlining.member o p).run σ = .ok (e, σ')) :
    σ' = σ ∧ (Run.member u v).Ensures r.discipline.strict s fun w t =>
      t = s ∧ r.Models home e w := by
  unfold Inlining.member at h
  split at h
  · next items x hx =>
    obtain ⟨rfl, rfl⟩ := Inlining.pure_ok.1 h
    obtain rfl := hr.number_of hp hx
    cases ho with
    | residual hreads => cases hr.plain hreads
    | pair i ha hb =>
      refine ⟨rfl, ?_⟩
      rw [Run.member, Value.number, Value.asNumber?]
      dsimp only
      have := hr.indexed
      rw [Numeric.entry_eq]
      split
      · exact .of_outcome (Run.outcome_pure _ s) ⟨rfl, ha⟩
      · split
        · exact .of_outcome (Run.outcome_pure _ s) ⟨rfl, hb⟩
        · exact .of_outcome (Run.outcome_pure _ s) ⟨rfl, hr.models_literal .undefined⟩
  · exact (Inlining.throw_ok.1 h).elim
  · next hliteral hpair =>
    obtain ⟨rfl, rfl⟩ := Inlining.pure_ok.1 h
    refine ⟨rfl, (hr.member hd ho.depicts hp.depicts ?_ ?_ s).mono fun w t ht =>
      ⟨ht.1, .residual ht.2⟩⟩
    · rename_i o _ _
      cases o with
      | literal l => exact (hliteral l rfl).elim
      | _ => rfl
    · rintro items rfl
      cases hx : p.asNumber? with
      | none =>
        rw [hx] at hwritten
        exact ⟨Bool.eq_false_iff.2 (fun hw => nomatch hwritten hw), rfl⟩
      | some x => exact (hpair items x rfl hx).elim

theorem Sound.builtin_agrees (hr : r.Sound) {home : Nat → Environment → Prop}
    {residual : List Builtin} {b : Builtin} {arguments : List (Expression ν)}
    {args : List (Value ν)} {e : Expression ν}
    (hargs : List.Forall₂ (r.Models home) arguments args) (hd : r.discipline.builtin b args)
    (h : (Inlining.applyBuiltin residual b arguments).run σ = .ok (e, σ')) :
    σ' = σ ∧ (Run.applyBuiltin b args).Ensures r.discipline.strict s fun v t =>
      t.frames = s.frames ∧ r.Models home e v := by
  unfold Inlining.applyBuiltin at h
  split at h
  · dsimp only at h
    split at h
    · next n hn =>
      obtain ⟨rfl, rfl⟩ := Inlining.pure_ok.1 h
      have hhead : r.Models home (arguments.headD .undefined) (args.headD .undefined) := by
        cases hargs with
        | nil => exact hr.models_literal .undefined
        | cons hm _ => exact hm
      refine ⟨rfl, ?_⟩
      simp only [Run.applyBuiltin, hr.length_of hhead hn]
      exact .of_outcome (Run.outcome_pure _ s) ⟨rfl, hr.models_literal _⟩
    · exact (Inlining.throw_ok.1 h).elim
  · obtain ⟨rfl, rfl⟩ := Inlining.pure_ok.1 h
    exact ⟨rfl, list_of (hr.models_literal .null) hargs s⟩
  · next hlength hlist =>
    split at h
    · split at h
      · next x hx =>
        obtain ⟨rfl, rfl⟩ := Inlining.pure_ok.1 h
        refine ⟨rfl, ?_⟩
        unfold Inlining.foldBuiltin? at hx
        split at hx
        · next hdeterministic =>
          simp only [Option.bind_eq_bind, Option.bind_eq_some_iff] at hx
          obtain ⟨ls, hls, hx⟩ := hx
          have hnumbers : args.map Value.toNumber = ls.map Literal.toNumber := by
            rw [hr.literals_of hargs hls, List.map_map]
            rfl
          have hrandom : b ≠ .random := by
            rintro rfl
            cases hdeterministic
          rw [Run.applyBuiltin_math hlength hlist hrandom, hnumbers, hx]
          exact .of_outcome (Run.outcome_pure _ s) ⟨rfl, hr.models_literal _⟩
        · cases hx
      · next hfold =>
        obtain ⟨rfl, rfl⟩ := Inlining.pure_ok.1 h
        have hdepicts : List.Forall₂ r.Depicts arguments args := hargs.imp fun _ _ hm => hm.depicts
        exact ⟨rfl, (hr.call hd hdepicts hlength hlist hfold s).mono fun v t ht =>
          ⟨congrArg _ ht.1, .residual ht.2⟩⟩
    · exact (Inlining.throw_ok.1 h).elim

theorem called_ok {residual : List Builtin} {reduce : Reducer ν} {floors : Floors} {scope : Nat}
    {f e : Expression ν} {arguments : List (Expression ν)}
    (h : (match f with
      | .function params body home => reduce floors scope ⟨params, body⟩ home arguments
      | .builtin b => Inlining.applyBuiltin residual b arguments
      | callee => throw (.notCallable callee) : Inlining ν (Expression ν)).run σ = .ok (e, σ')) :
    (∃ params body home, f = .function params body home ∧
        (reduce floors scope ⟨params, body⟩ home arguments).run σ = .ok (e, σ')) ∨
      ∃ b, f = .builtin b ∧ (Inlining.applyBuiltin residual b arguments).run σ = .ok (e, σ') := by
  cases f with
  | function params body home => exact .inl ⟨params, body, home, rfl, h⟩
  | builtin b => exact .inr ⟨b, rfl, h⟩
  | _ => exact (Inlining.throw_ok.1 h).elim

theorem call_agrees (hr : r.Sound) {residual : List Builtin} {reduce : Reducer ν} {call : Caller ν}
    {follows : CallCheck ν} (hcalls : r.CallsAgree call follows reduce) {floors : Floors}
    {scope : Nat} {f e : Expression ν} {u : Value ν} {arguments : List (Expression ν)}
    {args : List (Value ν)}
    (h : (∃ params body home, f = .function params body home ∧
        (reduce floors scope ⟨params, body⟩ home arguments).run σ = .ok (e, σ')) ∨
      ∃ b, f = .builtin b ∧ (Inlining.applyBuiltin residual b arguments).run σ = .ok (e, σ'))
    (hcorr : r.Corr W σ s) (hf : r.Models (r.Home W σ) f u)
    (hargs : List.Forall₂ (r.Models (r.Home W σ)) arguments args) (hfollows : follows u args s) :
    (call u args).Ensures r.discipline.strict s (r.Agree W σ' e) := by
  obtain ⟨params, body, home, rfl, h⟩ | ⟨b, rfl, h⟩ := h
  · cases hf with
    | residual hreads => cases hr.plain hreads
    | closure hhome => exact hcalls.closure hcorr hhome hargs hfollows h
  · cases hf with
    | residual hreads => cases hr.plain hreads
    | builtin b =>
      refine hcalls.builtin hfollows fun hd => ?_
      obtain ⟨rfl, hbuiltin⟩ := hr.builtin_agrees (s := s) hargs hd h
      exact hbuiltin.mono fun v t hv => (hcorr.of_frames hv.1).agree (.refl W) hv.2

omit [Numeric ν] in
theorem read_agrees {scope : Nat} {env : Environment} {name : String}
    {e : Expression ν} (hcorr : r.Corr W σ s) (hplaced : Placed W σ scope env)
    (h : (Inlining.read scope name).run σ = .ok (e, σ')) :
    (Run.read env name).Ensures r.discipline.strict s (r.Agree W σ' e) := by
  obtain ⟨rfl, i, b, hb, he⟩ := Inlining.read_ok h
  rw [Scopes.lookup?] at hb
  obtain ⟨hnone, hglobal⟩ | ⟨v, hv, ha⟩ := hcorr.lookup hplaced.chain name
  · have hfind : σ'.findIn? name (scope :: (σ'.frame scope).outer) = none := by
      simpa [binding, Scopes.chain] using hnone
    rw [hfind, Option.map_eq_some_iff] at hb
    obtain ⟨c, hc, heq⟩ := hb
    obtain ⟨rfl, rfl⟩ := Prod.mk.inj heq
    have hname : c.globalName = name := by simpa using List.find?_some hc
    have hvalue : s.lookup? name env = some (.builtin c) := by
      rw [hglobal, ← hname]
      exact hcorr.builtins c
    subst he
    exact .of_outcome (Run.outcome_read_of_lookup hvalue) (hcorr.agree (.refl W) (.builtin c))
  · have hfind : binding σ' (σ'.chain scope) name = some b := by
      cases hf : σ'.findIn? name (scope :: (σ'.frame scope).outer) with
      | none =>
        rw [binding, Scopes.chain, hf] at ha
        cases ha
      | some found =>
        rw [hf] at hb
        obtain rfl : found = (i, b) := by simpa using hb
        rw [binding, Scopes.chain, hf]
        rfl
    rw [hfind] at ha
    refine .of_outcome (Run.outcome_read_of_lookup hv) (hcorr.agree (.refl W) ?_)
    cases ha with
    | parameter hp =>
      subst he
      exact .residual hp
    | mutable hm =>
      subst he
      exact hm
    | constant hm =>
      subst he
      exact hm

end Reading

open Reading

variable {r : Reading ν} {residual : List Builtin} {reduce : Reducer ν}
  {call : Caller ν} {follows : CallCheck ν}

theorem Expression.isSome_of_inline {floors : Floors} {scope : Nat} {σ σ' : Scopes ν}
    {e e' : Expression ν} (h : (e.inline residual reduce floors scope).run σ = .ok (e', σ'))
    (he : e.asNumber?.isSome = true) : e'.asNumber?.isSome = true := by
  cases e with
  | literal l =>
    rw [Expression.inline] at h
    obtain ⟨rfl, -⟩ := Inlining.pure_ok.1 h
    exact he
  | _ => cases he

/-- The expression is inlined to what stands for the value that a run gives it. -/
def Expression.InlineAgrees (r : Reading ν) (call : Caller ν) (follows : CallCheck ν)
    (residual : List Builtin) (reduce : Reducer ν) (env : Environment) (e : Expression ν) : Prop :=
  ∀ ⦃W : World⦄ ⦃σ σ' : Scopes ν⦄ ⦃s : Store ν⦄ ⦃scope : Nat⦄ ⦃floors : Floors⦄
    ⦃e' : Expression ν⦄, e.Obeys r.discipline call follows env s →
    (e.inline residual reduce floors scope).run σ = .ok (e', σ') → r.Corr W σ s →
    Placed W σ scope env →
    (e.evaluate call env).Ensures r.discipline.strict s (r.Agree W σ' e')

section

variable {W : World} {σ σ' σ₁ σ₂ : Scopes ν} {s : Store ν} {env : Environment} {scope : Nat}
  {floors : Floors} {test left right a b : Expression ν} {u : Value ν}

/-- Two operands are evaluated one after the other, and their values stay what they stand for. -/
theorem Expression.InlineAgrees.both (hk : Inlining.ReducerKeeps reduce)
    (hleft : left.InlineAgrees r call follows residual reduce env)
    (hright : right.InlineAgrees r call follows residual reduce env)
    (hobeys : left.Obeys r.discipline call follows env s)
    (hobeysRight : (left.evaluate call env).After s fun _ t =>
      right.Obeys r.discipline call follows env t)
    (ha : (left.inline residual reduce floors scope).run σ = .ok (a, σ₁))
    (hb : (right.inline residual reduce floors scope).run σ₁ = .ok (b, σ₂))
    (hcorr : r.Corr W σ s) (hplaced : Placed W σ scope env)
    {f : Value ν → Value ν → Run ν (Value ν)} {P : Value ν → Store ν → Prop}
    (hf : ∀ u t, (left.evaluate call env).outcome s = (.ok u, t) →
      ∀ v t', (right.evaluate call env).outcome t = (.ok v, t') →
        ∀ W', W.Grows W' → r.Corr W' σ₂ t' → r.Models (r.Home W' σ₂) a u →
          r.Models (r.Home W' σ₂) b v → (f u v).Ensures r.discipline.strict t' P) :
    (do f (← left.evaluate call env) (← right.evaluate call env)).Ensures
      r.discipline.strict s P := by
  have hextend := (left.inline_keeps hk floors scope σ a σ₁ ha).extend
  have hextendRight := (right.inline_keeps hk floors scope σ₁ b σ₂ hb).extend
  refine (hleft hobeys ha hcorr hplaced).bind fun u t ht ⟨W₁, hW₁, hcorr₁, hu⟩ => ?_
  refine (hright (hobeysRight u t ht) hb hcorr₁ (hplaced.mono hW₁ hextend)).bind
    fun v t' ht' ⟨W₂, hW₂, hcorr₂, hv⟩ => ?_
  exact hf u t ht v t' ht' W₂ (hW₁.trans hW₂) hcorr₂ (hu.grow hW₂ hextendRight) hv

/-- A right side that is not evaluated reads as a truth value by its form, by what it would come
to, or by what is supposed of it. -/
theorem Expression.InlineAgrees.reads_unrun (hr : r.Sound)
    (hcalls : r.CallsAgree call follows reduce)
    (hright : right.InlineAgrees r call follows residual reduce env) (hl : a.asLiteral? = none)
    (htest : r.discipline.test u) (hu : r.Depicts a u)
    (hobeys : r.discipline.strict ∧ right.isBoolean = false ∧ ¬ r.discipline.unrun env right s →
      right.Obeys r.discipline call follows env s ∧
        (right.evaluate call env).After s fun v _ => r.discipline.right v)
    (hb : (right.inline residual reduce floors scope).run σ = .ok (b, σ'))
    (hcorr : r.Corr W σ s) (hplaced : Placed W σ scope env) :
    b.isBoolean = true ∨ (∃ w, r.discipline.right w ∧ r.Depicts b w) ∨ r.Unrun b := by
  cases hform : right.isBoolean with
  | true => exact .inl (Expression.isBoolean_of_inline right hform hb)
  | false =>
    have hstrict := hr.strict hl htest hu
    by_cases hunrun : r.discipline.unrun env right s
    · exact .inr (.inr (hcalls.unrun.inline hunrun hcorr hplaced hb))
    · obtain ⟨hobeysRight, hvalue⟩ := hobeys ⟨hstrict, hform, hunrun⟩
      have hsim := hright hobeysRight hb hcorr hplaced
      obtain ⟨v, t, hv⟩ := hsim.ends hstrict
      obtain ⟨W₁, -, -, hm⟩ := hsim.after v t hv
      exact .inr (.inl ⟨v, hvalue v t hv, hm.depicts⟩)

theorem Expression.InlineAgrees.logical (hr : r.Sound) (hk : Inlining.ReducerKeeps reduce)
    (hcalls : r.CallsAgree call follows reduce) (op : LogicalOperator)
    (hleft : left.InlineAgrees r call follows residual reduce env)
    (hright : right.InlineAgrees r call follows residual reduce env) :
    (Expression.logical op left right).InlineAgrees r call follows residual reduce env := by
  intro W σ σ' s scope floors e' hobeys h hcorr hplaced
  rw [Expression.Obeys] at hobeys
  rw [Expression.inline, Inlining.bind_ok] at h
  obtain ⟨a, σ₁, ha, h⟩ := h
  rw [Expression.evaluate]
  refine (hleft hobeys.1 ha hcorr hplaced).bind fun u t ht hagree => ?_
  obtain ⟨W₁, hW₁, hcorr₁, hu⟩ := hagree
  obtain ⟨htest, hobeysRight⟩ := hobeys.2 u t ht
  have hplaced₁ := hplaced.mono hW₁ (left.inline_keeps hk floors scope σ a σ₁ ha).extend
  cases hl : a.asLiteral? with
  | some l =>
    simp only [hl, ← hr.isTruthy_of hu hl] at h
    split
    · next hdecides =>
      rw [if_pos hdecides] at h
      obtain ⟨rfl, rfl⟩ := Inlining.pure_ok.1 h
      exact .of_outcome (Run.outcome_pure _ t) (hcorr₁.agree hW₁ hu)
    · next hdecides =>
      rw [if_neg hdecides] at h
      obtain ⟨hobeysRight, -⟩ := hobeysRight (.inl (Bool.eq_false_iff.2 hdecides))
      exact (hright hobeysRight h hcorr₁ hplaced₁).mono fun _ _ hv => hv.grow hW₁
  | none =>
    simp only [hl] at h
    rw [Inlining.bind_ok] at h
    obtain ⟨b, σ₂, hb, h⟩ := h
    obtain ⟨rfl, rfl⟩ := Inlining.pure_ok.1 h
    rw [Inlining.branching_ok] at hb
    split
    · next hdecides =>
      have hunrun := hright.reads_unrun hr hcalls hl htest hu.depicts
        (fun h => hobeysRight (.inr h)) hb hcorr₁ hplaced₁
      have hreads := @hr.logical op a b u u hl htest hu.depicts
        (fun h => by rw [hdecides] at h; cases h) fun _ => hunrun
      rw [LogicalOperator.select, if_pos hdecides] at hreads
      have hkept := right.inline_keeps hk _ scope σ₁ b σ' hb
      refine .of_outcome (Run.outcome_pure _ t) (Corr.agree ?_ hW₁ (.residual hreads))
      exact hcorr₁.kept hkept (Nat.le_refl _) fun _ _ => id
    · next hdecides =>
      obtain ⟨hobeysRight, hvalue⟩ := hobeysRight (.inl (Bool.eq_false_iff.2 hdecides))
      have hsim := hright hobeysRight hb hcorr₁ hplaced₁
      refine ⟨fun v t' hv => ?_, hsim.ends⟩
      obtain ⟨W₂, hW₂, hcorr₂, hm⟩ := hsim.after v t' hv
      have hreads := @hr.logical op a b u v hl htest hu.depicts
        (fun _ => ⟨hvalue v t' hv, hm.depicts⟩) fun h => absurd h hdecides
      rw [LogicalOperator.select, if_neg hdecides] at hreads
      exact hcorr₂.agree (hW₁.trans hW₂) (.residual hreads)

theorem Expression.InlineAgrees.conditional (hr : r.Sound) (hk : Inlining.ReducerKeeps reduce)
    (htest : test.InlineAgrees r call follows residual reduce env)
    (hleft : left.InlineAgrees r call follows residual reduce env)
    (hright : right.InlineAgrees r call follows residual reduce env) :
    (Expression.conditional test left right).InlineAgrees r call follows residual reduce env := by
  intro W σ σ' s scope floors e' hobeys h hcorr hplaced
  rw [Expression.Obeys] at hobeys
  rw [Expression.inline, Inlining.bind_ok] at h
  obtain ⟨a, σ₁, ha, h⟩ := h
  rw [Expression.evaluate]
  refine (htest hobeys.1 ha hcorr hplaced).bind fun u t ht hagree => ?_
  obtain ⟨W₁, hW₁, hcorr₁, hu⟩ := hagree
  obtain ⟨hu', hobeysLeft, hobeysRight⟩ := hobeys.2 u t ht
  have hplaced₁ := hplaced.mono hW₁ (test.inline_keeps hk floors scope σ a σ₁ ha).extend
  cases hl : a.asLiteral? with
  | some l =>
    simp only [hl, ← hr.isTruthy_of hu hl] at h
    split
    · next htruthy =>
      rw [if_pos htruthy] at h
      exact (hleft (hobeysLeft htruthy).1 h hcorr₁ hplaced₁).mono fun _ _ hv => hv.grow hW₁
    · next htruthy =>
      rw [if_neg htruthy] at h
      exact (hright (hobeysRight (Bool.eq_false_iff.2 htruthy)).1 h hcorr₁ hplaced₁).mono
        fun _ _ hv => hv.grow hW₁
  | none =>
    simp only [hl] at h
    rw [Inlining.bind_ok] at h
    obtain ⟨b, σ₂, hb, h⟩ := h
    rw [Inlining.bind_ok] at h
    obtain ⟨c, σ₃, hc, h⟩ := h
    obtain ⟨rfl, rfl⟩ := Inlining.pure_ok.1 h
    rw [Inlining.branching_ok] at hb hc
    have hkeptLeft := left.inline_keeps hk _ scope σ₁ b σ₂ hb
    have hkeptRight := right.inline_keeps hk _ scope σ₂ c _ hc
    split
    · next htruthy =>
      obtain ⟨hobeysSide, hchosen⟩ := hobeysLeft htruthy
      have hsim := hleft hobeysSide hb hcorr₁ hplaced₁
      refine ⟨fun v t' hv => ?_, hsim.ends⟩
      obtain ⟨W₂, hW₂, hcorr₂, hm⟩ := hsim.after v t' hv
      refine Corr.agree (hcorr₂.kept hkeptRight (Nat.le_refl _) fun _ _ => id) (hW₁.trans hW₂) ?_
      refine .residual (hr.conditional hl (.inl ⟨hu', hchosen v t' hv⟩) hu.depicts
        (fun _ => hm.depicts) fun hfalse => ?_)
      rw [htruthy] at hfalse
      cases hfalse
    · next htruthy =>
      obtain ⟨hobeysSide, hchosen⟩ := hobeysRight (Bool.eq_false_iff.2 htruthy)
      have hcorr₂ := hcorr₁.kept hkeptLeft (Nat.le_refl _) fun _ _ => id
      have hsim := hright hobeysSide hc hcorr₂ (hplaced₁.mono (.refl _) hkeptLeft.extend)
      refine ⟨fun v t' hv => ?_, hsim.ends⟩
      obtain ⟨W₂, hW₂, hcorr₂, hm⟩ := hsim.after v t' hv
      refine hcorr₂.agree (hW₁.trans hW₂) ?_
      exact .residual (hr.conditional hl (.inl ⟨hu', hchosen v t' hv⟩) hu.depicts
        (fun h => absurd h htruthy) fun _ => hm.depicts)

theorem Expression.InlineAgrees.assignment (hr : r.Sound) (hk : Inlining.ReducerKeeps reduce)
    (op : AssignmentOperator) (target : String) {value : Expression ν}
    (hvalue : value.InlineAgrees r call follows residual reduce env) :
    (Expression.assignment op target value).InlineAgrees r call follows residual reduce env := by
  intro W σ σ' s scope floors e' hobeys h hcorr hplaced
  rw [Expression.Obeys] at hobeys
  rw [Expression.inline, Inlining.bind_ok] at h
  obtain ⟨a, σ₁, ha, h⟩ := h
  rw [Inlining.bind_ok] at h
  obtain ⟨⟨before, after⟩, σ₂, hassign, h⟩ := h
  obtain ⟨rfl, rfl⟩ := Inlining.pure_ok.1 h
  have hextend := (value.inline_keeps hk floors scope σ a σ₁ ha).extend
  obtain ⟨owner, current, hfind, -, hpair, rfl⟩ := Inlining.assign_ok hassign
  obtain ⟨rfl, rfl⟩ := Prod.mk.inj hpair
  rw [Expression.evaluate]
  refine (hvalue hobeys.1 ha hcorr hplaced).bind fun v t ht hagree => ?_
  obtain ⟨W₁, hW₁, hcorr₁, hv⟩ := hagree
  obtain ⟨-, hbinary⟩ := hobeys.2 v t ht
  obtain ⟨i, old, howner, hlookup, hold, hwrite⟩ :=
    hcorr₁.assign (hplaced.mono hW₁ hextend).chain hfind
  have hfinish {w : Value ν} {e' : Expression ν} (hm : r.Models (r.Home W₁ σ₁) e' w) :
      (do Run.assign env target w; return w : Run ν (Value ν)).Ensures r.discipline.strict t
        (r.Agree W (σ₁.define owner target (.mutable e')) e') := by
    refine .step (Run.outcome_assign_of_owner howner _) (.of_outcome (Run.outcome_pure _ _) ?_)
    exact (hwrite _ _ hm).agree hW₁ (hm.grow (.refl _) (Scopes.extends_define _ _ _ _))
  cases hop : op.binaryOperator? with
  | none => exact hfinish hv
  | some o =>
    refine .step (Run.outcome_read_of_lookup hlookup) (hfinish (.residual ?_))
    exact hr.binary (hbinary o old hop hlookup) hold.depicts hv.depicts

theorem Expression.inlineAgrees_stray {items : List (Expression ν)}
    (hitems : ∀ a b, items = [a, b] → False) :
    (Expression.array items).InlineAgrees r call follows residual reduce env := by
  intro W σ σ' s scope floors e' hobeys _ _ _
  rw [Expression.Obeys] at hobeys
  · rw [Expression.evaluate]
    · exact ⟨fun _ _ hv => by simp at hv, fun hstrict => absurd hstrict hobeys⟩
    · exact hitems
  · exact hitems

theorem Expression.inlineAgrees_update (hr : r.Sound) (op : UpdateOperator) (isBefore : Bool)
    (target : String) :
    (Expression.update op isBefore target).InlineAgrees r call follows residual reduce env := by
  intro W σ σ' s scope floors e' hobeys h hcorr hplaced
  rw [Expression.Obeys] at hobeys
  rw [Expression.inline, Inlining.bind_ok] at h
  obtain ⟨⟨before, after⟩, σ₁, hassign, h⟩ := h
  obtain ⟨rfl, rfl⟩ := Inlining.pure_ok.1 h
  obtain ⟨owner, current, hfind, -, hpair, rfl⟩ := Inlining.assign_ok hassign
  obtain ⟨rfl, rfl⟩ := Prod.mk.inj hpair
  obtain ⟨i, old, howner, hlookup, hold, hwrite⟩ := hcorr.assign hplaced.chain hfind
  have hd := hobeys.2 old hlookup
  have hbefore := hr.number hd hold.depicts
  have hafter := @hr.update op _ _ hd hold.depicts
  rw [Expression.evaluate]
  refine .step (Run.outcome_read_of_lookup hlookup) ?_
  refine .step (Run.outcome_assign_of_owner howner _) ?_
  refine .of_outcome (Run.outcome_pure _ _) ((hwrite _ _ (.residual hafter)).agree (.refl W) ?_)
  cases isBefore with
  | true => exact .residual hafter
  | false => exact .residual hbefore

end

variable {env : Environment}

mutual

theorem Expression.inline_agrees (hr : r.Sound) (hk : Inlining.ReducerKeeps reduce)
    (hcalls : r.CallsAgree call follows reduce) :
    (e : Expression ν) → e.InlineAgrees r call follows residual reduce env
  | .literal l => by
    intro W σ σ' s scope floors e' _ h hcorr _
    rw [Expression.inline] at h
    obtain ⟨rfl, rfl⟩ := Inlining.pure_ok.1 h
    rw [Expression.evaluate]
    exact .of_outcome (Run.outcome_pure _ s) (hcorr.agree (.refl W) (hr.models_literal l))
  | .builtin b => by
    intro W σ σ' s scope floors e' _ h hcorr _
    rw [Expression.inline] at h
    obtain ⟨rfl, rfl⟩ := Inlining.pure_ok.1 h
    rw [Expression.evaluate]
    exact .of_outcome (Run.outcome_pure _ s) (hcorr.agree (.refl W) (.builtin b))
  | .identifier name => by
    intro W σ σ' s scope floors e' _ h hcorr hplaced
    rw [Expression.inline] at h
    rw [Expression.evaluate]
    exact read_agrees hcorr hplaced h
  | .unary op argument => by
    intro W σ σ' s scope floors e' hobeys h hcorr hplaced
    rw [Expression.Obeys] at hobeys
    rw [Expression.inline, Inlining.bind_ok] at h
    obtain ⟨a, σ₁, ha, h⟩ := h
    obtain ⟨rfl, rfl⟩ := Inlining.pure_ok.1 h
    rw [Expression.evaluate]
    refine (Expression.inline_agrees hr hk hcalls argument hobeys.1 ha hcorr hplaced).bind
      fun v t ht ⟨W₁, hW₁, hcorr₁, hm⟩ => ?_
    refine .of_outcome (Run.outcome_pure _ t) (hcorr₁.agree hW₁ (.residual ?_))
    exact hr.unary (hobeys.2 v t ht) hm.depicts
  | .binary op left right => by
    intro W σ σ' s scope floors e' hobeys h hcorr hplaced
    rw [Expression.Obeys] at hobeys
    rw [Expression.inline, Inlining.bind_ok] at h
    obtain ⟨a, σ₁, ha, h⟩ := h
    rw [Inlining.bind_ok] at h
    obtain ⟨b, σ₂, hb, h⟩ := h
    obtain ⟨rfl, rfl⟩ := Inlining.pure_ok.1 h
    have hleft := Expression.inline_agrees hr hk hcalls left
    have hright := Expression.inline_agrees hr hk hcalls right
    rw [Expression.evaluate]
    refine hleft.both hk hright hobeys.1 (fun u t ht => (hobeys.2 u t ht).1) ha hb hcorr hplaced
      fun u t ht v t' ht' W₁ hW₁ hcorr₁ hu hv => ?_
    refine .of_outcome (Run.outcome_pure _ t') (hcorr₁.agree hW₁ (.residual ?_))
    exact hr.binary ((hobeys.2 u t ht).2 v t' ht') hu.depicts hv.depicts
  | .member object property => by
    intro W σ σ' s scope floors e' hobeys h hcorr hplaced
    rw [Expression.Obeys] at hobeys
    rw [Expression.inline, Inlining.bind_ok] at h
    obtain ⟨a, σ₁, ha, h⟩ := h
    rw [Inlining.bind_ok] at h
    obtain ⟨b, σ₂, hb, h⟩ := h
    have hobject := Expression.inline_agrees hr hk hcalls object
    have hproperty := Expression.inline_agrees hr hk hcalls property
    rw [Expression.evaluate]
    refine hobject.both hk hproperty hobeys.1 (fun u t ht => (hobeys.2 u t ht).1) ha hb hcorr
      hplaced fun u t ht v t' ht' W₁ hW₁ hcorr₁ hu hv => ?_
    obtain ⟨rfl, hmember⟩ := hr.member_agrees (s := t') hu hv ((hobeys.2 u t ht).2 v t' ht')
      (Expression.isSome_of_inline hb) h
    refine hmember.mono fun w t'' hw => ?_
    obtain ⟨rfl, hm⟩ := hw
    exact hcorr₁.agree hW₁ hm
  | .array [head, tail] => by
    intro W σ σ' s scope floors e' hobeys h hcorr hplaced
    rw [Expression.Obeys] at hobeys
    rw [Expression.inline, Inlining.bind_ok] at h
    obtain ⟨es, σ₁, hes, h⟩ := h
    obtain ⟨rfl, rfl⟩ := Inlining.pure_ok.1 h
    rw [Expression.inlineAll, Inlining.bind_ok] at hes
    obtain ⟨a, σ₁, ha, h⟩ := hes
    rw [Inlining.bind_ok] at h
    obtain ⟨bs, σ₂, hbs, h⟩ := h
    obtain ⟨rfl, rfl⟩ := Inlining.pure_ok.1 h
    rw [Expression.inlineAll, Inlining.bind_ok] at hbs
    obtain ⟨b, σ₂, hb, h⟩ := hbs
    rw [Expression.inlineAll] at h
    obtain ⟨rfl, rfl⟩ := Inlining.pure_ok.1 h
    have hhead := Expression.inline_agrees hr hk hcalls head
    have htail := Expression.inline_agrees hr hk hcalls tail
    rw [Expression.evaluate]
    refine hhead.both hk htail hobeys.1 hobeys.2 ha hb hcorr hplaced
      fun u t ht v t' ht' W₁ hW₁ hcorr₁ hu hv => ?_
    have hcorr₂ : r.Corr W₁ _ { t' with made := t'.made + 1 } := hcorr₁.of_frames rfl
    exact .of_outcome (Run.outcome_makePair u v t') (hcorr₂.agree hW₁ (.pair _ hu hv))
  | .array [] => Expression.inlineAgrees_stray (by simp)
  | .array [_] => Expression.inlineAgrees_stray (by simp)
  | .array (_ :: _ :: _ :: _) => Expression.inlineAgrees_stray (by simp)
  | .logical op left right =>
    Expression.InlineAgrees.logical hr hk hcalls op (Expression.inline_agrees hr hk hcalls left)
      (Expression.inline_agrees hr hk hcalls right)
  | .conditional test consequent alternate =>
    Expression.InlineAgrees.conditional hr hk (Expression.inline_agrees hr hk hcalls test)
      (Expression.inline_agrees hr hk hcalls consequent)
      (Expression.inline_agrees hr hk hcalls alternate)
  | .function params body home => by
    intro W σ σ' s scope floors e' hobeys h hcorr hplaced
    rw [Expression.Obeys] at hobeys
    rw [Expression.inline] at h
    obtain ⟨rfl, rfl⟩ := Inlining.pure_ok.1 h
    rw [Expression.evaluate]
    refine .of_outcome (Run.outcome_makeClosure none ⟨params, body⟩ env s) ?_
    have hcorr₁ : r.Corr W σ' { s with made := s.made + 1 } := hcorr.of_frames rfl
    exact hcorr₁.agree (.refl W) (.closure ⟨hr.function hobeys, hplaced⟩)
  | .call callee arguments => by
    intro W σ σ' s scope floors e' hobeys h hcorr hplaced
    rw [Expression.Obeys] at hobeys
    rw [Expression.inline, Inlining.bind_ok] at h
    obtain ⟨f, σ₁, hf, h⟩ := h
    rw [Inlining.bind_ok] at h
    obtain ⟨es, σ₂, hes, h⟩ := h
    have hextend := (callee.inline_keeps hk floors scope σ f σ₁ hf).extend
    have hextendAll := (Expression.inlineAll_keeps hk floors scope arguments σ₁ es σ₂ hes).extend
    rw [Expression.evaluate]
    refine (Expression.inline_agrees hr hk hcalls callee hobeys.1 hf hcorr hplaced).bind
      fun u t ht ⟨W₁, hW₁, hcorr₁, hu⟩ => ?_
    obtain ⟨hobeysAll, hfollows⟩ := hobeys.2 u t ht
    refine (Expression.inlineAll_agrees hr hk hcalls arguments hobeysAll hes hcorr₁
      (hplaced.mono hW₁ hextend)).bind fun vs t' ht' ⟨W₂, hW₂, hcorr₂, hvs⟩ => ?_
    have hcall := call_agrees hr hcalls (called_ok h) hcorr₂ (hu.grow hW₂ hextendAll) hvs
      (hfollows vs t' ht')
    exact hcall.mono fun _ _ hv => hv.grow (hW₁.trans hW₂)
  | .assignment op target value =>
    Expression.InlineAgrees.assignment hr hk op target (Expression.inline_agrees hr hk hcalls value)
  | .update op isBefore target => Expression.inlineAgrees_update hr op isBefore target

theorem Expression.inlineAll_agrees (hr : r.Sound) (hk : Inlining.ReducerKeeps reduce)
    (hcalls : r.CallsAgree call follows reduce) {W : World} {σ σ' : Scopes ν} {s : Store ν}
    {scope : Nat} {floors : Floors} {es' : List (Expression ν)} :
    (es : List (Expression ν)) → Expression.allObey r.discipline call follows env es s →
      (Expression.inlineAll residual reduce floors scope es).run σ = .ok (es', σ') →
      r.Corr W σ s → Placed W σ scope env →
      (Expression.evaluateAll call env es).Ensures r.discipline.strict s fun vs t =>
        ∃ W', W.Grows W' ∧ r.Corr W' σ' t ∧ List.Forall₂ (r.Models (r.Home W' σ')) es' vs
  | [] => by
    intro _ h hcorr _
    rw [Expression.inlineAll] at h
    obtain ⟨rfl, rfl⟩ := Inlining.pure_ok.1 h
    rw [Expression.evaluateAll]
    exact .of_outcome (Run.outcome_pure _ s) ⟨W, .refl W, hcorr, .nil⟩
  | e :: es => by
    intro hobeys h hcorr hplaced
    rw [Expression.allObey] at hobeys
    rw [Expression.inlineAll, Inlining.bind_ok] at h
    obtain ⟨a, σ₁, ha, h⟩ := h
    rw [Inlining.bind_ok] at h
    obtain ⟨bs, σ₂, hbs, h⟩ := h
    obtain ⟨rfl, rfl⟩ := Inlining.pure_ok.1 h
    have hleft := (e.inline_keeps hk floors scope σ a σ₁ ha).extend
    have hright := (Expression.inlineAll_keeps hk floors scope es σ₁ bs _ hbs).extend
    rw [Expression.evaluateAll]
    refine (Expression.inline_agrees hr hk hcalls e hobeys.1 ha hcorr hplaced).bind
      fun u t ht ⟨W₁, hW₁, hcorr₁, hu⟩ => ?_
    refine (Expression.inlineAll_agrees hr hk hcalls es (hobeys.2 u t ht) hbs hcorr₁
      (hplaced.mono hW₁ hleft)).bind fun vs t' ht' ⟨W₂, hW₂, hcorr₂, hvs⟩ => ?_
    exact .of_outcome (Run.outcome_pure _ t')
      ⟨W₂, hW₁.trans hW₂, hcorr₂, .cons (hu.grow hW₂ hright) hvs⟩

end

end Waveform
