import Mathlib.Data.Set.Insert
import Waveform.Evaluation.Program
import Waveform.Proofs.Evaluation.Outcome

/-!
# Keeping track of pairs and closures

A run makes pairs and closures, and knows no others than those that it finds in the frames and those
that it makes. What holds of all pairs and closures that are known, and is kept whenever one more is
made, holds at the end of every run.
-/

namespace Waveform

variable {ν : Type}

def Value.Holds (c : Closure ν) : Value ν → Prop
  | .closure d => d = c
  | .pair _ head tail => head.Holds c ∨ tail.Holds c
  | _ => False

def Store.Holds (s : Store ν) (c : Closure ν) : Prop :=
  ∃ i name v, (s.frame i).find? name = some v ∧ v.Holds c

/-- What has been given an identity: a closure, or a pair, of which only the identity counts. -/
inductive Made (ν : Type)
  | closure (c : Closure ν)
  | pair (identity : Nat)

def Made.identity : Made ν → Nat
  | closure c => c.identity
  | pair i => i

def Value.Includes (x : Made ν) : Value ν → Prop
  | .closure c => .closure c = x
  | .pair i head tail => .pair i = x ∨ head.Includes x ∨ tail.Includes x
  | _ => False

def Store.Includes (s : Store ν) (x : Made ν) : Prop :=
  ∃ i name v, (s.frame i).find? name = some v ∧ v.Includes x

theorem Value.includes_closure_iff {v : Value ν} {c : Closure ν} :
    v.Includes (.closure c) ↔ v.Holds c := by
  induction v with
  | primitive l => rfl
  | builtin b => rfl
  | closure d => exact ⟨Made.closure.inj, congrArg Made.closure⟩
  | pair i head tail ihead itail =>
    rw [Includes, Holds, ihead, itail, or_iff_right nofun]

theorem Store.exists_find?_of_lookup {s : Store ν} {name : String} {env : Environment}
    {v : Value ν} (h : s.lookup? name env = some v) : ∃ i, (s.frame i).find? name = some v := by
  induction env with
  | nil => cases h
  | cons i outer ih =>
    rw [lookup?] at h
    cases hi : (s.frame i).find? name with
    | some w =>
      rw [hi] at h
      exact ⟨i, hi.trans h⟩
    | none =>
      rw [hi] at h
      exact ih h

def Value.Within (v : Value ν) (K : Set (Made ν)) : Prop :=
  ∀ x, v.Includes x → x ∈ K

theorem Value.Within.mono {v : Value ν} {K K' : Set (Made ν)} (h : v.Within K) (hK : K ⊆ K') :
    v.Within K' :=
  fun c hc => hK (h c hc)

theorem Value.within_primitive (l : Literal ν) (K : Set (Made ν)) :
    (Value.primitive l).Within K :=
  fun _ hc => hc.elim

theorem Value.within_builtin (b : Builtin) (K : Set (Made ν)) :
    (Value.builtin b : Value ν).Within K :=
  fun _ hc => hc.elim

theorem UnaryOperator.within_apply [Numeric ν] (op : UnaryOperator) (v : Value ν)
    (K : Set (Made ν)) : (op.apply v).Within K := by
  cases op <;> exact Value.within_primitive _ K

theorem BinaryOperator.within_apply [Numeric ν] (op : BinaryOperator) (v w : Value ν)
    (K : Set (Made ν)) : (op.apply v w).Within K := by
  cases op <;> exact Value.within_primitive _ K

/-- What a statement returns has known pairs and closures only. -/
def Completion.Within (c : Completion ν) (K : Set (Made ν)) : Prop :=
  ∀ v, c = .returned v → v.Within K

/-- What is to hold of a store and of the pairs and closures that are known there, and the
environments that code runs in. -/
structure Tracking (ν : Type) where
  holds : Store ν → Set (Made ν) → Prop
  allows : Store ν → Environment → Prop

/-- Every step of a run keeps what holds. -/
structure Tracking.Lawful (T : Tracking ν) : Prop where
  grow {s t K} : T.holds s K → s.frames.size ≤ t.frames.size → t.made = s.made → T.holds t K
  pair {s K} : T.holds s K → T.holds { s with made := s.made + 1 } (insert (.pair s.made) K)
  closure {s K env} : T.holds s K → T.allows s env → ∀ name f,
    T.holds { s with made := s.made + 1 } (insert (.closure ⟨s.made, name, f, env⟩) K)
  inner {s K env} : T.holds s K → T.allows s env →
    T.allows (s.extend env).2 (s.frames.size :: env)
  called {s K c} : T.holds s K → .closure c ∈ K →
    T.allows (s.extend c.environment).2 (s.frames.size :: c.environment)
  later {s t env} : T.allows s env → s.frames.size ≤ t.frames.size → T.allows t env

/-- All pairs and closures in the frames are known, and what is to hold of them does. -/
structure Store.Tracks (s : Store ν) (T : Tracking ν) (K : Set (Made ν)) : Prop where
  includes {x} : s.Includes x → x ∈ K
  holds : T.holds s K

namespace Store.Tracks

variable {T : Tracking ν} {s : Store ν} {K : Set (Made ν)} {env : Environment}

theorem mem_of_holds (h : s.Tracks T K) {c : Closure ν} (hc : s.Holds c) : .closure c ∈ K := by
  obtain ⟨i, name, v, hv, hcv⟩ := hc
  exact h.includes ⟨i, name, v, hv, Value.includes_closure_iff.2 hcv⟩

theorem within_lookup (h : s.Tracks T K) {name : String} {v : Value ν}
    (hv : s.lookup? name env = some v) : v.Within K := by
  obtain ⟨i, hi⟩ := exists_find?_of_lookup hv
  exact fun _ hx => h.includes ⟨i, name, v, hi, hx⟩

theorem within_copy (h : s.Tracks T K) (name : String) :
    ((s.lookup? name env).getD .undefined).Within K := by
  cases hv : s.lookup? name env with
  | none => exact Value.within_primitive _ K
  | some v => exact h.within_lookup hv

variable (hT : T.Lawful)

include hT

theorem bind (h : s.Tracks T K) (i : Nat) (name : String) {v : Value ν} (hv : v.Within K) :
    (s.bind i name v).Tracks T K where
  includes {x} := by
    rintro ⟨j, other, w, hw, hxw⟩
    by_cases hlt : i < s.frames.size
    · rw [find?_bind hlt] at hw
      split at hw
      · cases hw
        exact hv x hxw
      · exact h.includes ⟨j, other, w, hw, hxw⟩
    · rw [bind_of_le (Nat.le_of_not_lt hlt)] at hw
      exact h.includes ⟨j, other, w, hw, hxw⟩
  holds := hT.grow h.holds (by rw [size_bind]) rfl

theorem define (h : s.Tracks T K) (env : Environment) (name : String) {v : Value ν}
    (hv : v.Within K) : (s.define env name v).Tracks T K := by
  cases env with
  | nil => exact h
  | cons i outer => exact h.bind hT i name hv

theorem extend (h : s.Tracks T K) (env : Environment) : (s.extend env).2.Tracks T K where
  includes hx := by
    obtain ⟨j, name, v, hv, hxv⟩ := hx
    rw [frame_extend] at hv
    exact h.includes ⟨j, name, v, hv, hxv⟩
  holds := hT.grow h.holds (by rw [size_extend]; exact Nat.le_succ _) rfl

end Store.Tracks

namespace Run

variable {α β : Type} {x : Run ν α} {T : Tracking ν} {K : Set (Made ν)} {s t : Store ν}

/-- The run knows what it makes, and what it ends with has the property. -/
def Tracked (x : Run ν α) (T : Tracking ν) (K : Set (Made ν)) (s : Store ν)
    (P : Set (Made ν) → α → Store ν → Prop) : Prop :=
  x.After s fun a t => ∃ K', K ⊆ K' ∧ t.Tracks T K' ∧ s.frames.size ≤ t.frames.size ∧ P K' a t

variable {P : Set (Made ν) → α → Store ν → Prop}

theorem Tracked.of_outcome {K' : Set (Made ν)} {a : α} (h : x.outcome s = (.ok a, t))
    (hK : K ⊆ K') (ht : t.Tracks T K') (hsize : s.frames.size ≤ t.frames.size) (hP : P K' a t) :
    x.Tracked T K s P :=
  After.of_outcome h ⟨K', hK, ht, hsize, hP⟩

theorem Tracked.of_outcome_eq {y : Run ν α} (h : x.outcome s = y.outcome s)
    (hy : y.Tracked T K s P) : x.Tracked T K s P :=
  fun a t ha => hy a t (h.symm.trans ha)

theorem Tracked.pure {a : α} (h : s.Tracks T K) (hP : P K a s) :
    (pure a : Run ν α).Tracked T K s P :=
  .of_outcome (outcome_pure a s) (Set.Subset.refl K) h (Nat.le_refl _) hP

theorem Tracked.throw (e : Stop ν) : (throw e : Run ν α).Tracked T K s P :=
  nofun

theorem Tracked.fail (cause : RuntimeError ν) : (fail cause : Run ν α).Tracked T K s P :=
  nofun

theorem Tracked.bind {f : α → Run ν β} {Q : Set (Made ν) → β → Store ν → Prop}
    (hx : x.Tracked T K s P)
    (hf : ∀ K' a t, K ⊆ K' → t.Tracks T K' → s.frames.size ≤ t.frames.size → P K' a t →
      (f a).Tracked T K' t Q) : (x >>= f).Tracked T K s Q := by
  intro b u hb
  obtain ⟨a, t, ha, hb⟩ := bind_ok.1 hb
  obtain ⟨K', hK, ht, hsize, hP⟩ := hx a t ha
  obtain ⟨K'', hK', hu, hsize', hQ⟩ := hf K' a t hK ht hsize hP b u hb
  exact ⟨K'', hK.trans hK', hu, Nat.le_trans hsize hsize', hQ⟩

end Run

/-! ## Steps -/

namespace Run

variable {T : Tracking ν} (hT : T.Lawful) {K : Set (Made ν)} {s : Store ν} {env : Environment}

theorem tracked_read (h : s.Tracks T K) (name : String) :
    (read env name).Tracked T K s fun K v _ => v.Within K := by
  intro v t hv
  obtain ⟨hv, rfl⟩ := read_ok.1 hv
  exact ⟨K, Set.Subset.refl K, h, Nat.le_refl _, h.within_lookup hv⟩

include hT

theorem tracked_assign (h : s.Tracks T K) (name : String) {v : Value ν} (hv : v.Within K) :
    (assign env name v).Tracked T K s fun _ _ _ => True := by
  intro u t ht
  obtain ⟨i, -, rfl⟩ := assign_ok.1 ht
  exact ⟨K, Set.Subset.refl K, h.bind hT i name hv, by rw [Store.size_bind], trivial⟩

theorem tracked_define (h : s.Tracks T K) (name : String) {v : Value ν} (hv : v.Within K) :
    (define env name v).Tracked T K s fun _ _ _ => True :=
  .of_outcome (outcome_define env name v s) (Set.Subset.refl K) (h.define hT env name hv)
    (by rw [Store.size_define]) trivial

theorem tracked_extend (h : s.Tracks T K) (henv : T.allows s env) :
    (extend env).Tracked T K s fun _ inner t => T.allows t inner :=
  .of_outcome (outcome_extend env s) (Set.Subset.refl K) (h.extend hT env)
    (by rw [Store.size_extend]; exact Nat.le_succ _) (hT.inner h.holds henv)

theorem tracked_extend_of_mem (h : s.Tracks T K) {c : Closure ν} (hc : .closure c ∈ K) :
    (extend c.environment).Tracked T K s fun _ inner t => T.allows t inner :=
  .of_outcome (outcome_extend c.environment s) (Set.Subset.refl K) (h.extend hT _)
    (by rw [Store.size_extend]; exact Nat.le_succ _) (hT.called h.holds hc)

theorem tracked_makePair (h : s.Tracks T K) {head tail : Value ν} (hhead : head.Within K)
    (htail : tail.Within K) : (makePair head tail).Tracked T K s fun K v _ => v.Within K := by
  refine .of_outcome (outcome_makePair head tail s) (Set.subset_insert (.pair s.made) K)
    ⟨fun hy => .inr (h.includes hy), hT.pair h.holds⟩ (Nat.le_refl _) ?_
  rintro x (rfl | hx | hx)
  · exact Set.mem_insert _ _
  · exact .inr (hhead x hx)
  · exact .inr (htail x hx)

theorem tracked_makeClosure (h : s.Tracks T K) (henv : T.allows s env) (name : Option String)
    (f : Function ν) : (makeClosure name f env).Tracked T K s fun K v _ => v.Within K := by
  refine .of_outcome (outcome_makeClosure name f env s)
    (Set.subset_insert (.closure ⟨s.made, name, f, env⟩) K)
    ⟨fun hy => .inr (h.includes hy), hT.closure h.holds henv name f⟩ (Nat.le_refl _) ?_
  rintro x rfl
  exact Set.mem_insert _ _

theorem tracked_makeList (h : s.Tracks T K) {vs : List (Value ν)} (hvs : ∀ v ∈ vs, v.Within K) :
    (makeList vs).Tracked T K s fun K v _ => v.Within K := by
  induction vs with
  | nil => exact .pure h (Value.within_primitive _ K)
  | cons v vs ih =>
    refine .bind (ih fun w hw => hvs w (List.mem_cons_of_mem _ hw)) ?_
    intro K' rest t hK ht _ hrest
    exact tracked_makePair hT ht ((hvs v (List.mem_cons_self ..)).mono hK) hrest

theorem tracked_defineParams (h : s.Tracks T K) (params : List String) {args : List (Value ν)}
    (hargs : ∀ v ∈ args, v.Within K) :
    (defineParams env params args).Tracked T K s fun _ _ _ => True := by
  induction params generalizing args K s with
  | nil => exact .pure h trivial
  | cons p ps ih =>
    cases args with
    | nil =>
      refine .bind (tracked_define hT h p (Value.within_primitive _ K)) ?_
      intro K' _ t _ ht _ _
      exact ih ht nofun
    | cons v vs =>
      refine .bind (tracked_define hT h p (hargs v (List.mem_cons_self ..))) ?_
      intro K' _ t hK ht _ _
      exact ih ht fun w hw => (hargs w (List.mem_cons_of_mem _ hw)).mono hK

theorem tracked_hoist (h : s.Tracks T K) (henv : T.allows s env) (body : List (Statement ν)) :
    (Statement.hoist env body).Tracked T K s fun _ _ _ => True := by
  induction body generalizing K s with
  | nil => exact .pure h trivial
  | cons st rest ih =>
    cases st with
    | function name params body =>
      refine .bind (tracked_makeClosure hT h henv (some name) ⟨params, body⟩) ?_
      intro K' v t _ ht hsize hv
      refine .bind (tracked_define hT ht name hv) ?_
      intro K'' _ u _ hu hsize' _
      exact ih hu (hT.later henv (Nat.le_trans hsize hsize'))
    | _ => exact ih h henv

theorem tracked_enter (h : s.Tracks T K) (henv : T.allows s env) (body : List (Statement ν)) :
    (enter env body).Tracked T K s fun _ inner t => T.allows t inner := by
  refine .bind (tracked_extend hT h henv) ?_
  intro K' inner t _ ht _ hinner
  refine .bind (tracked_hoist hT ht hinner body) ?_
  intro K'' _ u _ hu hsize _
  exact .pure hu (hT.later hinner hsize)

theorem tracked_copyIn (h : s.Tracks T K)
    (source target : Environment) (copied : Option String) :
    (copyIn source target copied).Tracked T K s fun _ _ _ => True := by
  cases copied with
  | none => exact .pure h trivial
  | some name =>
    exact .of_outcome_eq (outcome_copyIn ..) (tracked_define hT h name (h.within_copy name))

theorem tracked_copyOut (h : s.Tracks T K)
    (source target : Environment) (copied : Option String) :
    (copyOut source target copied).Tracked T K s fun _ _ _ => True := by
  cases copied with
  | none => exact .pure h trivial
  | some name =>
    exact .of_outcome_eq (outcome_copyOut ..) (tracked_assign hT h name (h.within_copy name))

omit hT in
theorem tracked_rounds {test : Run ν Bool} {body : Run ν (Completion ν)} {size : Nat}
    (htest : ∀ {K s}, s.Tracks T K → size ≤ s.frames.size → test.Tracked T K s fun _ _ _ => True)
    (hbody : ∀ {K s}, s.Tracks T K → size ≤ s.frames.size →
      body.Tracked T K s fun K c _ => c.Within K) (patience : Nat) :
    ∀ {K s}, s.Tracks T K → size ≤ s.frames.size →
      (rounds test body patience).Tracked T K s fun K c _ => c.Within K := by
  induction patience with
  | zero => exact fun _ _ => .throw _
  | succ patience ih =>
    intro K s h hsize
    rw [rounds]
    refine .bind (htest h hsize) ?_
    intro K₁ holds t _ h₁ hsize₁ _
    cases holds with
    | false => exact .pure h₁ nofun
    | true =>
      refine .bind (hbody h₁ (Nat.le_trans hsize hsize₁)) ?_
      intro K₂ c u _ h₂ hsize₂ hc
      cases c with
      | normal => exact ih h₂ (Nat.le_trans hsize (Nat.le_trans hsize₁ hsize₂))
      | returned v => exact .pure h₂ hc

variable [Numeric ν]

omit hT in
theorem tracked_member (h : s.Tracks T K) {object property : Value ν} (hobject : object.Within K) :
    (member object property).Tracked T K s fun K v _ => v.Within K := by
  have hundefined : (Value.undefined : Value ν).Within K := Value.within_primitive _ K
  cases object with
  | pair i head tail =>
    rw [member]
    split
    · split
      · exact .pure h fun x hx => hobject x (.inr (.inl hx))
      · split
        · exact .pure h fun x hx => hobject x (.inr (.inr hx))
        · exact .pure h hundefined
    · exact .pure h hundefined
  | primitive l =>
    cases l with
    | undefined | null => exact .fail _
    | _ => exact .pure h hundefined
  | _ => exact .pure h hundefined

theorem tracked_applyBuiltin (h : s.Tracks T K) (b : Builtin) {args : List (Value ν)}
    (hargs : ∀ v ∈ args, v.Within K) :
    (applyBuiltin b args).Tracked T K s fun K v _ => v.Within K := by
  by_cases hlength : b = .length
  · subst hlength
    rw [applyBuiltin]
    split
    · exact .pure h (Value.within_primitive _ K)
    · exact .fail _
  · by_cases hlist : b = .list
    · subst hlist
      exact tracked_makeList hT h hargs
    · by_cases hrandom : b = .random
      · subst hrandom
        exact .of_outcome rfl (Set.Subset.refl K) ⟨h.includes, hT.grow h.holds (Nat.le_refl _) rfl⟩
          (Nat.le_refl _)
          (Value.within_primitive _ K)
      · rw [applyBuiltin_math hlength hlist hrandom]
        split
        · exact .pure h (Value.within_primitive _ K)
        · exact .fail _

end Run

/-! ## Trees -/

section

variable [Numeric ν]

def Caller.IsTracked (call : Caller ν) (T : Tracking ν) : Prop :=
  ∀ ⦃K : Set (Made ν)⦄ ⦃s : Store ν⦄ ⦃f : Value ν⦄ ⦃args : List (Value ν)⦄, s.Tracks T K →
    f.Within K → (∀ v ∈ args, v.Within K) →
      (call f args).Tracked T K s fun K v _ => v.Within K

variable {T : Tracking ν} {call : Caller ν} {env : Environment}

mutual

theorem Expression.tracked (hT : T.Lawful) (hcall : call.IsTracked T) : (e : Expression ν) →
    {K : Set (Made ν)} → {s : Store ν} → s.Tracks T K → T.allows s env →
      (e.evaluate call env).Tracked T K s fun K v _ => v.Within K
  | .literal l, K, _, h, _ => .pure h (Value.within_primitive l K)
  | .builtin b, K, _, h, _ => .pure h (Value.within_builtin b K)
  | .identifier name, _, _, h, _ => Run.tracked_read h name
  | .array [head, tail], _, _, h, henv => by
    rw [Expression.evaluate]
    refine .bind (head.tracked hT hcall h henv) ?_
    intro K₁ v t _ h₁ hsize₁ hv
    refine .bind (tail.tracked hT hcall h₁ (hT.later henv hsize₁)) ?_
    intro K₂ w u hK₂ h₂ _ hw
    exact Run.tracked_makePair hT h₂ (hv.mono hK₂) hw
  | .array [], _, _, _, _ => .fail _
  | .array [_], _, _, _, _ => .fail _
  | .array (_ :: _ :: _ :: _), _, _, _, _ => .fail _
  | .member object property, _, _, h, henv => by
    rw [Expression.evaluate]
    refine .bind (object.tracked hT hcall h henv) ?_
    intro K₁ v t _ h₁ hsize₁ hv
    refine .bind (property.tracked hT hcall h₁ (hT.later henv hsize₁)) ?_
    intro K₂ w u hK₂ h₂ _ _
    exact Run.tracked_member h₂ (hv.mono hK₂)
  | .unary op argument, _, _, h, henv => by
    rw [Expression.evaluate]
    refine .bind (argument.tracked hT hcall h henv) ?_
    intro K₁ v t _ h₁ _ _
    exact .pure h₁ (op.within_apply v K₁)
  | .binary op left right, _, _, h, henv => by
    rw [Expression.evaluate]
    refine .bind (left.tracked hT hcall h henv) ?_
    intro K₁ v t _ h₁ hsize₁ _
    refine .bind (right.tracked hT hcall h₁ (hT.later henv hsize₁)) ?_
    intro K₂ w u _ h₂ _ _
    exact .pure h₂ (op.within_apply v w K₂)
  | .logical op left right, _, _, h, henv => by
    rw [Expression.evaluate]
    refine .bind (left.tracked hT hcall h henv) ?_
    intro K₁ v t _ h₁ hsize₁ hv
    split
    · exact .pure h₁ hv
    · exact right.tracked hT hcall h₁ (hT.later henv hsize₁)
  | .conditional test consequent alternate, _, _, h, henv => by
    rw [Expression.evaluate]
    refine .bind (test.tracked hT hcall h henv) ?_
    intro K₁ v t _ h₁ hsize₁ _
    split
    · exact consequent.tracked hT hcall h₁ (hT.later henv hsize₁)
    · exact alternate.tracked hT hcall h₁ (hT.later henv hsize₁)
  | .call callee arguments, _, _, h, henv => by
    rw [Expression.evaluate]
    refine .bind (callee.tracked hT hcall h henv) ?_
    intro K₁ f t _ h₁ hsize₁ hf
    refine .bind (Expression.allTracked hT hcall arguments h₁ (hT.later henv hsize₁)) ?_
    intro K₂ args u hK₂ h₂ _ hargs
    exact hcall h₂ (hf.mono hK₂) hargs
  | .function params body _, _, _, h, henv => Run.tracked_makeClosure hT h henv none ⟨params, body⟩
  | .assignment op target value, K, s, h, henv => by
    rw [Expression.evaluate]
    refine .bind (value.tracked hT hcall h henv) ?_
    intro K₁ v t _ h₁ _ hv
    have hwrite {K : Set (Made ν)} {s : Store ν} {w : Value ν} (h : s.Tracks T K)
        (hw : w.Within K) : (do Run.assign env target w; return w : Run ν (Value ν)).Tracked T K s
          fun K v _ => v.Within K := by
      refine .bind (Run.tracked_assign hT h target hw) ?_
      intro K' _ u hK h' _ _
      exact .pure h' (hw.mono hK)
    cases op.binaryOperator? with
    | none => exact hwrite h₁ hv
    | some o =>
      refine .bind (Run.tracked_read h₁ target) ?_
      intro K₂ w u _ h₂ _ _
      exact hwrite h₂ (o.within_apply w v K₂)
  | .update op isBefore target, K, s, h, henv => by
    rw [Expression.evaluate]
    refine .bind (Run.tracked_read h target) ?_
    intro K₁ v t _ h₁ _ _
    have hupdated (K : Set (Made ν)) : (op.binaryOperator.apply (.number v.toNumber)
        (.number Numeric.one)).Within K := op.binaryOperator.within_apply _ _ K
    refine .bind (Run.tracked_assign hT h₁ target (hupdated K₁)) ?_
    intro K₂ _ u _ h₂ _ _
    cases isBefore with
    | true => exact .pure h₂ (hupdated K₂)
    | false => exact .pure h₂ (Value.within_primitive _ K₂)

theorem Expression.allTracked (hT : T.Lawful) (hcall : call.IsTracked T) :
    (es : List (Expression ν)) → {K : Set (Made ν)} → {s : Store ν} → s.Tracks T K →
      T.allows s env →
        (Expression.evaluateAll call env es).Tracked T K s fun K vs _ => ∀ v ∈ vs, v.Within K
  | [], _, _, h, _ => .pure h nofun
  | e :: es, _, _, h, henv => by
    rw [Expression.evaluateAll]
    refine .bind (e.tracked hT hcall h henv) ?_
    intro K₁ v t _ h₁ hsize₁ hv
    refine .bind (Expression.allTracked hT hcall es h₁ (hT.later henv hsize₁)) ?_
    intro K₂ vs u hK₂ h₂ _ hvs
    refine .pure h₂ fun w hw => ?_
    rcases List.mem_cons.1 hw with rfl | hw
    · exact hv.mono hK₂
    · exact hvs w hw

end

theorem Run.tracked_declare {K : Set (Made ν)} {s : Store ν} (hT : T.Lawful)
    (hcall : call.IsTracked T) (h : s.Tracks T K) (henv : T.allows s env) (name : String)
    (init : Option (Expression ν)) :
    (Run.declare call env name init).Tracked T K s fun _ _ _ => True := by
  have hdefine {x : Run ν (Value ν)} (hx : x.Tracked T K s fun K v _ => v.Within K) :
      (do let v ← x; Run.define env name v).Tracked T K s fun _ _ _ => True := by
    refine .bind hx ?_
    intro K₁ v t _ h₁ _ hv
    exact Run.tracked_define hT h₁ name hv
  cases init with
  | none => exact hdefine (.pure h (Value.within_primitive _ K))
  | some e =>
    cases e with
    | function params body home =>
      exact hdefine (Run.tracked_makeClosure hT h henv (some name) ⟨params, body⟩)
    | _ => exact hdefine (Expression.tracked hT hcall _ h henv)

theorem LoopStart.tracked {K : Set (Made ν)} {s : Store ν} (hT : T.Lawful)
    (hcall : call.IsTracked T) (start : LoopStart ν) (h : s.Tracks T K) (henv : T.allows s env) :
    (start.run call env).Tracked T K s fun _ _ _ => True := by
  cases start with
  | absent => exact .pure h trivial
  | declaration kind name init =>
    refine .bind (Run.tracked_declare hT hcall h henv name init) ?_
    intro K₁ _ t _ h₁ _ _
    exact .pure h₁ trivial
  | expression e =>
    refine .bind (e.tracked hT hcall h henv) ?_
    intro K₁ _ t _ h₁ _ _
    exact .pure h₁ trivial

mutual

theorem Statement.tracked (hT : T.Lawful) (hcall : call.IsTracked T) {patience : Nat} :
    (st : Statement ν) → {env : Environment} → {K : Set (Made ν)} → {s : Store ν} →
      s.Tracks T K → T.allows s env →
        (st.execute patience call env).Tracked T K s fun K c _ => c.Within K
  | .block body, env, _, _, h, henv => by
    rw [Statement.execute]
    refine .bind (Run.tracked_enter hT h henv body) ?_
    intro K₁ inner t _ h₁ _ hinner
    exact Statement.allTracked hT hcall body h₁ hinner
  | .expression e, env, _, _, h, henv => by
    rw [Statement.execute]
    refine .bind (e.tracked hT hcall h henv) ?_
    intro K₁ _ t _ h₁ _ _
    exact .pure h₁ nofun
  | .result none, env, K, _, h, _ => by
    refine .pure h fun v hv => ?_
    cases hv
    exact Value.within_primitive _ K
  | .result (some e), env, _, _, h, henv => by
    rw [Statement.execute]
    refine .bind (e.tracked hT hcall h henv) ?_
    intro K₁ v t _ h₁ _ hv
    refine .pure h₁ fun w hw => ?_
    cases hw
    exact hv
  | .branch test consequent none, env, _, _, h, henv => by
    unfold Statement.execute
    refine .bind (test.tracked hT hcall h henv) ?_
    intro K₁ v t _ h₁ hsize₁ _
    split
    · refine .bind (Run.tracked_enter hT h₁ (hT.later henv hsize₁) [consequent]) ?_
      intro K₂ inner u _ h₂ _ hinner
      exact consequent.tracked hT hcall h₂ hinner
    · exact .pure h₁ nofun
  | .branch test consequent (some alternate), env, _, _, h, henv => by
    unfold Statement.execute
    refine .bind (test.tracked hT hcall h henv) ?_
    intro K₁ v t _ h₁ hsize₁ _
    split
    · refine .bind (Run.tracked_enter hT h₁ (hT.later henv hsize₁) [consequent]) ?_
      intro K₂ inner u _ h₂ _ hinner
      exact consequent.tracked hT hcall h₂ hinner
    · refine .bind (Run.tracked_enter hT h₁ (hT.later henv hsize₁) [alternate]) ?_
      intro K₂ inner u _ h₂ _ hinner
      exact alternate.tracked hT hcall h₂ hinner
  | .loop start test update body, env, _, _, h, henv => by
    rw [Statement.execute]
    refine .bind (Run.tracked_extend hT h henv) ?_
    intro K₁ scope t _ h₁ _ hscope
    refine .bind (start.tracked hT hcall h₁ hscope) ?_
    intro K₂ copied u _ h₂ hsize₂ _
    refine Run.tracked_rounds (fun {K s} h hsize => ?_) (fun {K s} h hsize => ?_) patience h₂
      (Nat.le_refl u.frames.size)
    · cases test with
      | none => exact .pure h trivial
      | some e =>
        refine .bind (e.tracked hT hcall h (hT.later (hT.later hscope hsize₂) hsize)) ?_
        intro K' _ v _ h' _ _
        exact .pure h' trivial
    · have hscope := hT.later (hT.later hscope hsize₂) hsize
      refine .bind (Run.tracked_extend hT h hscope) ?_
      intro K₃ iteration v _ h₃ hsize₃ hiteration
      refine .bind (Run.tracked_copyIn hT h₃ scope iteration copied) ?_
      intro K₄ _ w _ h₄ hsize₄ _
      have hinside : (do
          let inner ← Run.enter iteration [body]
          body.execute patience call inner : Run ν (Completion ν)).Tracked T K₄ w
            fun K c _ => c.Within K := by
        refine .bind (Run.tracked_enter hT h₄ (hT.later hiteration hsize₄) [body]) ?_
        intro K₅ inner x _ h₅ _ hinner
        exact body.tracked hT hcall h₅ hinner
      refine .bind hinside ?_
      intro K₅ c x _ h₅ hsize₅ hc
      cases c with
      | returned value => exact .pure h₅ hc
      | normal =>
        refine .bind (Run.tracked_copyOut hT h₅ iteration scope copied) ?_
        intro K₆ _ y _ h₆ hsize₆ _
        have hscope := hT.later hscope (Nat.le_trans hsize₃ (Nat.le_trans hsize₄
          (Nat.le_trans hsize₅ hsize₆)))
        cases update with
        | none =>
          have hproceed : (Run.proceed call scope none).Tracked T K₆ y fun _ _ _ => True :=
            .pure h₆ trivial
          refine .bind hproceed ?_
          intro K₇ _ z _ h₇ _ _
          exact .pure h₇ nofun
        | some e =>
          have hproceed : (Run.proceed call scope (some e)).Tracked T K₆ y fun _ _ _ => True := by
            refine .bind (e.tracked hT hcall h₆ hscope) ?_
            intro K₇ _ z _ h₇ _ _
            exact .pure h₇ trivial
          refine .bind hproceed ?_
          intro K₇ _ z _ h₇ _ _
          exact .pure h₇ nofun
  | .declaration kind name init, env, _, _, h, henv => by
    rw [Statement.execute]
    refine .bind (Run.tracked_declare hT hcall h henv name init) ?_
    intro K₁ _ t _ h₁ _ _
    exact .pure h₁ nofun
  | .function _ _ _, env, _, _, h, _ => .pure h nofun

theorem Statement.allTracked (hT : T.Lawful) (hcall : call.IsTracked T) {patience : Nat} :
    (ss : List (Statement ν)) → {env : Environment} → {K : Set (Made ν)} → {s : Store ν} →
      s.Tracks T K → T.allows s env →
        (Statement.executeAll patience call env ss).Tracked T K s fun K c _ => c.Within K
  | [], _, _, _, h, _ => .pure h nofun
  | st :: rest, env, _, _, h, henv => by
    rw [Statement.executeAll]
    refine .bind (st.tracked hT hcall h henv) ?_
    intro K₁ c t _ h₁ hsize₁ hc
    cases c with
    | normal => exact Statement.allTracked hT hcall rest h₁ (hT.later henv hsize₁)
    | returned value => exact .pure h₁ hc

end

theorem Run.tracked_block {K : Set (Made ν)} {s : Store ν} (hT : T.Lawful)
    (hcall : call.IsTracked T) (patience : Nat) (h : s.Tracks T K) (henv : T.allows s env)
    (body : List (Statement ν)) :
    (Run.block patience call env body).Tracked T K s fun K c _ => c.Within K := by
  refine .bind (Run.tracked_hoist hT h henv body) ?_
  intro K₁ _ t _ h₁ hsize _
  exact Statement.allTracked hT hcall body h₁ (hT.later henv hsize)

/-! ## Calls -/

theorem Run.call_isTracked (hT : T.Lawful) (limit : Option Nat) (patience : Nat) :
    ∀ depth : Nat, (Run.call limit patience depth : Caller ν).IsTracked T := by
  induction patience with
  | zero =>
    intro depth K s f args _ _ _
    exact .throw _
  | succ patience ih =>
    intro depth K s f args h hf hargs
    cases f with
    | primitive l => exact .fail _
    | pair i head tail => exact .fail _
    | builtin b => exact Run.tracked_applyBuiltin hT h b hargs
    | closure c =>
      simp only [Run.call]
      split
      · exact .fail _
      · refine .bind (Run.tracked_extend_of_mem hT h (hf (.closure c) rfl)) ?_
        intro K₁ env t hK₁ h₁ _ henv
        refine .bind (Run.tracked_defineParams hT h₁ c.function.params fun v hv =>
          (hargs v hv).mono hK₁) ?_
        intro K₂ _ u _ h₂ hsize₂ _
        refine .bind (Run.tracked_block hT (ih (depth + 1)) patience h₂ (hT.later henv hsize₂)
          c.function.body) ?_
        intro K₃ completion v _ h₃ _ hcompletion
        cases completion with
        | normal => exact .pure h₃ (Value.within_primitive _ K₃)
        | returned value => exact .pure h₃ (hcompletion value rfl)

end

end Waveform
