import Waveform.Proofs.Inlining.Entering
import Waveform.Proofs.Symbolic.Reading

/-!
# Evaluation of what is denoted

An expression that denotes something evaluates to it, wherever the parameters are bound to the
numbers that they stand for. Evaluation makes pairs and functions on the way and leaves the frames
of the store alone. Every pair in the value is new, so the two sides of a comparison never come to
one pair.
-/

namespace Waveform

variable {M : Mathematics} {ρ : Valuation} {call : Caller (Exact M)} {env : Environment}

def Valuation.HoldsIn (ρ : Valuation) (frames : Array (Bindings (Value (Exact M))))
    (env : Environment) : Prop :=
  ∀ s : Store (Exact M), s.frames = frames → ∀ name q, ρ name = some q →
    s.lookup? name env = some (.number (.of q))

def AppliesBuiltins (call : Caller (Exact M)) : Prop :=
  ∀ b args, call (.builtin b) args = Run.applyBuiltin b args

namespace Value

/-- All pairs in the value were made from the first count of identities on and before the second. -/
def MadeIn {ν : Type} (first last : Nat) : Value ν → Prop
  | .pair i head tail => (first ≤ i ∧ i < last) ∧ head.MadeIn first last ∧ tail.MadeIn first last
  | _ => True

theorem MadeIn.mono {ν : Type} {first last first' last' : Nat} (hfirst : first' ≤ first)
    (hlast : last ≤ last') : {v : Value ν} → v.MadeIn first last → v.MadeIn first' last'
  | .pair _ _ _, ⟨hi, hhead, htail⟩ =>
    ⟨⟨hfirst.trans hi.1, hi.2.trans_le hlast⟩, hhead.mono hfirst hlast, htail.mono hfirst hlast⟩
  | .primitive _, _ | .closure _, _ | .builtin _, _ => trivial

theorem isOnePair_of_madeIn {ν : Type} {first middle last : Nat} {u v : Value ν}
    (hu : u.MadeIn first middle) (hv : v.MadeIn middle last) : u.isOnePair v = false := by
  cases u with
  | pair i _ _ =>
    cases v with
    | pair j _ _ => exact beq_false_of_ne (Nat.ne_of_lt (hu.1.2.trans_le hv.1.1))
    | _ => rfl
  | _ => rfl

end Value

/-- The value is what is denoted, and all pairs in it were made on the way. -/
structure Value.MadeAs (d : Meaning M) (s : Store (Exact M)) (v : Value (Exact M))
    (t : Store (Exact M)) : Prop where
  denoted : .ofValue v = d
  frames : t.frames = s.frames
  made : s.made ≤ t.made
  within : v.MadeIn s.made t.made

theorem Value.MadeAs.later {d : Meaning M} {v : Value (Exact M)} {s t u : Store (Exact M)}
    (h : v.MadeAs d t u) (hframes : t.frames = s.frames) (hmade : s.made ≤ t.made) :
    v.MadeAs d s u :=
  ⟨h.denoted, h.frames.trans hframes, hmade.trans h.made, h.within.mono hmade (Nat.le_refl _)⟩

theorem member_madeIn {first last : Nat} {u v : Value (Exact M)} {d : Meaning M}
    (h : Meaning.entry? (.ofValue u) (.ofValue v) = some d) (hu : u.MadeIn first last)
    (s : Store (Exact M)) :
    (Run.member u v).Ensures True s fun w t => t = s ∧ .ofValue w = d ∧ w.MadeIn first last := by
  have hpure {w : Value (Exact M)} (hw : w.MadeIn first last) :
      (pure w : Run (Exact M) (Value (Exact M))).Ensures True s fun w' t =>
        t = s ∧ .ofValue w' = Meaning.ofValue w ∧ w'.MadeIn first last :=
    .of_outcome (Run.outcome_pure w s) ⟨rfl, rfl, hw⟩
  cases u with
  | pair i head tail =>
    obtain ⟨-, hhead, htail⟩ := hu
    cases v with
    | primitive l =>
      cases l with
      | number x =>
        cases h
        rw [Run.member, Value.asNumber?]
        dsimp only
        split
        · exact hpure hhead
        · split
          · exact hpure htail
          · exact hpure trivial
      | _ => cases h
    | _ => cases h
  | _ => cases h

/-- A value that was made after another run is what that run and the one that made it came to. -/
theorem Value.MadeAs.after {c d : Meaning M} {u v : Value (Exact M)} {s t w : Store (Exact M)}
    (h : v.MadeAs d t w) (ht : u.MadeAs c s t) : v.MadeAs d s w :=
  h.later ht.frames ht.made

theorem Value.MadeAs.scalar {d : Meaning M} {u v : Value (Exact M)} {s t : Store (Exact M)}
    (h : u.MadeAs d s t)
    (hv : (∃ q, Meaning.ofValue v = .number q) ∨ ∃ b, Meaning.ofValue v = .boolean b) :
    v.MadeAs (.ofValue v) s t := by
  obtain ⟨l, rfl⟩ := (Meaning.isScalar_of_ofValue hv).isPrimitive
  exact ⟨rfl, h.frames, h.made, trivial⟩

mutual

/-- An expression that denotes something evaluates to it, and every pair in the value is new. -/
theorem Expression.evaluate_madeAs {frames : Array (Bindings (Value (Exact M)))}
    (hρ : ρ.HoldsIn frames env) (hcall : AppliesBuiltins call) :
    (e : Expression (Exact M)) → {d : Meaning M} → e.denote ρ = some d →
      (s : Store (Exact M)) → s.frames = frames →
        (e.evaluate call env).Ensures True s fun v t => v.MadeAs d s t
  | .literal l, d, h, s, hs => by
    rw [denote] at h
    cases h
    rw [evaluate]
    exact .of_outcome (Run.outcome_pure _ s) ⟨rfl, rfl, Nat.le_refl _, trivial⟩
  | .identifier name, d, h, s, hs => by
    rw [denote] at h
    obtain ⟨q, hq, rfl⟩ := Option.map_eq_some_iff.1 h
    rw [evaluate]
    have hread := Run.outcome_read_of_lookup (hρ s hs name q hq)
    exact .of_outcome hread ⟨rfl, rfl, Nat.le_refl _, trivial⟩
  | .builtin b, d, h, s, hs => by
    rw [denote] at h
    cases h
    rw [evaluate]
    exact .of_outcome (Run.outcome_pure _ s) ⟨rfl, rfl, Nat.le_refl _, trivial⟩
  | .function params body home, d, h, s, hs => by
    rw [denote] at h
    cases h
    rw [evaluate]
    exact .of_outcome (Run.outcome_makeClosure none ⟨params, body⟩ env s)
      ⟨rfl, rfl, Nat.le_succ _, trivial⟩
  | .array items, d, h, s, hs => by
    obtain ⟨a, b, u, v, rfl, hu, hv, rfl⟩ := denote_array.1 h
    rw [evaluate]
    refine (evaluate_madeAs hρ hcall a hu s hs).bind fun x t _ hx => ?_
    refine (evaluate_madeAs hρ hcall b hv t (hx.frames.trans hs)).bind fun y t' _ hy => ?_
    obtain ⟨rfl, hframes, hmade, hwithin⟩ := hy.after hx
    refine .of_outcome (Run.outcome_makePair x y t') ⟨?_, hframes, hmade.trans (Nat.le_succ _),
      ⟨hmade, Nat.lt_succ_self _⟩, hx.within.mono (Nat.le_refl _) ?_,
        hwithin.mono (Nat.le_refl _) (Nat.le_succ _)⟩
    · rw [Meaning.ofValue, hx.denoted]
    · exact hy.made.trans (Nat.le_succ _)
  | .member o p, d, h, s, hs => by
    rw [denote] at h
    obtain ⟨u, hu, h⟩ := Option.bind_eq_some_iff.1 h
    obtain ⟨v, hv, h⟩ := Option.bind_eq_some_iff.1 h
    rw [evaluate]
    refine (evaluate_madeAs hρ hcall o hu s hs).bind fun x t _ hx => ?_
    refine (evaluate_madeAs hρ hcall p hv t (hx.frames.trans hs)).bind fun y t' _ hy => ?_
    have hy' := hy.after hx
    rw [← hx.denoted, ← hy.denoted] at h
    refine (member_madeIn h (hx.within.mono (Nat.le_refl _) hy.made) t').mono ?_
    rintro w _ ⟨rfl, hw, hwithin⟩
    exact ⟨hw, hy'.frames, hy'.made, hwithin⟩
  | .unary op a, d, h, s, hs => by
    obtain ⟨u, hu, hd⟩ := denote_unary.1 h
    rw [evaluate]
    refine (evaluate_madeAs hρ hcall a hu s hs).bind fun v t _ hv => ?_
    have hscalar := Meaning.unary_scalar hd
    rw [← hv.denoted] at hd
    obtain rfl := Meaning.unary_ofValue hd
    exact .of_outcome (Run.outcome_pure _ t) (hv.scalar hscalar)
  | .binary op a b, d, h, s, hs => by
    obtain ⟨u, v, hu, hv, hd⟩ := denote_binary.1 h
    rw [evaluate]
    refine (evaluate_madeAs hρ hcall a hu s hs).bind fun x t _ hx => ?_
    refine (evaluate_madeAs hρ hcall b hv t (hx.frames.trans hs)).bind fun y t' _ hy => ?_
    have hscalar := Meaning.binary_scalar hd
    have hother := Value.isOnePair_of_madeIn hx.within hy.within
    rw [← hx.denoted, ← hy.denoted] at hd
    obtain rfl := Meaning.binary_ofValue hother hd
    exact .of_outcome (Run.outcome_pure _ t') ((hy.after hx).scalar hscalar)
  | .logical op a b, d, h, s, hs => by
    obtain ⟨u, hu, hcases⟩ := denote_logical.1 h
    rw [evaluate]
    refine (evaluate_madeAs hρ hcall a hu s hs).bind fun x t _ hx => ?_
    obtain rfl := Meaning.ofValue_eq_boolean hx.denoted
    change (if op.decides u = true then _ else _ : Run (Exact M) (Value (Exact M))).Ensures True t _
    obtain ⟨hdecides, -, rfl⟩ | ⟨hdecides, v, hv, rfl⟩ := hcases
    · rw [if_pos hdecides]
      exact .of_outcome (Run.outcome_pure _ t) hx
    · rw [hdecides, if_neg Bool.false_ne_true]
      exact (evaluate_madeAs hρ hcall b hv t (hx.frames.trans hs)).mono fun _ _ hy => hy.after hx
  | .conditional c a b, d, h, s, hs => by
    obtain ⟨u, hu, hd⟩ := denote_conditional.1 h
    rw [evaluate]
    refine (evaluate_madeAs hρ hcall c hu s hs).bind fun x t _ hx => ?_
    obtain rfl := Meaning.ofValue_eq_boolean hx.denoted
    have ht := hx.frames.trans hs
    cases u with
    | true => exact (evaluate_madeAs hρ hcall a hd t ht).mono fun _ _ hy => hy.after hx
    | false => exact (evaluate_madeAs hρ hcall b hd t ht).mono fun _ _ hy => hy.after hx
  | .call callee arguments, d, h, s, hs => by
    cases callee with
    | builtin b =>
      rw [denote] at h
      obtain ⟨ds, hds, h⟩ := Option.bind_eq_some_iff.1 h
      rw [evaluate, evaluate]
      refine .step (Run.outcome_pure _ s) ?_
      refine (evaluateAll_madeAs hρ hcall arguments hds s hs).bind
        fun vs t _ ⟨hvs, hframes, hmade⟩ => ?_
      subst hvs
      obtain ⟨q, rfl, hq⟩ := Meaning.outcome_of_call h t
      rw [hcall]
      exact .of_outcome hq ⟨rfl, hframes, hmade, trivial⟩
    | _ =>
      rw [denote] at h
      · cases h
      · nofun
  | .assignment _ _ _, d, h, s, hs | .update _ _ _, d, h, s, hs => by
    rw [denote] at h
    cases h

theorem Expression.evaluateAll_madeAs {frames : Array (Bindings (Value (Exact M)))}
    (hρ : ρ.HoldsIn frames env) (hcall : AppliesBuiltins call) :
    (es : List (Expression (Exact M))) → {ds : List (Meaning M)} →
      denoteAll ρ es = some ds → (s : Store (Exact M)) → s.frames = frames →
        (evaluateAll call env es).Ensures True s fun vs t =>
          vs.map .ofValue = ds ∧ t.frames = s.frames ∧ s.made ≤ t.made
  | [], ds, h, s, hs => by
    rw [denoteAll] at h
    cases h
    rw [evaluateAll]
    exact .of_outcome (Run.outcome_pure _ s) ⟨rfl, rfl, Nat.le_refl _⟩
  | e :: es, ds, h, s, hs => by
    rw [denoteAll] at h
    obtain ⟨d, hd, h⟩ := Option.bind_eq_some_iff.1 h
    obtain ⟨ds, hds, rfl⟩ := Option.map_eq_some_iff.1 h
    rw [evaluateAll]
    refine (evaluate_madeAs hρ hcall e hd s hs).bind fun v t _ hv => ?_
    refine (evaluateAll_madeAs hρ hcall es hds t (hv.frames.trans hs)).bind
      fun vs t' _ ⟨hvs, hframes, hmade⟩ => ?_
    refine .of_outcome (Run.outcome_pure _ t') ⟨?_, hframes.trans hv.frames, hv.made.trans hmade⟩
    rw [List.map_cons, hv.denoted, hvs]

end

def Value.ofNumbers (args : List ℚ) : List (Value (Exact M)) :=
  args.map fun q => .number (.of q)

/-- The parameters stand for the arguments of a call that has enough of them. -/
def Valuation.ofArguments (params : List String) (args : List ℚ) : Valuation :=
  (Bindings.empty.withParams 0 params args).find?

theorem find?_withParams_ofNumbers {params : List String} {args : List ℚ}
    (hlength : params.length ≤ args.length) {b : Bindings ℚ} {b' : Bindings (Value (Exact M))}
    (hb : ∀ name, b'.find? name = (b.find? name).map fun q => .number (.of q)) (name : String) :
    (b'.withParams .undefined params (Value.ofNumbers args)).find? name =
      ((b.withParams 0 params args).find? name).map fun q => .number (.of q) := by
  induction params generalizing args b b' with
  | nil => exact hb name
  | cons p ps ih =>
    cases args with
    | nil => cases hlength
    | cons q qs =>
      refine ih (Nat.le_of_succ_le_succ hlength) fun other => ?_
      rw [Bindings.find?_insert, Bindings.find?_insert]
      split
      · rfl
      · exact hb other

theorem Valuation.holdsIn_ofArguments {params : List String} {args : List ℚ}
    (hlength : params.length ≤ args.length) (env : Environment) (s : Store (Exact M)) :
    (Valuation.ofArguments params args).HoldsIn
      ((s.extend env).2.bindParams s.frames.size params (Value.ofNumbers args)).frames
      (s.frames.size :: env) := by
  intro t ht name q hq
  have hframe : t.frame s.frames.size =
      Bindings.empty.withParams .undefined params (Value.ofNumbers args) := by
    rw [Store.frame, ht]
    change Store.frame _ _ = _
    rw [Store.frame_bindParams_self _ (by simp), Store.frame_extend,
      Store.frame_of_le (Nat.le_refl _)]
  have hempty (name : String) : (Bindings.empty : Bindings (Value (Exact M))).find? name =
      ((Bindings.empty : Bindings ℚ).find? name).map fun q => .number (.of q) := rfl
  have hfind := find?_withParams_ofNumbers hlength hempty name
  rw [← hframe] at hfind
  rw [Store.lookup?, hfind]
  change (Bindings.empty.withParams 0 params args).find? name = some q at hq
  rw [hq]
  rfl

theorem Function.call_denoted {params : List String} {args : List ℚ}
    (hlength : params.length ≤ args.length) {e : Expression (Exact M)} {d : Meaning M}
    (h : e.denote (.ofArguments params args) = some d) {limit : Option Nat} {depth : Nat}
    (hlimit : limit.any (· ≤ depth) = false) (patience i : Nat) (name : Option String)
    (env : Environment) (s : Store (Exact M)) :
    ∃ v t, (Run.call limit (patience + 2) depth
      (.closure ⟨i, name, ⟨params, [.result (some e)]⟩, env⟩) (Value.ofNumbers args)).outcome s =
        (.ok v, t) ∧ .ofValue v = d := by
  have hcall : AppliesBuiltins (M := M) (Run.call limit (patience + 1) (depth + 1)) :=
    fun _ _ => rfl
  have hevaluate := e.evaluate_madeAs (Valuation.holdsIn_ofArguments hlength env s) hcall h _ rfl
  obtain ⟨v, t, hv⟩ := hevaluate.ends trivial
  refine ⟨v, t, ?_, (hevaluate.after v t hv).denoted⟩
  rw [Run.call, hlimit, if_neg Bool.false_ne_true]
  refine Run.bind_ok.2 ⟨_, _, Run.outcome_extend env s, ?_⟩
  refine Run.bind_ok.2 ⟨(), _, Run.outcome_defineParams _ _ _ _ _, ?_⟩
  refine Run.bind_ok.2 ⟨.returned v, t, ?_, rfl⟩
  refine Run.bind_ok.2 ⟨(), _, rfl, ?_⟩
  refine Run.bind_ok.2 ⟨.returned v, t, ?_, rfl⟩
  exact Run.bind_ok.2 ⟨_, t, hv, rfl⟩

theorem Function.call_result {params : List String} {args : List ℚ}
    (hlength : params.length ≤ args.length) {e : Expression (Exact M)} {l : Literal (Exact M)}
    (h : e.denote (.ofArguments params args) = some (.primitive l)) {limit : Option Nat}
    {depth : Nat} (hlimit : limit.any (· ≤ depth) = false) (patience i : Nat)
    (name : Option String) (env : Environment) (s : Store (Exact M)) :
    ∃ t, (Run.call limit (patience + 2) depth
      (.closure ⟨i, name, ⟨params, [.result (some e)]⟩, env⟩) (Value.ofNumbers args)).outcome s =
        (.ok (.primitive l), t) := by
  obtain ⟨v, t, hv, hl⟩ := Function.call_denoted hlength h hlimit patience i name env s
  obtain rfl := Meaning.ofValue_eq_primitive hl
  exact ⟨t, hv⟩

end Waveform
