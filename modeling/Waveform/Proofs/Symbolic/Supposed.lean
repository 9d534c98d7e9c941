import Waveform.Proofs.Inlining.Simulation
import Waveform.Proofs.Symbolic.Possible
import Waveform.Proofs.Symbolic.Reading

/-!
# What is left of suppositions

An expression that is inlined stands for what is supposed of it: a truth value is left as one, and
a number that is not known may be left as anything. So a right side that is not run, and that is
supposed to be a truth value, is inlined to a truth value as far as is known.
-/

namespace Waveform

variable {M : Mathematics} {ρ : Valuation}

theorem Value.EntrySupposes.exists {k : Value (Exact M) → Prop} {u v : Value (Exact M)}
    (h : u.EntrySupposes k v) : ∃ w, k w := by
  unfold EntrySupposes at h
  split at h
  · exact ⟨_, h⟩
  · exact ⟨_, h.1⟩
  · exact ⟨_, h⟩
  · exact h

theorem Value.EntrySupposes.of_pair {k : Value (Exact M) → Prop} {i : Nat}
    {head tail v : Value (Exact M)} (h : (Value.pair i head tail).EntrySupposes k v) :
    (∃ q, v = .number (.of q) ∧ k (entry head tail q)) ∨ k head ∧ k tail ∧ k .undefined :=
  match v, h with
  | .primitive (.number (some q)), h => .inl ⟨q, rfl, h⟩
  | .primitive (.number none), h | .primitive .undefined, h | .primitive .null, h
  | .primitive (.boolean _), h | .primitive (.string _), h | .pair _ _ _, h | .closure _, h
  | .builtin _, h => .inr h

namespace Reading

def supposing (ρ : Valuation) : Reading (Exact M) where
  discipline := { Discipline.free with strict := True }
  higherOrder := True
  Reads e v :=
    v = .unknown ∨ (∃ o p, e = .member o p) ∨ (v.IsBoolean ∧ e.isTruth ρ = true) ∨
      (v.IsPrimitive ∧ e.MayDenote ρ (.ofValue v))

theorem supposing_of_symbolic {higherOrder : Prop} (e : Expression (Exact M)) (v : Value (Exact M))
    (h : (symbolic ρ higherOrder).Reads e v) : (supposing ρ).Reads e v := by
  obtain ⟨hd, hv | hmember⟩ := h
  · exact .inr (.inr (.inr ⟨hv, Expression.mayDenote_of_denote e hd⟩))
  · exact .inr (.inl hmember)

theorem supposing_literal (l : Literal (Exact M)) :
    (supposing ρ).Reads (.literal l) (.primitive l) :=
  .inr (.inr (.inr ⟨⟨l, rfl⟩, Expression.mayDenote_literal.2 rfl⟩))

variable {home : Nat → Environment → Prop} {e : Expression (Exact M)} {v : Value (Exact M)}

theorem models_unknown : (supposing ρ).Models home e (.unknown : Value (Exact M)) :=
  .residual (.inl rfl)

theorem models_literal (l : Literal (Exact M)) :
    (supposing ρ).Models home (.literal l) (.primitive l) :=
  .residual (supposing_literal l)

theorem models_truth (h : e.isTruth ρ = true) (hv : v.IsBoolean) :
    (supposing ρ).Models home e v :=
  .residual (.inr (.inr (.inl ⟨hv, h⟩)))

theorem isTruth_of_models (hρ : ∀ name q, ρ name = some q → 0 ≤ q)
    (h : (supposing ρ).Models home e v) (hv : v.IsBoolean) : e.isTruth ρ = true := by
  obtain ⟨b, rfl⟩ := hv
  obtain ⟨⟨⟩⟩ | ⟨o, p, rfl⟩ | ⟨-, htruth⟩ | ⟨-, hd⟩ := h.reads
  · rfl
  · exact htruth
  · exact Expression.isTruth_of_mayDenote hρ hd

theorem mayDenote_of_models {q : ℚ} (h : (supposing ρ).Models home e (.number (.of q))) :
    e.MayDenote ρ (.number q) := by
  obtain ⟨⟨⟩⟩ | ⟨o, p, rfl⟩ | ⟨⟨b, ⟨⟩⟩, -⟩ | ⟨-, hd⟩ := h.reads
  · trivial
  · exact hd

theorem models_supposed {d : Option (Meaning M)}
    (h : ∀ l, d = some (.primitive l) → e.MayDenote ρ (.primitive l)) :
    (supposing ρ).Models home e (.supposed d) := by
  unfold Value.supposed
  split
  · next l => exact .residual (.inr (.inr (.inr ⟨⟨l, rfl⟩, h l rfl⟩)))
  · exact models_unknown

theorem models_unary (hρ : ∀ name q, ρ name = some q → 0 ≤ q) {op : UnaryOperator}
    (hop : (op == .not) = false) (h : (supposing ρ).Models home e v) :
    (supposing ρ).Models home (Expression.unary op e).simplify
      (.supposed (Meaning.unary op (.ofValue v))) := by
  refine models_supposed fun l hl => Expression.mayDenote_simplify hρ ⟨.ofValue v, ?_, hl⟩
  cases op with
  | minus | plus =>
    obtain ⟨q, hq, -⟩ := Option.map_eq_some_iff.1 hl
    obtain rfl := Meaning.ofValue_eq_number (Meaning.asNumber?_eq_some.1 hq)
    exact mayDenote_of_models h
  | not => cases hop
  | typeOf => cases hl

theorem models_binary (hρ : ∀ name q, ρ name = some q → 0 ≤ q) {op : BinaryOperator}
    (hop : op.isComparison = false) {a b : Expression (Exact M)} {u v : Value (Exact M)}
    (ha : (supposing ρ).Models home a u) (hb : (supposing ρ).Models home b v) :
    (supposing ρ).Models home (Expression.binary op a b).simplify
      (.supposed (Meaning.binary op (.ofValue u) (.ofValue v))) := by
  refine models_supposed fun l hl =>
    Expression.mayDenote_simplify hρ ⟨.ofValue u, .ofValue v, ?_, ?_, hl⟩
  all_goals
    have hequality : op.isEquality = false := by
      cases op <;> first | rfl | cases hop
    obtain ⟨x, y, hx, hy, -⟩ := Meaning.numbers_of_binary hl hequality
  · rw [Meaning.ofValue_eq_number hx] at ha ⊢
    exact mayDenote_of_models ha
  · rw [Meaning.ofValue_eq_number hy] at hb ⊢
    exact mayDenote_of_models hb

/-- A tree of the specializer that reads as a value stands for a number that is not known. -/
theorem eq_unknown_of_reads (h : (supposing ρ).Reads e v) (he : Simplify.isStructure e = true) :
    v = .unknown := by
  obtain h | ⟨o, p, rfl⟩ | ⟨-, htruth⟩ | ⟨⟨l, rfl⟩, hd⟩ := h
  · exact h
  · cases he
  · cases e with
    | array _ | function _ _ _ | builtin _ => cases htruth
    | _ => cases he
  · exact absurd hd (Expression.not_mayDenote_structure he)

theorem supposing_simplify (hρ : ∀ name q, ρ name = some q → 0 ≤ q)
    (h : (supposing ρ).Models home e v) : (supposing ρ).Models home e.simplify v := by
  cases h with
  | residual h =>
    refine .residual ?_
    obtain h | ⟨o, p, rfl⟩ | ⟨hv, htruth⟩ | ⟨hv, hd⟩ := h
    · exact .inl h
    · exact .inr (.inl ⟨o, p, rfl⟩)
    · exact .inr (.inr (.inl ⟨hv, Expression.isTruth_simplify hρ htruth⟩))
    · exact .inr (.inr (.inr ⟨hv, Expression.mayDenote_simplify hρ hd⟩))
  | builtin b => exact .builtin b
  | pair i ha hb => exact .pair i ha hb
  | closure h => exact .closure h

theorem eq_of_index {p : Expression (Exact M)} {x : Exact M} {q : ℚ}
    (h : (supposing ρ).Models home p (.number (.of q))) (hx : p.asNumber? = some x) :
    x = .of q := by
  cases p with
  | literal l =>
    cases l with
    | number y =>
      cases hx
      have hliteral := Expression.mayDenote_literal.1 (mayDenote_of_models h)
      injection hliteral with hnumber
      injection hnumber with hnumber
      exact hnumber.symm
    | _ => cases hx
  | _ => cases hx

/-- The entry of a pair that is asked for by a number stands for what is supposed of it. -/
theorem entry_supposed {k : Value (Exact M) → Prop} {a b p : Expression (Exact M)} {i : Nat}
    {head tail : Value (Exact M)} {x : Exact M} (ha : (supposing ρ).Models home a head)
    (hb : (supposing ρ).Models home b tail) (hp : (supposing ρ).Models home p v)
    (hx : p.asNumber? = some x) (hk : (Value.pair i head tail).EntrySupposes k v) :
    ∃ w, k w ∧ (supposing ρ).Models home
      (((Numeric.toNat? x).bind fun i => [a, b][i]?).getD .undefined) w := by
  rw [Numeric.entry_eq]
  obtain ⟨q, rfl, hk⟩ | ⟨hhead, htail, hundefined⟩ := hk.of_pair
  · obtain rfl := eq_of_index hp hx
    refine ⟨_, hk, ?_⟩
    rw [Exact.isZero_of, Exact.isOne_of, Value.entry]
    simp only [decide_eq_true_eq]
    split
    · exact ha
    · split
      · exact hb
      · exact models_literal _
  · split
    · exact ⟨head, hhead, ha⟩
    · split
      · exact ⟨tail, htail, hb⟩
      · exact ⟨.undefined, hundefined, models_literal _⟩

theorem member_supposed {k : Value (Exact M) → Prop} {o p : Expression (Exact M)}
    {u : Value (Exact M)} {σ σ' : Scopes (Exact M)} (ho : (supposing ρ).Models home o u)
    (hp : (supposing ρ).Models home p v) (hk : u.EntrySupposes k v)
    (h : (Inlining.member o p).run σ = .ok (e, σ')) :
    σ' = σ ∧ ∃ w, k w ∧ (supposing ρ).Models home e w := by
  unfold Inlining.member at h
  split at h
  · next items x hx =>
    obtain ⟨rfl, rfl⟩ := Inlining.pure_ok.1 h
    refine ⟨rfl, ?_⟩
    cases ho with
    | residual hreads =>
      obtain rfl := eq_unknown_of_reads hreads rfl
      exact ⟨.unknown, hk, models_unknown⟩
    | pair i ha hb => exact entry_supposed ha hb hp hx hk
  · exact (Inlining.throw_ok.1 h).elim
  · obtain ⟨rfl, rfl⟩ := Inlining.pure_ok.1 h
    obtain ⟨w, hw⟩ := hk.exists
    exact ⟨rfl, w, hw, .residual (.inr (.inl ⟨_, _, rfl⟩))⟩

/-- The calls that are inlined stand for what is supposed of them. -/
structure CallsSupposed (ρ : Valuation) (calls : CallSupposition M)
    (reduce : Reducer (Exact M)) : Prop where
  closure {W σ σ' s floors scope i name params body env j arguments args e k} :
    (supposing ρ).Corr W σ s → (supposing ρ).Home W σ j env →
    List.Forall₂ ((supposing ρ).Models ((supposing ρ).Home W σ)) arguments args →
    calls ⟨i, name, ⟨params, body⟩, env⟩ args s k →
    (reduce floors scope ⟨params, body⟩ (some j) arguments).run σ = .ok (e, σ') →
    ∃ v t, k v t ∧ (supposing ρ).Agree W σ' e v t

theorem length_eq (h : (supposing ρ).Models home e v) {n m : Nat} (he : e.listLength? = some n)
    (hv : v.listLength? = some m) : n = m := by
  induction h generalizing n m with
  | @residual e v hreads =>
    cases e with
    | literal l =>
      cases l with
      | null =>
        obtain rfl | ⟨o, p, ⟨⟩⟩ | ⟨-, ⟨⟩⟩ | ⟨⟨l, rfl⟩, hd⟩ := hreads
        · cases hv
        · cases Expression.mayDenote_literal.1 hd
          cases he
          cases hv
          rfl
      | _ => cases he
    | array items =>
      obtain rfl := eq_unknown_of_reads hreads rfl
      cases hv
    | _ => cases he
  | builtin _ | closure _ => cases he
  | pair i _ _ _ ih =>
    obtain ⟨n, hn, rfl⟩ := Option.map_eq_some_iff.1 he
    obtain ⟨m, hm, rfl⟩ := Option.map_eq_some_iff.1 hv
    rw [ih hn hm]

theorem models_length (h : (supposing ρ).Models home e v) {n : Nat}
    (he : e.listLength? = some n) :
    (supposing ρ).Models home (.number (Numeric.ofNat n)) v.supposedLength := by
  unfold Value.supposedLength
  split
  · next m hv =>
    rw [length_eq h he hv]
    exact models_literal _
  · exact models_unknown

theorem allMayDenote_of_models {es : List (Expression (Exact M))} {vs : List (Value (Exact M))}
    (h : List.Forall₂ ((supposing ρ).Models home) es vs) {qs : List ℚ}
    (hqs : (vs.map .ofValue).mapM Meaning.asNumber? = some qs) :
    Expression.AllMayDenote ρ es (vs.map .ofValue) := by
  induction h generalizing qs with
  | nil => rfl
  | @cons e v es vs hm _ ih =>
    rw [List.map_cons, List.mapM_cons] at hqs
    obtain ⟨q, hq, hqs⟩ := Option.bind_eq_some_iff.1 hqs
    obtain ⟨rs, hrs, -⟩ := Option.bind_eq_some_iff.1 hqs
    obtain rfl := Meaning.ofValue_eq_number (Meaning.asNumber?_eq_some.1 hq)
    exact ⟨_, _, mayDenote_of_models hm, ih hrs, rfl⟩

theorem eq_of_mapM_asLiteral? {es : List (Expression (Exact M))} {ls : List (Literal (Exact M))}
    (hls : es.mapM (·.asLiteral?) = some ls) {ds : List (Meaning M)}
    (h : Expression.AllMayDenote ρ es ds) : ds = ls.map .primitive := by
  induction es generalizing ls ds with
  | nil =>
    cases hls
    exact h
  | cons e es ih =>
    rw [List.mapM_cons] at hls
    obtain ⟨l, hl, hls⟩ := Option.bind_eq_some_iff.1 hls
    obtain ⟨ms, hms, hls⟩ := Option.bind_eq_some_iff.1 hls
    cases hls
    obtain ⟨d, rest, hd, hrest, rfl⟩ := h
    rw [ih hms hrest]
    cases e with
    | literal m =>
      cases hl
      rw [Expression.mayDenote_literal.1 hd]
      rfl
    | _ => cases hl

/-- A call that is folded comes to the number that the function has for what is known. -/
theorem eq_of_foldBuiltin? {b : Builtin} {es : List (Expression (Exact M))} {x : Exact M}
    (h : Inlining.foldBuiltin? b es = some x) {ds : List (Meaning M)} {d : Meaning M}
    (hds : Expression.AllMayDenote ρ es ds) (hd : Meaning.call b ds = some d) :
    d = .primitive (.number x) := by
  unfold Meaning.call at hd
  obtain ⟨hb, hd⟩ := Option.ite_none_right_eq_some.1 hd
  obtain ⟨qs, hqs, rfl⟩ := Option.map_eq_some_iff.1 hd
  obtain ⟨hmath, hdeterministic⟩ := Bool.and_eq_true_iff.1 hb
  unfold Inlining.foldBuiltin? at h
  rw [if_pos hdeterministic] at h
  obtain ⟨ls, hls, h⟩ := Option.bind_eq_some_iff.1 h
  have hvalues : ds = (ls.map Value.primitive).map .ofValue := by
    rw [eq_of_mapM_asLiteral? hls hds, List.map_map]
    rfl
  rw [hvalues] at hqs
  have hnumbers := Meaning.map_toNumber hqs
  rw [List.map_map] at hnumbers
  change ls.map Literal.toNumber = _ at hnumbers
  rw [hnumbers, Exact.apply_of hmath hdeterministic] at h
  cases h
  rfl

/-- A function of numbers is left as a call, or comes to the number that it has for literals. -/
theorem models_call {residual : List Builtin} {b : Builtin}
    {arguments : List (Expression (Exact M))} {args : List (Value (Exact M))}
    {σ σ' : Scopes (Exact M)} (hlength : b ≠ .length) (hlist : b ≠ .list)
    (hargs : List.Forall₂ ((supposing ρ).Models home) arguments args)
    (h : (Inlining.applyBuiltin residual b arguments).run σ = .ok (e, σ')) :
    (supposing ρ).Models home e (.supposed (Meaning.call b (args.map .ofValue))) := by
  refine models_supposed fun l hl => ?_
  have hmay : Expression.AllMayDenote ρ arguments (args.map .ofValue) := by
    unfold Meaning.call at hl
    obtain ⟨-, hl⟩ := Option.ite_none_right_eq_some.1 hl
    obtain ⟨qs, hqs, -⟩ := Option.map_eq_some_iff.1 hl
    exact allMayDenote_of_models hargs hqs
  unfold Inlining.applyBuiltin at h
  split at h
  · exact absurd rfl hlength
  · exact absurd rfl hlist
  · split at h
    · split at h
      · next x hx =>
        obtain ⟨rfl, rfl⟩ := Inlining.pure_ok.1 h
        rw [eq_of_foldBuiltin? hx hmay hl]
        exact Expression.mayDenote_literal.2 rfl
      · obtain ⟨rfl, rfl⟩ := Inlining.pure_ok.1 h
        exact ⟨_, hmay, hl⟩
    · exact (Inlining.throw_ok.1 h).elim

theorem eq_of_applyBuiltin {residual : List Builtin} {b : Builtin}
    {arguments : List (Expression (Exact M))} {σ σ' : Scopes (Exact M)}
    (h : (Inlining.applyBuiltin residual b arguments).run σ = .ok (e, σ')) : σ' = σ := by
  unfold Inlining.applyBuiltin at h
  split at h
  · dsimp only at h
    split at h
    · exact (Inlining.pure_ok.1 h).2
    · exact (Inlining.throw_ok.1 h).elim
  · exact (Inlining.pure_ok.1 h).2
  · split at h
    · split at h
      · exact (Inlining.pure_ok.1 h).2
      · exact (Inlining.pure_ok.1 h).2
    · exact (Inlining.throw_ok.1 h).elim

variable {calls : CallSupposition M} {reduce : Reducer (Exact M)} {residual : List Builtin}
  {floors : Floors} {scope : Nat} {W : World} {σ σ' : Scopes (Exact M)} {s : Store (Exact M)}
  {k : Supposition M}

theorem builtin_supposed {b : Builtin} {arguments : List (Expression (Exact M))}
    {args : List (Value (Exact M))} (hcorr : (supposing ρ).Corr W σ s)
    (hargs : List.Forall₂ ((supposing ρ).Models ((supposing ρ).Home W σ)) arguments args)
    (hk : (Value.builtin b).CallSupposes calls args s k)
    (h : (Inlining.applyBuiltin residual b arguments).run σ = .ok (e, σ')) :
    ∃ v t, k v t ∧ (supposing ρ).Agree W σ' e v t := by
  obtain rfl := eq_of_applyBuiltin h
  cases b with
  | list =>
    obtain ⟨rfl, -⟩ := Inlining.pure_ok.1 h
    have hlist : (Run.makeList args).Ensures True s fun v t => t.frames = s.frames ∧
        (supposing ρ).Models ((supposing ρ).Home W σ') (.ofList arguments) v :=
      list_of (models_literal .null) hargs s
    obtain ⟨v, t, hv⟩ := hlist.ends trivial
    obtain ⟨hframes, hm⟩ := hlist.after v t hv
    exact ⟨v, t, hk v t hv, (hcorr.of_frames hframes).agree (.refl W) hm⟩
  | length =>
    unfold Inlining.applyBuiltin at h
    dsimp only at h
    split at h
    · next n hn =>
      obtain ⟨rfl, -⟩ := Inlining.pure_ok.1 h
      have hhead : (supposing ρ).Models ((supposing ρ).Home W σ')
          (arguments.headD .undefined) (args.headD .undefined) := by
        cases hargs with
        | nil => exact models_literal .undefined
        | cons hm _ => exact hm
      exact ⟨_, s, hk, hcorr.agree (.refl W) (models_length hhead hn)⟩
    · exact (Inlining.throw_ok.1 h).elim
  | _ => exact ⟨_, s, hk, hcorr.agree (.refl W) (models_call nofun nofun hargs h)⟩

theorem call_supposed (hcalls : CallsSupposed ρ calls reduce) {f : Expression (Exact M)}
    {u : Value (Exact M)} {arguments : List (Expression (Exact M))} {args : List (Value (Exact M))}
    (h : (∃ params body home, f = .function params body home ∧
        (reduce floors scope ⟨params, body⟩ home arguments).run σ = .ok (e, σ')) ∨
      ∃ b, f = .builtin b ∧ (Inlining.applyBuiltin residual b arguments).run σ = .ok (e, σ'))
    (hcorr : (supposing ρ).Corr W σ s) (hf : (supposing ρ).Models ((supposing ρ).Home W σ) f u)
    (hargs : List.Forall₂ ((supposing ρ).Models ((supposing ρ).Home W σ)) arguments args)
    (hk : u.CallSupposes calls args s k) : ∃ v t, k v t ∧ (supposing ρ).Agree W σ' e v t := by
  obtain ⟨params, body, home, rfl, h⟩ | ⟨b, rfl, h⟩ := h
  · cases hf with
    | residual hreads =>
      obtain rfl := eq_unknown_of_reads hreads rfl
      exact hk.elim
    | closure hhome => exact hcalls.closure hcorr hhome hargs hk h
  · cases hf with
    | residual hreads =>
      obtain rfl := eq_unknown_of_reads hreads rfl
      exact hk.elim
    | builtin b =>
      exact builtin_supposed hcorr hargs hk h

end Reading

open Reading

variable {calls : CallSupposition M} {reduce : Reducer (Exact M)} {residual : List Builtin}
  {env : Environment} {W : World} {σ σ' : Scopes (Exact M)} {s : Store (Exact M)} {scope : Nat}
  {floors : Floors} {k : Supposition M}

/-- The expression is inlined to what stands for a value that is supposed of it. -/
def Expression.InlineSupposed (ρ : Valuation) (calls : CallSupposition M)
    (residual : List Builtin) (reduce : Reducer (Exact M)) (env : Environment)
    (e : Expression (Exact M)) : Prop :=
  ∀ ⦃W : World⦄ ⦃σ σ' : Scopes (Exact M)⦄ ⦃s : Store (Exact M)⦄ ⦃scope : Nat⦄ ⦃floors : Floors⦄
    ⦃e' : Expression (Exact M)⦄ ⦃k : Supposition M⦄, e.Supposes calls env s k →
    (e.inline residual reduce floors scope).run σ = .ok (e', σ') → (supposing ρ).Corr W σ s →
    Placed W σ scope env → ∃ v t, k v t ∧ (supposing ρ).Agree W σ' e' v t

section

variable {test left right a b e' : Expression (Exact M)} {σ₁ σ₂ : Scopes (Exact M)}

/-- What is supposed of two operands, one after the other, is supposed of what stands for them. -/
theorem Expression.InlineSupposed.both (hk : Inlining.ReducerKeeps reduce)
    (hleft : left.InlineSupposed ρ calls residual reduce env)
    (hright : right.InlineSupposed ρ calls residual reduce env)
    {k : Value (Exact M) → Supposition M}
    (hsup : left.Supposes calls env s fun u s => right.Supposes calls env s (k u))
    (ha : (left.inline residual reduce floors scope).run σ = .ok (a, σ₁))
    (hb : (right.inline residual reduce floors scope).run σ₁ = .ok (b, σ₂))
    (hcorr : (supposing ρ).Corr W σ s) (hplaced : Placed W σ scope env) :
    ∃ u v t, k u v t ∧ ∃ W', W.Grows W' ∧ (supposing ρ).Corr W' σ₂ t ∧
      (supposing ρ).Models ((supposing ρ).Home W' σ₂) a u ∧
      (supposing ρ).Models ((supposing ρ).Home W' σ₂) b v := by
  have hextend := (left.inline_keeps hk floors scope σ a σ₁ ha).extend
  have hextendRight := (right.inline_keeps hk floors scope σ₁ b σ₂ hb).extend
  obtain ⟨u, t, hsup, W₁, hW₁, hcorr₁, hu⟩ := hleft hsup ha hcorr hplaced
  obtain ⟨v, t', hv, W₂, hW₂, hcorr₂, hm⟩ := hright hsup hb hcorr₁ (hplaced.mono hW₁ hextend)
  exact ⟨u, v, t', hv, W₂, hW₁.trans hW₂, hcorr₂, hu.grow hW₂ hextendRight, hm⟩

theorem Expression.InlineSupposed.logical (hρ : ∀ name q, ρ name = some q → 0 ≤ q)
    (hk : Inlining.ReducerKeeps reduce) (op : LogicalOperator)
    (hleft : left.InlineSupposed ρ calls residual reduce env)
    (hright : right.InlineSupposed ρ calls residual reduce env) :
    (Expression.logical op left right).InlineSupposed ρ calls residual reduce env := by
  intro W σ σ' s scope floors e' k hsup h hcorr hplaced
  rw [inline, Inlining.bind_ok] at h
  obtain ⟨a, σ₁, ha, h⟩ := h
  obtain ⟨u, t, ⟨hu, hvalue, hsup⟩, W₁, hW₁, hcorr₁, hm⟩ := hleft hsup ha hcorr hplaced
  have hplaced₁ := hplaced.mono hW₁ (left.inline_keeps hk floors scope σ a σ₁ ha).extend
  cases hl : a.asLiteral? with
  | some l =>
    simp only [hl] at h
    split at h
    · obtain ⟨rfl, rfl⟩ := Inlining.pure_ok.1 h
      exact ⟨u, t, hvalue, hcorr₁.agree hW₁ hm⟩
    · obtain ⟨v, t', ⟨-, hv⟩, hagree⟩ := hright hsup h hcorr₁ hplaced₁
      exact ⟨v, t', hv, hagree.grow hW₁⟩
  | none =>
    simp only [hl] at h
    rw [Inlining.bind_ok] at h
    obtain ⟨b, σ₂, hb, h⟩ := h
    obtain ⟨rfl, rfl⟩ := Inlining.pure_ok.1 h
    rw [Inlining.branching_ok] at hb
    obtain ⟨v, _, ⟨hv, -⟩, _, _, _, hm'⟩ := hright hsup hb hcorr₁ hplaced₁
    have hkept := right.inline_keeps hk _ scope σ₁ b _ hb
    refine ⟨u, t, hvalue, W₁, hW₁, hcorr₁.kept hkept (Nat.le_refl _) fun _ _ => id, ?_⟩
    refine models_truth (Expression.isTruth_simplify hρ (isTruth_logical.2 ⟨?_, ?_⟩)) hu
    · exact isTruth_of_models hρ hm hu
    · exact isTruth_of_models hρ hm' hv

/-- The side of a choice that is taken stands for what both sides are supposed to come to. -/
theorem Expression.InlineSupposed.chosen (hside : left.InlineSupposed ρ calls residual reduce env)
    (hsup : (left.Supposes calls env s fun v s => v.IsBoolean ∧ k v s) ∨
      left.Supposes calls env s fun _ s => k .unknown s)
    (h : (left.inline residual reduce floors scope).run σ = .ok (e', σ'))
    (hcorr : (supposing ρ).Corr W σ s) (hplaced : Placed W σ scope env) :
    ∃ v t, k v t ∧ (supposing ρ).Agree W σ' e' v t := by
  obtain hsup | hsup := hsup
  · obtain ⟨v, t, ⟨-, hv⟩, hagree⟩ := hside hsup h hcorr hplaced
    exact ⟨v, t, hv, hagree⟩
  · obtain ⟨_, t, hv, W₁, hW₁, hcorr₁, -⟩ := hside hsup h hcorr hplaced
    exact ⟨_, t, hv, hcorr₁.agree hW₁ models_unknown⟩

theorem Expression.InlineSupposed.conditional (hρ : ∀ name q, ρ name = some q → 0 ≤ q)
    (hk : Inlining.ReducerKeeps reduce)
    (htest : test.InlineSupposed ρ calls residual reduce env)
    (hleft : left.InlineSupposed ρ calls residual reduce env)
    (hright : right.InlineSupposed ρ calls residual reduce env) :
    (Expression.conditional test left right).InlineSupposed ρ calls residual reduce env := by
  intro W σ σ' s scope floors e' k hsup h hcorr hplaced
  rw [inline, Inlining.bind_ok] at h
  obtain ⟨a, σ₁, ha, h⟩ := h
  obtain ⟨u, t, ⟨-, hsup⟩, W₁, hW₁, hcorr₁, -⟩ := htest hsup ha hcorr hplaced
  have hplaced₁ := hplaced.mono hW₁ (test.inline_keeps hk floors scope σ a σ₁ ha).extend
  cases hl : a.asLiteral? with
  | some l =>
    simp only [hl] at h
    split at h
    · have hsup := hsup.imp (fun h => h.2.1) fun h => h.2.1
      obtain ⟨v, t', hv, hagree⟩ := hleft.chosen hsup h hcorr₁ hplaced₁
      exact ⟨v, t', hv, hagree.grow hW₁⟩
    · have hsup := hsup.imp (fun h => h.2.2) fun h => h.2.2
      obtain ⟨v, t', hv, hagree⟩ := hright.chosen hsup h hcorr₁ hplaced₁
      exact ⟨v, t', hv, hagree.grow hW₁⟩
  | none =>
    simp only [hl] at h
    rw [Inlining.bind_ok] at h
    obtain ⟨b, σ₂, hb, h⟩ := h
    rw [Inlining.bind_ok] at h
    obtain ⟨c, σ₃, hc, h⟩ := h
    obtain ⟨rfl, rfl⟩ := Inlining.pure_ok.1 h
    rw [Inlining.branching_ok] at hb hc
    have hkeptLeft := left.inline_keeps hk _ scope σ₁ b σ₂ hb
    have hkeptRight := right.inline_keeps hk _ scope σ₂ c _ hc
    have hcorr₂ := hcorr₁.kept hkeptLeft (Nat.le_refl _) fun _ _ => id
    have hcorr₃ := hcorr₂.kept hkeptRight (Nat.le_refl _) fun _ _ => id
    obtain ⟨hvalue, hsup, hsup'⟩ | ⟨hvalue, -⟩ := hsup
    · obtain ⟨v, _, ⟨hv, -⟩, _, _, _, hm⟩ := hleft hsup hb hcorr₁ hplaced₁
      obtain ⟨w, _, ⟨hw, -⟩, _, _, _, hm'⟩ := hright hsup' hc hcorr₂
        (hplaced₁.mono (.refl _) hkeptLeft.extend)
      refine ⟨_, t, hvalue, hcorr₃.agree hW₁ (models_truth ?_ ⟨true, rfl⟩)⟩
      refine Expression.isTruth_simplify hρ (isTruth_conditional ?_ ?_)
      · exact isTruth_of_models hρ hm hv
      · exact isTruth_of_models hρ hm' hw
    · exact ⟨_, t, hvalue, hcorr₃.agree hW₁ models_unknown⟩

end

mutual

theorem Expression.inline_supposed (hρ : ∀ name q, ρ name = some q → 0 ≤ q)
    (hk : Inlining.ReducerKeeps reduce) (hcalls : CallsSupposed ρ calls reduce) :
    (e : Expression (Exact M)) → e.InlineSupposed ρ calls residual reduce env
  | .literal l => by
    intro W σ σ' s scope floors e' k hsup h hcorr _
    rw [inline] at h
    obtain ⟨rfl, rfl⟩ := Inlining.pure_ok.1 h
    exact ⟨_, s, hsup, hcorr.agree (.refl W) (models_literal l)⟩
  | .builtin b => by
    intro W σ σ' s scope floors e' k hsup h hcorr _
    rw [inline] at h
    obtain ⟨rfl, rfl⟩ := Inlining.pure_ok.1 h
    exact ⟨_, s, hsup, hcorr.agree (.refl W) (.builtin b)⟩
  | .identifier name => by
    intro W σ σ' s scope floors e' k hsup h hcorr hplaced
    rw [inline] at h
    have hread := read_agrees hcorr hplaced h
    obtain ⟨v, t, hv⟩ := hread.ends trivial
    exact ⟨v, t, hsup v t hv, hread.after v t hv⟩
  | .function params body home => by
    intro W σ σ' s scope floors e' k hsup h hcorr hplaced
    rw [inline] at h
    obtain ⟨rfl, rfl⟩ := Inlining.pure_ok.1 h
    have hmade := Run.outcome_makeClosure none ⟨params, body⟩ env s
    have hcorr₁ : (supposing ρ).Corr W σ' { s with made := s.made + 1 } := hcorr.of_frames rfl
    exact ⟨_, _, hsup _ _ hmade, hcorr₁.agree (.refl W) (.closure ⟨trivial, hplaced⟩)⟩
  | .unary op argument => by
    intro W σ σ' s scope floors e' k hsup h hcorr hplaced
    rw [inline, Inlining.bind_ok] at h
    obtain ⟨a, σ₁, ha, h⟩ := h
    obtain ⟨rfl, rfl⟩ := Inlining.pure_ok.1 h
    obtain ⟨u, t, hsup, W₁, hW₁, hcorr₁, hu⟩ :=
      Expression.inline_supposed hρ hk hcalls argument hsup ha hcorr hplaced
    refine ⟨_, t, hsup, hcorr₁.agree hW₁ ?_⟩
    split
    · next hop =>
      refine models_truth (Expression.isTruth_of_isBoolean hρ ?_) ⟨true, rfl⟩
      exact isBoolean_simplify hop
    · next hop => exact models_unary hρ (Bool.eq_false_iff.2 hop) hu
  | .binary op left right => by
    intro W σ σ' s scope floors e' k hsup h hcorr hplaced
    rw [inline, Inlining.bind_ok] at h
    obtain ⟨a, σ₁, ha, h⟩ := h
    rw [Inlining.bind_ok] at h
    obtain ⟨b, σ₂, hb, h⟩ := h
    obtain ⟨rfl, rfl⟩ := Inlining.pure_ok.1 h
    have hleft := Expression.inline_supposed hρ hk hcalls left
    have hright := Expression.inline_supposed hρ hk hcalls right
    obtain ⟨u, v, t, hsup, W₁, hW₁, hcorr₁, hu, hv⟩ :=
      hleft.both hk hright hsup ha hb hcorr hplaced
    refine ⟨_, t, hsup, hcorr₁.agree hW₁ ?_⟩
    split
    · next hop =>
      refine models_truth (Expression.isTruth_of_isBoolean hρ ?_) ⟨true, rfl⟩
      exact isBoolean_simplify hop
    · next hop => exact models_binary hρ (Bool.eq_false_iff.2 hop) hu hv
  | .member object property => by
    intro W σ σ' s scope floors e' k hsup h hcorr hplaced
    rw [inline, Inlining.bind_ok] at h
    obtain ⟨a, σ₁, ha, h⟩ := h
    rw [Inlining.bind_ok] at h
    obtain ⟨b, σ₂, hb, h⟩ := h
    have hobject := Expression.inline_supposed hρ hk hcalls object
    have hproperty := Expression.inline_supposed hρ hk hcalls property
    obtain ⟨u, v, t, hsup, W₁, hW₁, hcorr₁, hu, hv⟩ :=
      hobject.both hk hproperty hsup ha hb hcorr hplaced
    obtain ⟨rfl, w, hw, hm⟩ := member_supposed hu hv hsup h
    exact ⟨w, t, hw, hcorr₁.agree hW₁ hm⟩
  | .array [head, tail] => by
    intro W σ σ' s scope floors e' k hsup h hcorr hplaced
    rw [inline, Inlining.bind_ok] at h
    obtain ⟨es, σ₁, hes, h⟩ := h
    obtain ⟨rfl, rfl⟩ := Inlining.pure_ok.1 h
    rw [inlineAll, Inlining.bind_ok] at hes
    obtain ⟨a, σ₁, ha, h⟩ := hes
    rw [Inlining.bind_ok] at h
    obtain ⟨bs, σ₂, hbs, h⟩ := h
    obtain ⟨rfl, rfl⟩ := Inlining.pure_ok.1 h
    rw [inlineAll, Inlining.bind_ok] at hbs
    obtain ⟨b, σ₂, hb, h⟩ := hbs
    rw [inlineAll] at h
    obtain ⟨rfl, rfl⟩ := Inlining.pure_ok.1 h
    have hhead := Expression.inline_supposed hρ hk hcalls head
    have htail := Expression.inline_supposed hρ hk hcalls tail
    obtain ⟨u, v, t, hsup, W₁, hW₁, hcorr₁, hu, hv⟩ :=
      hhead.both hk htail hsup ha hb hcorr hplaced
    have hcorr₂ : (supposing ρ).Corr W₁ _ { t with made := t.made + 1 } := hcorr₁.of_frames rfl
    exact ⟨_, _, hsup _ _ (Run.outcome_makePair u v t), hcorr₂.agree hW₁ (.pair _ hu hv)⟩
  | .logical op left right =>
    Expression.InlineSupposed.logical hρ hk op (Expression.inline_supposed hρ hk hcalls left)
      (Expression.inline_supposed hρ hk hcalls right)
  | .conditional test consequent alternate =>
    Expression.InlineSupposed.conditional hρ hk (Expression.inline_supposed hρ hk hcalls test)
      (Expression.inline_supposed hρ hk hcalls consequent)
      (Expression.inline_supposed hρ hk hcalls alternate)
  | .call callee arguments => by
    intro W σ σ' s scope floors e' k hsup h hcorr hplaced
    rw [inline, Inlining.bind_ok] at h
    obtain ⟨f, σ₁, hf, h⟩ := h
    rw [Inlining.bind_ok] at h
    obtain ⟨es, σ₂, hes, h⟩ := h
    have hextend := (callee.inline_keeps hk floors scope σ f σ₁ hf).extend
    have hextendAll := (Expression.inlineAll_keeps hk floors scope arguments σ₁ es σ₂ hes).extend
    obtain ⟨u, t, hsup, W₁, hW₁, hcorr₁, hu⟩ :=
      Expression.inline_supposed hρ hk hcalls callee hsup hf hcorr hplaced
    obtain ⟨vs, t, hsup, W₂, hW₂, hcorr₂, hvs⟩ :=
      Expression.inlineAll_supposed hρ hk hcalls arguments hsup hes hcorr₁
        (hplaced.mono hW₁ hextend)
    obtain ⟨v, t, hv, hagree⟩ :=
      call_supposed hcalls (called_ok h) hcorr₂ (hu.grow hW₂ hextendAll) hvs hsup
    exact ⟨v, t, hv, hagree.grow (hW₁.trans hW₂)⟩
  | .array [] => fun _ _ _ _ _ _ _ _ hsup => hsup.elim
  | .array [_] => fun _ _ _ _ _ _ _ _ hsup => hsup.elim
  | .array (_ :: _ :: _ :: _) => fun _ _ _ _ _ _ _ _ hsup => hsup.elim
  | .assignment _ _ _ => fun _ _ _ _ _ _ _ _ hsup => hsup.elim
  | .update _ _ _ => fun _ _ _ _ _ _ _ _ hsup => hsup.elim

theorem Expression.inlineAll_supposed (hρ : ∀ name q, ρ name = some q → 0 ≤ q)
    (hk : Inlining.ReducerKeeps reduce) (hcalls : CallsSupposed ρ calls reduce) {W : World}
    {σ σ' : Scopes (Exact M)} {s : Store (Exact M)} {scope : Nat} {floors : Floors}
    {es' : List (Expression (Exact M))} {k : List (Value (Exact M)) → Store (Exact M) → Prop} :
    (es : List (Expression (Exact M))) → Expression.allSuppose calls env es s k →
      (Expression.inlineAll residual reduce floors scope es).run σ = .ok (es', σ') →
      (supposing ρ).Corr W σ s → Placed W σ scope env →
      ∃ vs t, k vs t ∧ ∃ W', W.Grows W' ∧ (supposing ρ).Corr W' σ' t ∧
        List.Forall₂ ((supposing ρ).Models ((supposing ρ).Home W' σ')) es' vs
  | [] => by
    intro hsup h hcorr _
    rw [inlineAll] at h
    obtain ⟨rfl, rfl⟩ := Inlining.pure_ok.1 h
    exact ⟨[], s, hsup, W, .refl W, hcorr, .nil⟩
  | e :: es => by
    intro hsup h hcorr hplaced
    rw [inlineAll, Inlining.bind_ok] at h
    obtain ⟨a, σ₁, ha, h⟩ := h
    rw [Inlining.bind_ok] at h
    obtain ⟨bs, σ₂, hbs, h⟩ := h
    obtain ⟨rfl, rfl⟩ := Inlining.pure_ok.1 h
    have hextend := (e.inline_keeps hk floors scope σ a σ₁ ha).extend
    have hextendAll := (Expression.inlineAll_keeps hk floors scope es σ₁ bs _ hbs).extend
    obtain ⟨u, t, hsup, W₁, hW₁, hcorr₁, hu⟩ :=
      Expression.inline_supposed hρ hk hcalls e hsup ha hcorr hplaced
    obtain ⟨vs, t, hsup, W₂, hW₂, hcorr₂, hvs⟩ :=
      Expression.inlineAll_supposed hρ hk hcalls es hsup hbs hcorr₁ (hplaced.mono hW₁ hextend)
    exact ⟨u :: vs, t, hsup, W₂, hW₁.trans hW₂, hcorr₂, .cons (hu.grow hW₂ hextendAll) hvs⟩

end

/-- Declarations and a return are inlined to what stands for a value that is supposed of the
result. -/
theorem Statement.inlineAll_supposed (hρ : ∀ name q, ρ name = some q → 0 ≤ q)
    {options : SpecializationOptions} (hk : Inlining.ReducerKeeps reduce)
    (hcalls : CallsSupposed ρ calls reduce) {isTail : Bool} {flow : Flow (Exact M)}
    {k : Supposition M} {body : List (Statement (Exact M))}
    (hsup : Statement.allSuppose calls env body s k)
    (h : (Statement.inlineAll options reduce floors scope isTail body).run σ = .ok (flow, σ'))
    (hcorr : (supposing ρ).Corr W σ s) (hplaced : Placed W σ scope env)
    (howned : Owned W scope env) :
    ∃ v t, k v t ∧ ∃ W', W.Grows W' ∧ (supposing ρ).Corr W' σ' t ∧
      ((flow = .continues ∧ v = .undefined) ∨
        ∃ e, flow = .returned e ∧ (supposing ρ).Models ((supposing ρ).Home W' σ') e v) := by
  induction body generalizing W σ s with
  | nil =>
    rw [inlineAll] at h
    obtain ⟨rfl, rfl⟩ := Inlining.pure_ok.1 h
    exact ⟨.undefined, s, hsup, W, .refl W, hcorr, .inl ⟨rfl, rfl⟩⟩
  | cons st rest ih =>
    rw [inlineAll, Inlining.bind_ok] at h
    obtain ⟨_, σ₁, hstep, h⟩ := h
    cases st with
    | function _ _ _ =>
      rw [step] at hstep
      obtain ⟨rfl, rfl⟩ := Inlining.pure_ok.1 hstep
      exact ih hsup h hcorr hplaced howned
    | declaration kind name init =>
      cases init with
      | none => exact hsup.elim
      | some e =>
        rw [step, Inlining.bind_ok] at hstep
        obtain ⟨_, σ₂, hdeclare, hstep⟩ := hstep
        obtain ⟨rfl, rfl⟩ := Inlining.pure_ok.1 hstep
        rw [Inlining.declare, Inlining.bind_ok] at hdeclare
        obtain ⟨a, σ₃, ha, hdefine⟩ := hdeclare
        obtain rfl := Inlining.modify_ok.1 hdefine
        have hkept := (e.inline_keeps hk floors scope σ a σ₃ ha).extend
        obtain ⟨v, t, hsup, W₁, hW₁, hcorr₁, hm⟩ :=
          Expression.inline_supposed hρ hk hcalls e hsup ha hcorr hplaced
        obtain ⟨i, outer, js, rfl, hi⟩ := howned.mono hW₁
        have hcorr₂ : (supposing ρ).Corr W₁ (σ₃.define scope name (kind.binding a))
            (t.bind i name v) := by
          refine hcorr₁.define hi ?_
          cases kind with
          | mutable => exact .mutable hm
          | constant => exact .constant hm
        obtain ⟨w, t', hw, W₂, hW₂, hcorr₃, hflow⟩ :=
          ih (hsup _ _ (Run.outcome_define (i :: outer) name v t)) h hcorr₂
            (hplaced.mono hW₁ (hkept.trans (Scopes.extends_define _ _ _ _))) (howned.mono hW₁)
        exact ⟨w, t', hw, W₂, hW₁.trans hW₂, hcorr₃, hflow⟩
    | result value =>
      cases value with
      | none => exact hsup.elim
      | some e =>
        rw [step, Inlining.bind_ok] at hstep
        obtain ⟨a, σ₂, ha, hstep⟩ := hstep
        obtain ⟨rfl, rfl⟩ := Inlining.pure_ok.1 hstep
        obtain ⟨rfl, rfl⟩ := Inlining.pure_ok.1 h
        obtain ⟨v, t, hv, W₁, hW₁, hcorr₁, hm⟩ :=
          Expression.inline_supposed hρ hk hcalls e hsup ha hcorr hplaced
        exact ⟨v, t, hv, W₁, hW₁, hcorr₁, .inr ⟨a, rfl, hm⟩⟩
    | block _ | expression _ | branch _ _ _ | loop _ _ _ _ => exact hsup.elim

/-- Calls are inlined as deep as they are followed. -/
theorem callsSupposed_reduce (hρ : ∀ name q, ρ name = some q → 0 ≤ q)
    (options : SpecializationOptions) (depth : Nat) :
    CallsSupposed ρ (Run.callSupposes (M := M) depth) (Inlining.reduce options depth) := by
  induction depth with
  | zero => exact ⟨fun _ _ _ _ h => (Inlining.throw_ok.1 h).elim⟩
  | succ depth ih =>
    refine ⟨fun {W σ σ' s floors scope i name params body env j arguments args e k} hcorr hhome
      hargs hsup h => ?_⟩
    obtain ⟨flow, hflow, he⟩ := reduce_ok h
    have hsup := hsup _ _ (Run.outcome_extend env s) _ _ (Run.outcome_defineParams _ _ _ _ _)
    obtain ⟨hentered, hends⟩ := hcorr.enterCall (supposing_literal .undefined) hhome hargs rfl rfl
    obtain ⟨u, t, hu⟩ := hends trivial
    obtain ⟨W₁, hW₁, hin⟩ := hentered u t hu
    obtain ⟨v, t', hv, W₂, hW₂, hcorr₂, hflow⟩ :=
      Statement.inlineAll_supposed hρ (Inlining.reduce_keeps options depth) ih (hsup u t hu) hflow
        hin.corr hin.placed hin.owned
    refine ⟨v, t', hv, hcorr₂.agree (hW₁.trans hW₂) ?_⟩
    obtain ⟨rfl, rfl⟩ | ⟨value, rfl, hm⟩ := hflow
    · obtain rfl : e = .undefined := by simpa using he
      exact models_literal _
    · obtain rfl : e = value.simplify := by simpa using he
      exact supposing_simplify hρ hm

/-- A right side that is supposed to be a truth value is inlined to one, as far as is known. -/
theorem Reading.symbolic.unrunAgrees (hρ : ∀ name q, ρ name = some q → 0 ≤ q) {higherOrder : Prop}
    (options : SpecializationOptions) (depth : Nat) :
    (symbolic ρ higherOrder : Reading (Exact M)).UnrunAgrees (Inlining.reduce options depth) where
  inline := by
    rintro W σ σ' s residual floors scope env e e' ⟨hhigher, hsup⟩ hcorr hplaced h
    have hweaker := hcorr.weaken (supposing_of_symbolic (ρ := ρ)) fun _ => trivial
    obtain ⟨v, t, hv, W', -, -, hm⟩ := Expression.inline_supposed hρ
      (Inlining.reduce_keeps options depth) (callsSupposed_reduce hρ options depth) e (hsup depth) h
      hweaker hplaced
    exact isTruth_of_models hρ hm hv

end Waveform
