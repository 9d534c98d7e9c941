import Mathlib.Logic.Function.Basic
import Waveform.Proofs.Evaluation.Effects
import Waveform.Proofs.Evaluation.Identities
import Waveform.Proofs.Number.Exact

/-!
# Evaluating without effects

An expression whose form shows no effect calls nothing and binds nothing. All that its evaluation
does to a store is to give out identities, so it can be repeated: in a store with the same frames it
ends in the same way, and only the pairs and functions that are made on the way are others.
-/

namespace Waveform

variable {ν : Type}

/-! ## Other identities -/

def Value.renumber (ρ : Nat → Nat) : Value ν → Value ν
  | .primitive l => .primitive l
  | .pair i head tail => .pair (ρ i) (head.renumber ρ) (tail.renumber ρ)
  | .closure c => .closure { c with identity := ρ c.identity }
  | .builtin b => .builtin b

def RuntimeError.renumber (ρ : Nat → Nat) : RuntimeError ν → RuntimeError ν
  | .notAFunction target => .notAFunction (target.renumber ρ)
  | .noProperties object property => .noProperties (object.renumber ρ) (property.renumber ρ)
  | .notAList value => .notAList (value.renumber ρ)
  | e => e

def Stop.renumber (ρ : Nat → Nat) : Stop ν → Stop ν
  | .error cause => .error (cause.renumber ρ)
  | .exhausted => .exhausted

namespace Value

variable {ρ : Nat → Nat}

@[simp] theorem renumber_id (v : Value ν) : v.renumber id = v := by
  induction v with
  | pair i head tail ihead itail => rw [renumber, ihead, itail, id_eq]
  | _ => rfl

theorem renumber_of_forall {v : Value ν} (h : ∀ x, v.Includes x → ρ x.identity = x.identity) :
    v.renumber ρ = v := by
  induction v with
  | primitive l => rfl
  | builtin b => rfl
  | closure c =>
    have hc : ρ c.identity = c.identity := h (.closure c) rfl
    rw [renumber, hc]
  | pair i head tail ihead itail =>
    have hi : ρ i = i := h (.pair i) (.inl rfl)
    rw [renumber, hi, ihead fun x hx => h x (.inr (.inl hx)),
      itail fun x hx => h x (.inr (.inr hx))]

@[simp] theorem typeName_renumber (v : Value ν) : (v.renumber ρ).typeName = v.typeName := by
  cases v <;> rfl

@[simp] theorem asLiteral?_renumber (v : Value ν) : (v.renumber ρ).asLiteral? = v.asLiteral? := by
  cases v <;> rfl

@[simp] theorem asNumber?_renumber (v : Value ν) : (v.renumber ρ).asNumber? = v.asNumber? := by
  cases v <;> rfl

variable [Numeric ν] (v w : Value ν)

@[simp] theorem text_renumber : (v.renumber ρ).text = v.text := by
  induction v with
  | pair i head tail ihead itail => rw [renumber, text, text, ihead, itail]
  | _ => rfl

@[simp] theorem isTruthy_renumber : (v.renumber ρ).isTruthy = v.isTruthy := by
  cases v <;> rfl

@[simp] theorem toPrimitive_renumber : (v.renumber ρ).toPrimitive = v.toPrimitive := by
  cases v with
  | pair i head tail => exact congrArg Literal.string (text_renumber (.pair i head tail))
  | _ => rfl

theorem same_renumber (hρ : Function.Injective ρ) :
    (v.renumber ρ).same (w.renumber ρ) = v.same w := by
  cases v <;> cases w <;> simp [renumber, same, hρ.eq_iff, Bool.beq_eq_decide_eq]

theorem looselyEqual_eq : v.looselyEqual w =
    match v.asLiteral?, w.asLiteral? with
    | some l, some r => BinaryOperator.looselyEqual l r
    | some l, none => ! l.isNullish && BinaryOperator.looselyEqual l w.toPrimitive
    | none, some r => ! r.isNullish && BinaryOperator.looselyEqual r v.toPrimitive
    | none, none => v.same w := by
  cases v <;> cases w <;> rfl

theorem looselyEqual_renumber (hρ : Function.Injective ρ) :
    (v.renumber ρ).looselyEqual (w.renumber ρ) = v.looselyEqual w := by
  rw [looselyEqual_eq, looselyEqual_eq, same_renumber v w hρ]
  simp only [asLiteral?_renumber, toPrimitive_renumber]

end Value

section

variable [Numeric ν] {ρ : Nat → Nat}

/-- The result of an operator has no identity, and depends on none but for whether they are the
same. -/
theorem UnaryOperator.apply_renumber (op : UnaryOperator) (v : Value ν) :
    op.apply (v.renumber ρ) = (op.apply v).renumber ρ := by
  cases op <;> simp [apply, Value.string, Value.boolean, Value.renumber]

theorem BinaryOperator.apply_renumber (hρ : Function.Injective ρ) (op : BinaryOperator)
    (v w : Value ν) : op.apply (v.renumber ρ) (w.renumber ρ) = (op.apply v w).renumber ρ := by
  cases op <;> simp [apply, Value.boolean, Value.renumber, Value.same_renumber v w hρ,
    Value.looselyEqual_renumber v w hρ]

theorem RuntimeError.message_renumber (cause : RuntimeError ν) :
    (cause.renumber ρ).message = cause.message := by
  cases cause with
  | notAFunction target =>
    unfold renumber message
    dsimp only
    rw [target.text_renumber]
  | noProperties object property =>
    unfold renumber message
    dsimp only
    rw [object.text_renumber, property.text_renumber]
  | notAList value =>
    unfold renumber message
    dsimp only
    rw [value.text_renumber]
  | _ => rfl

theorem Stop.message_renumber (e : Stop ν) : (e.renumber ρ).message = e.message := by
  cases e with
  | exhausted => rfl
  | error cause => exact cause.message_renumber

omit [Numeric ν] in
theorem Stop.renumber_id (e : Stop ν) : e.renumber id = e := by
  cases e with
  | exhausted => rfl
  | error cause => cases cause <;> simp [renumber, RuntimeError.renumber]

end

/-! ## Runs that are repeated -/

namespace Run

def renumbered (ρ : Nat → Nat) : Except (Stop ν) (Value ν) → Except (Stop ν) (Value ν)
  | .ok v => .ok (v.renumber ρ)
  | .error e => .error (e.renumber ρ)

theorem renumbered_id (r : Except (Stop ν) (Value ν)) : renumbered id r = r := by
  cases r with
  | ok v => rw [renumbered, Value.renumber_id]
  | error e => rw [renumbered, Stop.renumber_id]

end Run

def Store.advance (s : Store ν) (n : Nat) : Store ν :=
  { s with made := s.made + n }

/-- The second store binds the same, and the identities that it gives out stand for those that the
first one gives out. -/
structure Store.Renumbers (ρ : Nat → Nat) (s t : Store ν) : Prop where
  injective : Function.Injective ρ
  frames : t.frames = s.frames
  kept {i name v} : (s.frame i).find? name = some v → v.renumber ρ = v
  fresh (n : Nat) : ρ (s.made + n) = t.made + n

theorem Store.renumbers_self (s : Store ν) : s.Renumbers id s :=
  ⟨Function.injective_id, rfl, fun {_ _ v} _ => v.renumber_id, fun _ => rfl⟩

namespace Run

/-- From stores that have given out as many identities more, both runs give out as many again, and
the second ends as the first. Neither is given up. -/
def Repeats (ρ : Nat → Nat) (s t : Store ν) (x y : Run ν (Value ν)) : Prop :=
  ∀ n, ∃ r k, r ≠ .error .exhausted ∧ x.outcome (s.advance n) = (r, s.advance (n + k)) ∧
    y.outcome (t.advance n) = (renumbered ρ r, t.advance (n + k))

variable {ρ : Nat → Nat} {s t : Store ν}

theorem ok_ne_exhausted (v : Value ν) : (.ok v : Except (Stop ν) (Value ν)) ≠ .error .exhausted :=
  nofun

theorem error_ne_exhausted (cause : RuntimeError ν) :
    (.error (.error cause) : Except (Stop ν) (Value ν)) ≠ .error .exhausted :=
  nofun

theorem repeats_pure (ρ : Nat → Nat) (s t : Store ν) (v : Value ν) :
    (pure v : Run ν (Value ν)).Repeats ρ s t (pure (v.renumber ρ)) :=
  fun _ => ⟨.ok v, 0, ok_ne_exhausted _, rfl, rfl⟩

theorem repeats_fail (ρ : Nat → Nat) (s t : Store ν) (cause : RuntimeError ν) :
    (fail cause : Run ν (Value ν)).Repeats ρ s t (fail (cause.renumber ρ)) :=
  fun _ => ⟨.error (.error cause), 0, error_ne_exhausted _, rfl, rfl⟩

theorem Repeats.bind {x y : Run ν (Value ν)} {f g : Value ν → Run ν (Value ν)}
    (hx : x.Repeats ρ s t y) (hf : ∀ v, (f v).Repeats ρ s t (g (v.renumber ρ))) :
    (x >>= f).Repeats ρ s t (y >>= g) := by
  intro n
  obtain ⟨r, k, hr, hleft, hright⟩ := hx n
  cases r with
  | error e =>
    refine ⟨.error e, k, hr, ?_, ?_⟩
    · rw [outcome_bind, hleft]
    · rw [outcome_bind, hright]
      rfl
  | ok v =>
    obtain ⟨r', k', hr', hleft', hright'⟩ := hf v (n + k)
    refine ⟨r', k + k', hr', ?_, ?_⟩
    · rw [outcome_bind, hleft, ← Nat.add_assoc]
      exact hleft'
    · rw [outcome_bind, hright, ← Nat.add_assoc]
      exact hright'

theorem repeats_read (h : s.Renumbers ρ t) (env : Environment) (name : String) :
    (read env name).Repeats ρ s t (read env name) := by
  intro n
  have hsame : (t.advance n).lookup? name env = s.lookup? name env :=
    Store.lookup?_congr fun j _ => by rw [Store.frame, Store.frame, ← h.frames]; rfl
  have hself : (s.advance n).lookup? name env = s.lookup? name env :=
    Store.lookup?_congr fun j _ => rfl
  rw [outcome_read, outcome_read, hsame, hself]
  cases hv : s.lookup? name env with
  | none => exact ⟨.error (.error (.undefinedName name)), 0, error_ne_exhausted _, rfl, rfl⟩
  | some v =>
    obtain ⟨i, hi⟩ := Store.exists_find?_of_lookup hv
    refine ⟨.ok v, 0, ok_ne_exhausted _, rfl, ?_⟩
    rw [renumbered, h.kept hi]
    rfl

theorem repeats_makePair (h : s.Renumbers ρ t) (head tail : Value ν) :
    (makePair head tail).Repeats ρ s t (makePair (head.renumber ρ) (tail.renumber ρ)) := by
  intro n
  refine ⟨.ok (.pair (s.made + n) head tail), 1, ok_ne_exhausted _, rfl, ?_⟩
  rw [renumbered, Value.renumber, h.fresh n]
  rfl

theorem repeats_makeClosure (h : s.Renumbers ρ t) (name : Option String) (f : Function ν)
    (env : Environment) :
    (makeClosure name f env).Repeats ρ s t (makeClosure name f env) := by
  intro n
  refine ⟨.ok (.closure ⟨s.made + n, name, f, env⟩), 1, ok_ne_exhausted _, rfl, ?_⟩
  rw [renumbered, Value.renumber, h.fresh n]
  rfl

theorem repeats_member [Numeric ν] (ρ : Nat → Nat) (s t : Store ν) (object property : Value ν) :
    (member object property).Repeats ρ s t
      (member (object.renumber ρ) (property.renumber ρ)) := by
  have hundefined := repeats_pure ρ s t (.undefined : Value ν)
  cases object with
  | primitive l =>
    cases l with
    | undefined => exact repeats_fail ρ s t (.noProperties (.primitive .undefined) property)
    | null => exact repeats_fail ρ s t (.noProperties (.primitive .null) property)
    | _ => exact hundefined
  | pair i head tail =>
    rw [Value.renumber, member, member, Value.asNumber?_renumber]
    cases property.asNumber? with
    | none => exact hundefined
    | some x =>
      dsimp only
      split
      · exact repeats_pure ρ s t head
      · split
        · exact repeats_pure ρ s t tail
        · exact hundefined
  | _ => exact hundefined

end Run

namespace Expression

variable [Numeric ν] {ρ : Nat → Nat} {s t : Store ν}

/-- An expression whose form shows no effect can be evaluated again, whatever calls do. -/
theorem evaluate_repeats {call call' : Caller ν} {env : Environment} (h : s.Renumbers ρ t) :
    (e : Expression ν) → e.hasEffect = false →
      (e.evaluate call env).Repeats ρ s t (e.evaluate call' env)
  | .literal l, _ => Run.repeats_pure ρ s t (.primitive l)
  | .builtin b, _ => Run.repeats_pure ρ s t (.builtin b)
  | .identifier name, _ => Run.repeats_read h env name
  | .function params body home, _ => Run.repeats_makeClosure h none ⟨params, body⟩ env
  | .array [head, tail], heffect => by
    simp only [hasEffect, anyEffect, Bool.or_eq_false_iff] at heffect
    rw [evaluate, evaluate]
    exact (head.evaluate_repeats h heffect.1).bind fun a =>
      (tail.evaluate_repeats h heffect.2.1).bind fun b => Run.repeats_makePair h a b
  | .array [], _ => Run.repeats_fail ρ s t (.notAPair 0)
  | .array [_], _ => Run.repeats_fail ρ s t (.notAPair 1)
  | .array (_ :: _ :: _ :: rest), _ => Run.repeats_fail ρ s t (.notAPair (rest.length + 3))
  | .member object property, heffect => by
    simp only [hasEffect, Bool.or_eq_false_iff] at heffect
    rw [evaluate, evaluate]
    exact (object.evaluate_repeats h heffect.1).bind fun a =>
      (property.evaluate_repeats h heffect.2).bind fun b => Run.repeats_member ρ s t a b
  | .unary op argument, heffect => by
    simp only [hasEffect] at heffect
    rw [evaluate, evaluate]
    refine (argument.evaluate_repeats h heffect).bind fun a => ?_
    rw [op.apply_renumber]
    exact Run.repeats_pure ρ s t _
  | .binary op left right, heffect => by
    simp only [hasEffect, Bool.or_eq_false_iff] at heffect
    rw [evaluate, evaluate]
    refine (left.evaluate_repeats h heffect.1).bind fun a =>
      (right.evaluate_repeats h heffect.2).bind fun b => ?_
    rw [op.apply_renumber h.injective]
    exact Run.repeats_pure ρ s t _
  | .logical op left right, heffect => by
    simp only [hasEffect, Bool.or_eq_false_iff] at heffect
    rw [evaluate, evaluate]
    refine (left.evaluate_repeats h heffect.1).bind fun a => ?_
    rw [a.isTruthy_renumber]
    split
    · exact Run.repeats_pure ρ s t a
    · exact right.evaluate_repeats h heffect.2
  | .conditional test consequent alternate, heffect => by
    simp only [hasEffect, Bool.or_eq_false_iff] at heffect
    rw [evaluate, evaluate]
    refine (test.evaluate_repeats h heffect.1.1).bind fun a => ?_
    rw [a.isTruthy_renumber]
    split
    · exact consequent.evaluate_repeats h heffect.1.2
    · exact alternate.evaluate_repeats h heffect.2
  | .call _ _, heffect | .assignment _ _ _, heffect | .update _ _ _, heffect => by cases heffect

end Expression

/-! ## Evaluating again -/

/-- Identities that have been given out stay, and the ones after them move up. -/
def moveUp (made made' i : Nat) : Nat :=
  if i < made then i else i + (made' - made)

theorem moveUp_injective (made made' : Nat) : Function.Injective (moveUp made made') := by
  intro i j h
  unfold moveUp at h
  split at h <;> split at h <;> omega

theorem moveUp_of_le {made made' i : Nat} (hle : made ≤ made') (hi : made ≤ i) :
    made' ≤ moveUp made made' i := by
  rw [moveUp, if_neg (Nat.not_lt.2 hi)]
  omega

theorem Store.Given.renumbers {s t : Store ν} (h : s.Given) (hframes : t.frames = s.frames)
    (hmade : s.made ≤ t.made) : s.Renumbers (moveUp s.made t.made) t where
  injective := moveUp_injective s.made t.made
  frames := hframes
  kept {i name v} hv := Value.renumber_of_forall fun x hx => if_pos (h ⟨i, name, v, hv, hx⟩)
  fresh n := by
    rw [moveUp, if_neg (Nat.not_lt.2 (Nat.le_add_right s.made n))]
    omega

section

variable [Numeric ν]

/-- Both end with the same error, or with values that are told apart by their identities only. -/
inductive Run.EndsAlike (ρ : Nat → Nat) :
    Except (Stop ν) (Value ν) → Except (Stop ν) (Value ν) → Prop
  | value (v : Value ν) : EndsAlike ρ (.ok v) (.ok (v.renumber ρ))
  | error {e e' : Stop ν} (h : e'.message = e.message) : EndsAlike ρ (.error e) (.error e')

theorem Run.endsAlike_renumbered (ρ : Nat → Nat) (r : Except (Stop ν) (Value ν)) :
    EndsAlike ρ r (renumbered ρ r) := by
  cases r with
  | ok v => exact .value v
  | error e => exact .error e.message_renumber

/-- Evaluating the expression gives out so many identities, and does nothing else to the store. -/
structure Expression.Idles (e : Expression ν) (env : Environment) (s : Store ν)
    (r : Except (Stop ν) (Value ν)) (n : Nat) : Prop where
  /-- It ends in this way whatever calls do. -/
  outcome (call : Caller ν) :
    (e.evaluate call env).outcome s = (r, { s with made := s.made + n })
  ends : r ≠ .error .exhausted
  effects (call : Caller ν) : e.effects call env s = []
  /-- It ends alike in all stores with these frames that are to give out other identities. -/
  again (call : Caller ν) : s.Given → ∀ t : Store ν, t.frames = s.frames → s.made ≤ t.made →
    ∃ ρ r', Function.Injective ρ ∧ (∀ i < s.made, ρ i = i) ∧
      (∀ i, s.made ≤ i → t.made ≤ ρ i) ∧
      (e.evaluate call env).outcome t = (r', { t with made := t.made + n }) ∧
      Run.EndsAlike ρ r r'

/-- An expression whose form shows no effect comes to an end, calls nothing and binds nothing, and
can be evaluated again. -/
theorem Expression.idles_of_hasEffect {e : Expression ν} (heffect : e.hasEffect = false)
    (env : Environment) (s : Store ν) : ∃ r n, e.Idles env s r n := by
  -- a caller that gives up is as good as any other, since it is not called
  have hself (call : Caller ν) : (e.evaluate (fun _ _ => throw .exhausted) env).Repeats id s s
      (e.evaluate call env) := e.evaluate_repeats s.renumbers_self heffect
  obtain ⟨r, n, hends, hfirst, -⟩ := hself (fun _ _ => throw .exhausted) 0
  rw [Nat.zero_add] at hfirst
  have houtcome (call : Caller ν) : (e.evaluate call env).outcome s = (r, s.advance n) := by
    obtain ⟨r', n', -, hsame, hcall⟩ := hself call 0
    rw [hfirst, Prod.mk.injEq] at hsame
    obtain ⟨rfl, hstore⟩ := hsame
    rwa [← hstore, Run.renumbered_id] at hcall
  refine ⟨r, n, houtcome, hends, fun call => e.effects_eq_nil_of_hasEffect heffect s, ?_⟩
  intro call hgiven t hframes hmade
  have hrepeats : (e.evaluate call env).Repeats (moveUp s.made t.made) s t (e.evaluate call env) :=
    e.evaluate_repeats (hgiven.renumbers hframes hmade) heffect
  obtain ⟨r', n', -, hsame, hagain⟩ := hrepeats 0
  rw [show s.advance 0 = s from rfl, houtcome call, Prod.mk.injEq] at hsame
  obtain ⟨rfl, hstore⟩ := hsame
  obtain rfl : n = n' := by
    have hcount : s.made + n = s.made + (0 + n') := congrArg Store.made hstore
    omega
  rw [Nat.zero_add] at hagain
  exact ⟨_, _, moveUp_injective s.made t.made, fun i hi => if_pos hi,
    fun i hi => moveUp_of_le hmade hi, hagain, Run.endsAlike_renumbered _ r⟩

end

def onePair : Store (Exact .zero) :=
  ⟨#[Bindings.empty.insert "p" (.pair 0 .null .null)], 1, 0⟩

theorem onePair_given : onePair.Given := by
  rintro x ⟨i, name, v, hv, hx⟩
  cases i with
  | succ i => cases hv
  | zero =>
    rw [show onePair.frame 0 = Bindings.empty.insert "p" (.pair 0 .null .null) from rfl,
      Bindings.find?_insert] at hv
    split at hv
    · cases hv
      obtain rfl | hx | hx := hx
      · decide
      · exact hx.elim
      · exact hx.elim
    · cases hv

/-- `p === p && [p, t => t]` -/
def sameAndPaired : Expression (Exact .zero) :=
  .logical .and (.binary .strictEqual (.identifier "p") (.identifier "p"))
    (.array [.identifier "p", .function ["t"] [.result (some (.identifier "t"))] none])

theorem sameAndPaired_idles :
    sameAndPaired.hasEffect = false ∧ onePair.Given ∧
      ∃ r n, sameAndPaired.Idles .global onePair r n ∧
        ∃ ρ r', (sameAndPaired.evaluate (fun _ _ => throw .exhausted) .global).outcome
          (onePair.advance n) = (r', (onePair.advance n).advance n) ∧ Run.EndsAlike ρ r r' := by
  obtain ⟨r, n, hidles⟩ := Expression.idles_of_hasEffect (e := sameAndPaired) rfl .global onePair
  obtain ⟨ρ, r', -, -, -, hagain, halike⟩ := hidles.again (fun _ _ => throw .exhausted)
    onePair_given (onePair.advance n) rfl (Nat.le_add_right _ _)
  exact ⟨rfl, onePair_given, r, n, hidles, ρ, r', hagain, halike⟩

end Waveform
