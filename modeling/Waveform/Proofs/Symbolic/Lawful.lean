import Waveform.Proofs.Inlining.Boolean
import Waveform.Proofs.Symbolic.Rules

/-!
# Simplification of what is read

Simplifying an expression keeps what it denotes in every lawful reading: names stand for numbers
that are not negative, and operators agree with the folding of literals. Each of the rules is sound
by itself, and the rules are tried from the operands up.
-/

namespace Waveform

variable {M : Mathematics}

theorem Literal.eq_of_same {l m : Literal (Exact M)} (h : l.same m = true) : l = m := by
  cases l with
  | undefined | null => cases m <;> first | rfl | cases h
  | boolean a =>
    cases m with
    | boolean b => exact congrArg _ (beq_iff_eq.1 h)
    | _ => cases h
  | number x =>
    cases m with
    | number y => exact congrArg _ (Exact.eq_of_eq h)
    | _ => cases h
  | string s =>
    cases m with
    | string t => exact congrArg _ (beq_iff_eq.1 h)
    | _ => cases h

namespace Meaning

theorem unary_primitive {op : UnaryOperator} {l : Literal (Exact M)} {d : Meaning M}
    (h : unary op (primitive l) = some d) : d = primitive (op.evaluate l) := by
  cases op with
  | minus | plus =>
    obtain ⟨q, hq, rfl⟩ := Option.map_eq_some_iff.1 h
    rw [asNumber?_eq_some] at hq
    cases hq
    rfl
  | not =>
    obtain ⟨b, hb, rfl⟩ := Option.map_eq_some_iff.1 h
    rw [asBoolean?_eq_some] at hb
    cases hb
    rfl
  | typeOf => cases h

theorem binary_primitives {op : BinaryOperator} {l m : Literal (Exact M)} {d : Meaning M}
    (h : binary op (primitive l) (primitive m) = some d) : d = primitive (op.evaluate l m) := by
  cases hop : op.isEquality with
  | false =>
    obtain ⟨x, y, hx, hy, hxy⟩ := numbers_of_binary h hop
    cases hx
    cases hy
    exact arithmetic_eq hxy
  | true =>
    cases op with
    | strictEqual | strictNotEqual | equal | notEqual =>
      cases h
      rfl
    | _ => cases hop

theorem eq_not_of_unary {op : UnaryOperator} {u : Meaning M} {b : Bool}
    (h : unary op u = some (boolean b)) : op = .not := by
  cases op with
  | not => rfl
  | minus | plus =>
    obtain ⟨q, -, hq⟩ := Option.map_eq_some_iff.1 h
    cases hq
  | typeOf => cases h

theorem isComparison_of_binary {op : BinaryOperator} {u v : Meaning M} {b : Bool}
    (h : binary op u v = some (boolean b)) : op.isComparison = true := by
  cases op with
  | add | subtract | multiply | divide | remainder | exponent =>
    obtain ⟨x, y, -, -, hxy⟩ := numbers_of_binary h rfl
    have := arithmetic_eq hxy
    cases this
  | _ => rfl

end Meaning

/-! ## Lawful readings of expressions -/

/-- What simplification takes for granted. Names stand for numbers that are not negative, leaves of
one shape stand for the same, and operators agree with the folding of literals. -/
structure Semantics.Lawful (S : Semantics M) : Prop where
  literal : ∀ l, S.leaf (.literal l) = some (.primitive l)
  identifier : ∀ name d, S.leaf (.identifier name) = some d → ∃ q, 0 ≤ q ∧ d = .number q
  structured : ∀ e l, Simplify.isStructure e = true → S.leaf e ≠ some (.primitive l)
  assignment : ∀ op target value, S.leaf (.assignment op target value) = none
  same : ∀ a b, a.same b = true → S.leaf a = S.leaf b
  total : ∀ op, op.isTotal = true → S.operate op = Meaning.binary op
  truth : ∀ op u v b, S.operate op u v = some (.boolean b) → op.isComparison = true
  quotient : ∀ u d, S.operate .divide u (.number 1) = some d → d = u
  fold : ∀ op l m d, S.operate op (.primitive l) (.primitive m) = some d →
    d = .primitive (op.evaluate l m)
  compare : ∀ op l c v d, Simplify.compareWithLiteral op l = some c → (∀ m, v ≠ .primitive m) →
    S.operate op (.primitive l) v = some d ∨ S.operate op v (.primitive l) = some d → d = .boolean c

namespace Semantics.Lawful

open Simplify Meaning

variable {S : Semantics M} (hS : S.Lawful) {d : Meaning M} {a b : Expression (Exact M)}

include hS

/-! ### Leaves -/

theorem denote_literal (l : Literal (Exact M)) : S.denote (.literal l) = some (.primitive l) :=
  hS.literal l

mutual

theorem denote_of_same : (a b : Expression (Exact M)) → a.same b = true → S.denote a = S.denote b
  | .unary op a, e, h => by
    cases e with
    | unary op' b =>
      rw [Expression.same, Bool.and_eq_true, beq_iff_eq] at h
      rw [denote, denote, h.1, denote_of_same a b h.2]
    | _ => simp [Expression.same] at h
  | .binary op a b, e, h => by
    cases e with
    | binary op' c d =>
      rw [Expression.same, Bool.and_eq_true, Bool.and_eq_true, beq_iff_eq] at h
      rw [denote, denote, h.1.1, denote_of_same a c h.1.2, denote_of_same b d h.2]
    | _ => simp [Expression.same] at h
  | .logical op a b, e, h => by
    cases e with
    | logical op' c d =>
      rw [Expression.same, Bool.and_eq_true, Bool.and_eq_true, beq_iff_eq] at h
      rw [denote, denote, h.1.1, denote_of_same a c h.1.2, denote_of_same b d h.2,
        isTruth_of_same b d h.2]
    | _ => simp [Expression.same] at h
  | .conditional a b c, g, h => by
    cases g with
    | conditional d e f =>
      rw [Expression.same, Bool.and_eq_true, Bool.and_eq_true] at h
      rw [denote, denote, denote_of_same a d h.1.1, denote_of_same b e h.1.2,
        denote_of_same c f h.2]
    | _ => simp [Expression.same] at h
  | .literal _, b, h | .identifier _, b, h | .builtin _, b, h | .array _, b, h
  | .member _ _, b, h | .call _ _, b, h | .function _ _ _, b, h | .assignment _ _ _, b, h
  | .update _ _ _, b, h => by
    have hleaf := hS.same _ b h
    cases b <;> first | exact hleaf | simp [Expression.same] at h

theorem isTruth_of_same : (a b : Expression (Exact M)) → a.same b = true →
    S.isTruth a = S.isTruth b
  | .logical op a b, e, h => by
    cases e with
    | logical op' c d =>
      rw [Expression.same, Bool.and_eq_true, Bool.and_eq_true] at h
      rw [isTruth, isTruth, isTruth_of_same a c h.1.2, isTruth_of_same b d h.2]
    | _ => simp [Expression.same] at h
  | .conditional a b c, g, h => by
    cases g with
    | conditional d e f =>
      rw [Expression.same, Bool.and_eq_true, Bool.and_eq_true] at h
      rw [isTruth, isTruth, denote_of_same a d h.1.1, isTruth_of_same b e h.1.2,
        isTruth_of_same c f h.2]
    | _ => simp [Expression.same] at h
  | .unary op a, e, h => by
    cases e with
    | unary op' b =>
      rw [Expression.same, Bool.and_eq_true, beq_iff_eq] at h
      rw [isTruth, isTruth, h.1]
    | _ => simp [Expression.same] at h
  | .binary op a b, e, h => by
    cases e with
    | binary op' c d =>
      rw [Expression.same, Bool.and_eq_true, Bool.and_eq_true, beq_iff_eq] at h
      rw [isTruth, isTruth, h.1.1]
    | _ => simp [Expression.same] at h
  | .member _ _, e, h => by
    cases e with
    | member _ _ => rfl
    | _ => simp [Expression.same] at h
  | .literal _, b, h | .identifier _, b, h | .builtin _, b, h | .array _, b, h
  | .call _ _, b, h | .function _ _ _, b, h | .assignment _ _ _, b, h | .update _ _ _, b, h => by
    have hleaf := congrArg (fun d => (d.bind (·.asBoolean?)).isSome) (hS.same _ b h)
    cases b <;> first | exact hleaf | simp [Expression.same] at h

end

theorem denote_structure (h : isStructure a = true) {l : Literal (Exact M)} :
    S.denote a ≠ some (.primitive l) := by
  have hleaf := hS.structured a l h
  cases a with
  | array _ | function _ _ _ | builtin _ => exact hleaf
  | _ => cases h

theorem faithful : Faithful (fun e d => S.denote e = some d) S.operate where
  literal l d := by
    rw [hS.denote_literal, Option.some.injEq, eq_comm]
  identifier name q h := by
    obtain ⟨p, hp, hq⟩ := hS.identifier name _ h
    rwa [number_inj hq]
  unique name d d' h h' := Option.some.inj (h.symm.trans h')
  structured _ _ h := hS.denote_structure h
  binary op a b d := denote_binary
  total := hS.total
  quotient := hS.quotient
  fold := hS.fold
  compare := hS.compare

theorem denote_of_asLiteral? {l : Literal (Exact M)} (h : a.asLiteral? = some l) :
    S.denote a = some (.primitive l) :=
  hS.faithful.reads_of_asLiteral? h

/-! ### Rules for operators -/

theorem denote_unary_rule {op : UnaryOperator} (h : S.denote (.unary op a) = some d) :
    S.denote (Simplify.unary op a) = some d := by
  unfold Simplify.unary
  split
  · next l hl =>
    obtain ⟨u, hu, h⟩ := denote_unary.1 h
    rw [hS.denote_of_asLiteral? hl] at hu
    cases hu
    rw [hS.denote_literal, unary_primitive h]
  · exact h

/-! ### Truth values -/

theorem isTruth_of_denote : (e : Expression (Exact M)) → {u : Bool} →
    S.denote e = some (.boolean u) → S.isTruth e = true
  | .unary op a, u, h => by
    obtain ⟨v, -, h⟩ := denote_unary.1 h
    rw [isTruth, eq_not_of_unary h]
    rfl
  | .binary op a b, u, h => by
    obtain ⟨v, w, -, -, h⟩ := denote_binary.1 h
    rw [isTruth, hS.truth op v w u h]
  | .logical op a b, u, h => by
    obtain ⟨v, hv, ⟨-, hb, -⟩ | ⟨-, w, hw, -⟩⟩ := denote_logical.1 h
    · exact isTruth_logical.2 ⟨isTruth_of_denote a hv, hb⟩
    · exact isTruth_logical.2 ⟨isTruth_of_denote a hv, isTruth_of_denote b hw⟩
  | .conditional t a b, u, h => by
    obtain ⟨w, hw, h⟩ := denote_conditional.1 h
    rw [isTruth_conditional, hw]
    cases w with
    | true => exact ⟨fun _ => isTruth_of_denote a h, fun hne => absurd rfl hne⟩
    | false => exact ⟨fun hne => absurd rfl hne, fun _ => isTruth_of_denote b h⟩
  | .member _ _, _, _ => rfl
  | .literal _, _, h | .identifier _, _, h | .builtin _, _, h | .array _, _, h | .call _ _, _, h
  | .function _ _ _, _, h | .assignment _ _ _, _, h | .update _ _ _, _, h =>
    Option.isSome_iff_exists.2 ⟨_, bind_asBoolean?.2 h⟩

theorem isTruth_of_isBoolean : (e : Expression (Exact M)) → e.isBoolean = true →
    S.isTruth e = true
  | .literal (.boolean u), _ => hS.isTruth_of_denote (u := u) _ (hS.denote_literal _)
  | .unary _ _, h | .binary _ _ _, h => h
  | .logical op a b, h => by
    rw [Expression.isBoolean, Bool.and_eq_true] at h
    exact isTruth_logical.2 ⟨isTruth_of_isBoolean a h.1, isTruth_of_isBoolean b h.2⟩
  | .conditional t a b, h => by
    rw [Expression.isBoolean, Bool.and_eq_true] at h
    exact isTruth_conditional.2
      ⟨fun _ => isTruth_of_isBoolean a h.1, fun _ => isTruth_of_isBoolean b h.2⟩

theorem exists_boolean_of_isTruth {l : Literal (Exact M)} (h : S.isTruth a = true)
    (hl : a.asLiteral? = some l) : ∃ w, l = .boolean w := by
  cases a with
  | literal m =>
    cases hl
    change ((S.leaf (.literal l)).bind (·.asBoolean?)).isSome = true at h
    rw [hS.literal] at h
    cases l with
    | boolean w => exact ⟨w, rfl⟩
    | _ => cases h
  | _ => cases hl

/-! ### Rules for logical operators and choices -/

theorem denote_logical_rule {op : LogicalOperator} (h : S.denote (.logical op a b) = some d) :
    S.denote (Simplify.logical op a b) = some d := by
  obtain ⟨u, hu, hcases⟩ := denote_logical.1 h
  unfold Simplify.logical
  split
  · next l hl =>
    rw [hS.denote_of_asLiteral? hl] at hu
    cases hu
    change S.denote (if op.decides u = true then a else b) = some d
    obtain ⟨hdecides, -, rfl⟩ | ⟨hdecides, v, hv, rfl⟩ := hcases
    · rw [if_pos hdecides, hS.denote_of_asLiteral? hl]
      rfl
    · rw [hdecides, if_neg Bool.false_ne_true, hv]
  · split
    · next r hr =>
      have htruth : S.isTruth b = true := by
        rcases hcases with ⟨-, htruth, -⟩ | ⟨-, v, hv, -⟩
        · exact htruth
        · exact hS.isTruth_of_denote b hv
      obtain ⟨w, rfl⟩ := hS.exists_boolean_of_isTruth htruth hr
      have hb : S.denote b = some (.boolean w) := hS.denote_of_asLiteral? hr
      change S.denote (if op.decides w = true then b else a) = some d
      obtain ⟨hdecides, -, rfl⟩ | ⟨hdecides, v, hv, rfl⟩ := hcases
      · cases op <;> cases u <;> cases hdecides <;> cases w <;> first | exact hb | exact hu
      · rw [hb] at hv
        cases hv
        cases op <;> cases u <;> cases hdecides <;> cases w <;> first | exact hb | exact hu
    · split
      · next upper lower hupper hlower =>
        split
        · next hexcludes =>
          rw [Expression.boolean, hS.denote_literal]
          obtain ⟨hdecides, -, rfl⟩ | ⟨hdecides, v, hv, rfl⟩ := hcases
          · cases u with
            | true => cases hdecides
            | false => rfl
          · cases u with
            | false => cases hdecides
            | true =>
              rw [hS.faithful.eq_false_of_excludes hexcludes hupper hlower hu hv]
              rfl
        · exact h
      · exact h

theorem isTruth_logical_rule {op : LogicalOperator} (ha : S.isTruth a = true)
    (hb : S.isTruth b = true) : S.isTruth (Simplify.logical op a b) = true := by
  unfold Simplify.logical
  split
  · unfold LogicalOperator.select
    split
    · exact ha
    · exact hb
  · split
    · split
      · exact hb
      · exact ha
    · split
      · split
        · exact hS.isTruth_of_denote (u := false) _ (hS.denote_literal _)
        · exact isTruth_logical.2 ⟨ha, hb⟩
      · exact isTruth_logical.2 ⟨ha, hb⟩

theorem denote_whenTrue {t : Expression (Exact M)} (ht : S.denote t = some (.boolean true)) :
    (e : Expression (Exact M)) → S.denote (whenTrue t e) = S.denote e
  | .conditional inner a b => by
    rw [whenTrue]
    split
    · next hsame =>
      rw [denote_whenTrue ht a, denote, hS.denote_of_same _ _ hsame, ht]
      rfl
    · rfl
  | .literal _ | .identifier _ | .builtin _ | .array _ | .member _ _ | .unary _ _ | .binary _ _ _
  | .logical _ _ _ | .call _ _ | .function _ _ _ | .assignment _ _ _ | .update _ _ _ => rfl

theorem denote_whenFalse {t : Expression (Exact M)} (ht : S.denote t = some (.boolean false)) :
    (e : Expression (Exact M)) → S.denote (whenFalse t e) = S.denote e
  | .conditional inner a b => by
    rw [whenFalse]
    split
    · next hsame =>
      rw [denote_whenFalse ht b, denote, hS.denote_of_same _ _ hsame, ht]
      rfl
    · rfl
  | .literal _ | .identifier _ | .builtin _ | .array _ | .member _ _ | .unary _ _ | .binary _ _ _
  | .logical _ _ _ | .call _ _ | .function _ _ _ | .assignment _ _ _ | .update _ _ _ => rfl

theorem denote_decideInner {t e : Expression (Exact M)} (ht : S.denote t = some (.boolean true))
    (h : S.denote e = some d) : S.denote (decideInner t e) = some d := by
  unfold decideInner
  split
  · next inner a b =>
    obtain ⟨u, hu, hd⟩ := denote_conditional.1 h
    split
    · next l hl =>
      have hand : S.denote (.logical .and t inner) = some (.boolean u) :=
        denote_logical.2 ⟨true, ht, .inr ⟨rfl, u, hu, rfl⟩⟩
      have hlogical := hS.denote_logical_rule hand
      rw [hS.denote_of_asLiteral? hl] at hlogical
      cases hlogical
      cases u <;> exact hd
    · exact h
  · exact h

theorem denote_conditional_rule {t : Expression (Exact M)}
    (h : S.denote (.conditional t a b) = some d) :
    S.denote (Simplify.conditional t a b) = some d := by
  obtain ⟨u, hu, hd⟩ := denote_conditional.1 h
  unfold Simplify.conditional
  split
  · next l hl =>
    rw [hS.denote_of_asLiteral? hl] at hu
    cases hu
    cases u <;> exact hd
  · split
    · next hsame =>
      rw [Bool.and_eq_true] at hsame
      cases u with
      | true => exact hd
      | false => exact (hS.denote_of_same _ _ hsame.1).trans hd
    · refine denote_conditional.2 ⟨u, hu, ?_⟩
      cases u with
      | true => exact hS.denote_decideInner hu ((hS.denote_whenTrue hu a).trans hd)
      | false => exact (hS.denote_whenFalse hu b).trans hd

/-- Where both tests are joined to a literal, the second does not hold if the first may. -/
theorem ne_true_of_asLiteral? {t inner : Expression (Exact M)} {l : Literal (Exact M)}
    (hl : (Simplify.logical .and t inner).asLiteral? = some l) (ht : t.asLiteral? = none)
    (hfalse : S.denote t ≠ some (.boolean false)) :
    l.isTruthy = false ∧ S.denote inner ≠ some (.boolean true) := by
  unfold Simplify.logical at hl
  rw [ht] at hl
  dsimp only at hl
  split at hl
  · next r hr =>
    split at hl
    · next hdecides =>
      obtain rfl := Option.some.inj (hr.symm.trans hl)
      refine ⟨by simpa [LogicalOperator.decides] using hdecides, fun htrue => ?_⟩
      rw [hS.denote_of_asLiteral? hr] at htrue
      cases htrue
      cases hdecides
    · rw [ht] at hl
      cases hl
  · split at hl
    · next upper lower hupper hlower =>
      split at hl
      · next hexcludes =>
        cases hl
        refine ⟨rfl, fun htrue => ?_⟩
        obtain ⟨w, hw⟩ := hS.faithful.boolean_of_excludes hexcludes hupper hlower htrue
        cases w with
        | false => exact hfalse hw
        | true => cases hS.faithful.eq_false_of_excludes hexcludes hupper hlower hw htrue
      · cases hl
    · cases hl

theorem isTruth_whenTrue {t : Expression (Exact M)} (ht : S.denote t ≠ some (.boolean false)) :
    (e : Expression (Exact M)) → S.isTruth e = true → S.isTruth (whenTrue t e) = true
  | .conditional inner a b => by
    intro h
    rw [whenTrue]
    split
    · next hsame =>
      rw [← hS.denote_of_same _ _ hsame] at ht
      exact isTruth_whenTrue (hS.denote_of_same _ _ hsame ▸ ht) a ((isTruth_conditional.1 h).1 ht)
    · exact h
  | .literal _ | .identifier _ | .builtin _ | .array _ | .member _ _ | .unary _ _ | .binary _ _ _
  | .logical _ _ _ | .call _ _ | .function _ _ _ | .assignment _ _ _ | .update _ _ _ => id

theorem isTruth_whenFalse {t : Expression (Exact M)} (ht : S.denote t ≠ some (.boolean true)) :
    (e : Expression (Exact M)) → S.isTruth e = true → S.isTruth (whenFalse t e) = true
  | .conditional inner a b => by
    intro h
    rw [whenFalse]
    split
    · next hsame =>
      rw [← hS.denote_of_same _ _ hsame] at ht
      exact isTruth_whenFalse (hS.denote_of_same _ _ hsame ▸ ht) b ((isTruth_conditional.1 h).2 ht)
    · exact h
  | .literal _ | .identifier _ | .builtin _ | .array _ | .member _ _ | .unary _ _ | .binary _ _ _
  | .logical _ _ _ | .call _ _ | .function _ _ _ | .assignment _ _ _ | .update _ _ _ => id

theorem isTruth_decideInner {t e : Expression (Exact M)} (ht : t.asLiteral? = none)
    (hfalse : S.denote t ≠ some (.boolean false)) (h : S.isTruth e = true) :
    S.isTruth (decideInner t e) = true := by
  unfold decideInner
  split
  · split
    · next l hl =>
      obtain ⟨hl, hinner⟩ := hS.ne_true_of_asLiteral? hl ht hfalse
      rw [hl]
      exact (isTruth_conditional.1 h).2 hinner
    · exact h
  · exact h

theorem isTruth_conditional_rule {t : Expression (Exact M)}
    (h : S.isTruth (.conditional t a b) = true) :
    S.isTruth (Simplify.conditional t a b) = true := by
  obtain ⟨ha, hb⟩ := isTruth_conditional.1 h
  unfold Simplify.conditional
  split
  · next l hl =>
    rw [hS.denote_of_asLiteral? hl] at ha hb
    split
    · next htruthy => exact ha fun hfalse => by cases hfalse; cases htruthy
    · next htruthy => exact hb fun htrue => by cases htrue; exact htruthy rfl
  · next ht =>
    split
    · next hsame =>
      rw [Bool.and_eq_true] at hsame
      by_cases hfalse : S.denote t = some (.boolean false)
      · rw [hS.isTruth_of_same _ _ hsame.1]
        exact hb fun htrue => by
          rw [hfalse] at htrue
          cases htrue
      · exact ha hfalse
    · refine isTruth_conditional.2 ⟨fun hfalse => ?_, fun htrue => ?_⟩
      · exact hS.isTruth_decideInner ht hfalse (hS.isTruth_whenTrue hfalse a (ha hfalse))
      · exact hS.isTruth_whenFalse htrue b (hb htrue)

/-- What an expression denotes is kept, and so is what is known of it. -/
theorem upTo_keeps (depth : Nat) (e : Expression (Exact M)) :
    (∀ d, S.denote e = some d → S.denote (upTo depth e) = some d) ∧
      (S.isTruth e = true → S.isTruth (upTo depth e) = true) := by
  induction depth generalizing e with
  | zero => exact ⟨fun _ => id, id⟩
  | succ depth ih =>
    cases e with
    | unary op a =>
      refine ⟨fun d h => ?_, fun h => hS.isTruth_of_isBoolean _ (isBoolean_upTo (depth + 1) _ h)⟩
      obtain ⟨u, hu, hd⟩ := denote_unary.1 h
      exact hS.denote_unary_rule (denote_unary.2 ⟨u, (ih a).1 u hu, hd⟩)
    | binary op a b =>
      refine ⟨fun d h => ?_, fun h => hS.isTruth_of_isBoolean _ (isBoolean_upTo (depth + 1) _ h)⟩
      obtain ⟨u, v, hu, hv, hd⟩ := denote_binary.1 h
      exact hS.faithful.reads_binary_rule (fun _ _ _ _ => (ih _).1)
        (denote_binary.2 ⟨u, v, (ih a).1 u hu, (ih b).1 v hv, hd⟩)
    | logical op a b =>
      refine ⟨fun d h => ?_, fun h => ?_⟩
      · obtain ⟨u, hu, hcases⟩ := denote_logical.1 h
        refine hS.denote_logical_rule (denote_logical.2 ⟨u, (ih a).1 _ hu, ?_⟩)
        obtain ⟨hdecides, htruth, rfl⟩ | ⟨hdecides, v, hv, rfl⟩ := hcases
        · exact .inl ⟨hdecides, (ih b).2 htruth, rfl⟩
        · exact .inr ⟨hdecides, v, (ih b).1 _ hv, rfl⟩
      · obtain ⟨ha, hb⟩ := isTruth_logical.1 h
        exact hS.isTruth_logical_rule ((ih a).2 ha) ((ih b).2 hb)
    | conditional t a b =>
      refine ⟨fun d h => ?_, fun h => ?_⟩
      · obtain ⟨u, hu, hd⟩ := denote_conditional.1 h
        refine hS.denote_conditional_rule (denote_conditional.2 ⟨u, (ih t).1 _ hu, ?_⟩)
        cases u with
        | true => exact (ih a).1 d hd
        | false => exact (ih b).1 d hd
      · obtain ⟨ha, hb⟩ := isTruth_conditional.1 h
        refine hS.isTruth_conditional_rule (isTruth_conditional.2 ⟨fun hne => ?_, fun hne => ?_⟩)
        · exact (ih a).2 (ha (mt ((ih t).1 _) hne))
        · exact (ih b).2 (hb (mt ((ih t).1 _) hne))
    | assignment op target value =>
      have hleaf : S.denote (.assignment op target value) = none := hS.assignment op target value
      refine ⟨fun d h => ?_, fun h => ?_⟩
      · rw [hleaf] at h
        cases h
      · change ((S.denote (.assignment op target value)).bind (·.asBoolean?)).isSome = true at h
        rw [hleaf] at h
        cases h
    | literal _ | identifier _ | builtin _ | array _ | member _ _ | call _ _ | function _ _ _
    | update _ _ _ => exact ⟨fun _ => id, id⟩

/-- Simplifying an expression keeps what it denotes. -/
theorem denote_simplify {e : Expression (Exact M)} (h : S.denote e = some d) :
    S.denote e.simplify = some d :=
  (hS.upTo_keeps e.reach e).1 d h

theorem isTruth_simplify {e : Expression (Exact M)} (h : S.isTruth e = true) :
    S.isTruth e.simplify = true :=
  (hS.upTo_keeps e.reach e).2 h

end Semantics.Lawful

end Waveform
