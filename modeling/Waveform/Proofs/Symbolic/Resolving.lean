import Mathlib.Logic.Function.Basic
import Waveform.Proofs.Inlining.Frames
import Waveform.Proofs.Symbolic.Literals

/-!
# Inlining of arithmetic

An expression of literals, names and operators is inlined without a change of the scopes: its names
are replaced by what they stand for, and operators are simplified from the operands up. The result
denotes what the expression denotes where its names stand for what their replacements denote, and
evaluation gives what is denoted.
-/

namespace Waveform

variable {ν : Type}

/-- Whether the expression has no other parts than literals, names and operators. -/
def Expression.isArithmetic : Expression ν → Bool
  | .literal _ | .identifier _ => true
  | .unary _ argument => argument.isArithmetic
  | .binary _ left right | .logical _ left right => left.isArithmetic && right.isArithmetic
  | .conditional test consequent alternate =>
    test.isArithmetic && consequent.isArithmetic && alternate.isArithmetic
  | _ => false

def Expression.isOver (names : List String) : Expression ν → Bool
  | .literal _ => true
  | .identifier name => names.contains name
  | .unary _ argument => argument.isOver names
  | .binary _ left right | .logical _ left right => left.isOver names && right.isOver names
  | .conditional test consequent alternate =>
    test.isOver names && consequent.isOver names && alternate.isOver names
  | _ => false

theorem Expression.isArithmetic_of_isOver {names : List String} (e : Expression ν)
    (h : e.isOver names = true) : e.isArithmetic = true := by
  fun_induction e.isOver names with grind [isArithmetic]

theorem Expression.mem_of_isOver {names : List String} {name : String} (e : Expression ν)
    (h : e.isOver names = true) (hname : e.references name = true) : name ∈ names := by
  fun_induction e.isOver names with grind [references]

variable [Numeric ν]

/-- Replaces names and simplifies operators from the operands up. An operand that a literal on the
left rules out is dropped. -/
def Expression.resolve (μ : String → Expression ν) : Expression ν → Expression ν
  | .identifier name => μ name
  | .unary op argument => (Expression.unary op (argument.resolve μ)).simplify
  | .binary op left right =>
    (Expression.binary op (left.resolve μ) (right.resolve μ)).simplify
  | .logical op left right =>
    match (left.resolve μ).asLiteral? with
    | some l => if op.decides l.isTruthy then left.resolve μ else right.resolve μ
    | none => (Expression.logical op (left.resolve μ) (right.resolve μ)).simplify
  | .conditional test consequent alternate =>
    match (test.resolve μ).asLiteral? with
    | some l => if l.isTruthy then consequent.resolve μ else alternate.resolve μ
    | none =>
      (Expression.conditional (test.resolve μ) (consequent.resolve μ)
        (alternate.resolve μ)).simplify
  | e => e

/-- Every name of the expression can be read, and stands for the given expression. -/
def Scopes.Resolves (σ : Scopes ν) (scope : Nat) (e : Expression ν) (μ : String → Expression ν) :
    Prop :=
  ∀ name, e.references name = true → (Inlining.read scope name).run σ = .ok (μ name, σ)

section

variable {residual : List Builtin} {reduce : Reducer ν} {scope : Nat} {σ : Scopes ν}
  {μ : String → Expression ν}

open Inlining

theorem Expression.inline_of_isArithmetic (floors : Floors) :
    (e : Expression ν) → e.isArithmetic = true → σ.Resolves scope e μ →
      (e.inline residual reduce floors scope).run σ = .ok (e.resolve μ, σ)
  | .literal l, _, _ => by
    rw [inline]
    rfl
  | .identifier name, _, hσ => by
    rw [inline]
    exact hσ name (beq_self_eq_true name)
  | .unary op a, h, hσ => by
    rw [inline, run_bind_of_ok (inline_of_isArithmetic floors a h hσ)]
    rfl
  | .binary op a b, h, hσ => by
    obtain ⟨ha, hb⟩ := Bool.and_eq_true_iff.1 h
    have ha' := inline_of_isArithmetic floors a ha fun name hname =>
      hσ name (by rw [references, hname, Bool.true_or])
    have hb' := inline_of_isArithmetic floors b hb fun name hname =>
      hσ name (by rw [references, hname, Bool.or_true])
    rw [inline, run_bind_of_ok ha', run_bind_of_ok hb']
    rfl
  | .logical op a b, h, hσ => by
    obtain ⟨ha, hb⟩ := Bool.and_eq_true_iff.1 h
    have ha' := inline_of_isArithmetic floors a ha fun name hname =>
      hσ name (by rw [references, hname, Bool.true_or])
    have hb' (floors : Floors) := inline_of_isArithmetic floors b hb fun name hname =>
      hσ name (by rw [references, hname, Bool.or_true])
    rw [inline, run_bind_of_ok ha', resolve]
    cases (a.resolve μ).asLiteral? with
    | some l =>
      dsimp only
      split
      · rfl
      · exact hb' floors
    | none =>
      dsimp only
      rw [run_bind_of_ok (branching_ok.2 (hb' _))]
      rfl
  | .conditional t a b, h, hσ => by
    obtain ⟨hta, hb⟩ := Bool.and_eq_true_iff.1 h
    obtain ⟨ht, ha⟩ := Bool.and_eq_true_iff.1 hta
    have ht' := inline_of_isArithmetic floors t ht fun name hname =>
      hσ name (by rw [references, hname, Bool.true_or, Bool.true_or])
    have ha' (floors : Floors) := inline_of_isArithmetic floors a ha fun name hname =>
      hσ name (by rw [references, hname, Bool.or_true, Bool.true_or])
    have hb' (floors : Floors) := inline_of_isArithmetic floors b hb fun name hname =>
      hσ name (by rw [references, hname, Bool.or_true])
    rw [inline, run_bind_of_ok ht', resolve]
    cases (t.resolve μ).asLiteral? with
    | some l =>
      dsimp only
      split
      · exact ha' floors
      · exact hb' floors
    | none =>
      dsimp only
      rw [run_bind_of_ok (branching_ok.2 (ha' _)), run_bind_of_ok (branching_ok.2 (hb' _))]
      rfl

end

/-! ## What arithmetic denotes -/

variable {M : Mathematics}

def Valuation.names (ρ : Valuation) : Literals M :=
  fun name => (ρ name).map fun q => .number (.of q)

/-- Names stand for literals, and every operator comes to what evaluation makes of two literals.
Arithmetic and comparisons ask for numbers. -/
def Semantics.ofNames (ν : Literals M) : Semantics M where
  leaf
    | .literal l => some (.primitive l)
    | .identifier name => (ν name).map .primitive
    | _ => none
  operate := Literals.operate

namespace Semantics

open Simplify

theorem leaf_ofNames_of_same (ν : Literals M) : (a b : Expression (Exact M)) → a.same b = true →
    (ofNames ν).leaf a = (ofNames ν).leaf b
  | .literal l, b, h => by
    cases b with
    | literal m =>
      rw [Expression.same] at h
      rw [Literal.eq_of_same h]
    | _ => simp [Expression.same] at h
  | .identifier n, b, h => by
    cases b with
    | identifier m =>
      rw [Expression.same, beq_iff_eq] at h
      rw [h]
    | _ => simp [Expression.same] at h
  | .builtin _, b, h | .array _, b, h | .member _ _, b, h | .unary _ _, b, h | .binary _ _ _, b, h
  | .logical _ _ _, b, h | .conditional _ _ _, b, h | .call _ _, b, h | .function _ _ _, b, h
  | .assignment _ _ _, b, h | .update _ _ _, b, h => by
    cases b <;> first | rfl | simp [Expression.same] at h

theorem lawful_ofNames {ρ : Valuation} (hρ : ∀ name q, ρ name = some q → 0 ≤ q) :
    (ofNames ρ.names : Semantics M).Lawful := by
  have hnames (name : String) (l : Literal (Exact M)) (h : ρ.names name = some l) :
      ∃ q, 0 ≤ q ∧ l = .number (.of q) := by
    obtain ⟨q, hq, rfl⟩ := Option.map_eq_some_iff.1 h
    exact ⟨q, hρ name q hq, rfl⟩
  have hfaithful := Literals.faithful (M := M) (ρ := ρ.names) fun name q h => by
    obtain ⟨p, hp, hq⟩ := hnames name _ h
    rwa [Exact.of_inj (Literal.number.inj hq)]
  exact {
    literal := fun l => rfl
    identifier := fun name d h => by
      obtain ⟨l, hl, rfl⟩ := Option.map_eq_some_iff.1 h
      obtain ⟨q, hq, rfl⟩ := hnames name l hl
      exact ⟨q, hq, rfl⟩
    structured := fun e l h hl => by
      cases e with
      | array _ | function _ _ _ | builtin _ => cases hl
      | _ => cases h
    assignment := fun op target value => rfl
    same := leaf_ofNames_of_same ρ.names
    total := hfaithful.total
    truth := fun op u v b h => Literals.isComparison_of_operate h
    quotient := hfaithful.quotient
    fold := hfaithful.fold
    compare := hfaithful.compare }

end Semantics

/-- Names stand for what their replacements denote. -/
def Valuation.Denotes (ρ : Valuation) (ν : Literals M) (μ : String → Expression (Exact M)) : Prop :=
  ∀ name l, ν name = some l → (Semantics.ofNames ρ.names).denote (μ name) = some (.primitive l)

namespace Expression

variable {ν : Literals M} {d : Meaning M} {ρ : Valuation} {μ : String → Expression (Exact M)}

open Semantics (ofNames lawful_ofNames)

/-- What is denoted is a primitive, and evaluation gives it without a change of the store. -/
theorem evaluate_of_denote (call : Caller (Exact M)) {env : Environment} {s : Store (Exact M)}
    (hs : ν.HoldsIn s env) :
    (e : Expression (Exact M)) → {d : Meaning M} → (ofNames ν).denote e = some d →
      ∃ l, d = .primitive l ∧ (e.evaluate call env).outcome s = (.ok (.primitive l), s)
  | .literal l, d, h => by
    cases h
    exact ⟨l, rfl, rfl⟩
  | .identifier name, d, h => by
    obtain ⟨l, hl, rfl⟩ := Option.map_eq_some_iff.1 h
    exact ⟨l, rfl, Run.outcome_read_of_lookup (hs name l hl)⟩
  | .unary op a, d, h => by
    obtain ⟨u, hu, hd⟩ := Semantics.denote_unary.1 h
    obtain ⟨l, rfl, ha⟩ := evaluate_of_denote call hs a hu
    refine ⟨op.evaluate l, Meaning.unary_primitive hd, Run.bind_ok.2 ⟨_, s, ha, ?_⟩⟩
    cases op <;> rfl
  | .binary op a b, d, h => by
    obtain ⟨u, v, hu, hv, hd⟩ := Semantics.denote_binary.1 h
    obtain ⟨l, rfl, ha⟩ := evaluate_of_denote call hs a hu
    obtain ⟨m, rfl, hb⟩ := evaluate_of_denote call hs b hv
    change Literals.operate op (.primitive l) (.primitive m) = some d at hd
    obtain ⟨_, _, r, ⟨⟩, ⟨⟩, rfl, hr⟩ := Literals.operate_eq_some.1 hd
    obtain ⟨-, ⟨⟩⟩ := Option.ite_none_right_eq_some.1 hr
    refine ⟨_, rfl, Run.bind_ok.2 ⟨_, s, ha, Run.bind_ok.2 ⟨_, s, hb, ?_⟩⟩⟩
    cases op <;> rfl
  | .logical op a b, d, h => by
    obtain ⟨u, hu, hcases⟩ := Semantics.denote_logical.1 h
    obtain ⟨l, hl, ha⟩ := evaluate_of_denote call hs a hu
    cases hl
    have hlogical : ((logical op a b).evaluate call env).outcome s =
        (if op.decides u = true then pure (.primitive (.boolean u)) else b.evaluate call env :
          Run (Exact M) (Value (Exact M))).outcome s := by
      rw [evaluate, Run.outcome_bind, ha]
      rfl
    rw [hlogical]
    obtain ⟨hdecides, -, rfl⟩ | ⟨hdecides, v, hv, rfl⟩ := hcases
    · rw [if_pos hdecides]
      exact ⟨_, rfl, rfl⟩
    · rw [hdecides, if_neg Bool.false_ne_true]
      exact evaluate_of_denote call hs b hv
  | .conditional t a b, d, h => by
    obtain ⟨u, hu, hd⟩ := Semantics.denote_conditional.1 h
    obtain ⟨l, hl, ht⟩ := evaluate_of_denote call hs t hu
    cases hl
    have hconditional : ((conditional t a b).evaluate call env).outcome s =
        (if u = true then a.evaluate call env else b.evaluate call env :
          Run (Exact M) (Value (Exact M))).outcome s := by
      rw [evaluate, Run.outcome_bind, ht]
      rfl
    rw [hconditional]
    cases u with
    | true => exact evaluate_of_denote call hs a hd
    | false => exact evaluate_of_denote call hs b hd
  | .builtin _, d, h | .array _, d, h | .member _ _, d, h | .call _ _, d, h
  | .function _ _ _, d, h | .assignment _ _ _, d, h | .update _ _ _, d, h => by cases h

theorem denote_asLiteral? {S : Semantics M} (hS : S.Lawful) {e : Expression (Exact M)}
    {l m : Literal (Exact M)} (h : e.asLiteral? = some l)
    (hm : S.denote e = some (.primitive m)) : l = m := by
  rw [hS.denote_of_asLiteral? h] at hm
  exact Meaning.primitive.inj (Option.some.inj hm)

/-- What arithmetic denotes is kept where its names are replaced by what denotes the same, and so is
what is known of it. -/
theorem resolve_keeps (hρ : ∀ name q, ρ name = some q → 0 ≤ q) (hμ : ρ.Denotes ν μ) :
    (e : Expression (Exact M)) →
      (∀ d, (ofNames ν).denote e = some d → (ofNames ρ.names).denote (e.resolve μ) = some d) ∧
        ((ofNames ν).isTruth e = true → (ofNames ρ.names).isTruth (e.resolve μ) = true)
  | .literal l => ⟨fun d h => h, fun h => h⟩
  | .identifier name => by
    have hdenote d (h : (ofNames ν).denote (.identifier name) = some d) :
        (ofNames ρ.names).denote (μ name) = some d := by
      obtain ⟨l, hl, rfl⟩ := Option.map_eq_some_iff.1 h
      exact hμ name l hl
    refine ⟨hdenote, fun h => ?_⟩
    obtain ⟨b, hb⟩ := Option.isSome_iff_exists.1 h
    exact (lawful_ofNames hρ).isTruth_of_denote _ (hdenote _ (Semantics.bind_asBoolean?.1 hb))
  | .unary op a => by
    have hS := lawful_ofNames (M := M) hρ
    refine ⟨fun d h => ?_, fun h => hS.isTruth_simplify h⟩
    obtain ⟨u, hu, hd⟩ := Semantics.denote_unary.1 h
    exact hS.denote_simplify (Semantics.denote_unary.2 ⟨u, (resolve_keeps hρ hμ a).1 u hu, hd⟩)
  | .binary op a b => by
    have hS := lawful_ofNames (M := M) hρ
    refine ⟨fun d h => ?_, fun h => hS.isTruth_simplify h⟩
    obtain ⟨u, v, hu, hv, hd⟩ := Semantics.denote_binary.1 h
    have ha := (resolve_keeps hρ hμ a).1 u hu
    have hb := (resolve_keeps hρ hμ b).1 v hv
    exact hS.denote_simplify (Semantics.denote_binary.2 ⟨u, v, ha, hb, hd⟩)
  | .logical op a b => by
    have hS := lawful_ofNames (M := M) hρ
    obtain ⟨ha, hatruth⟩ := resolve_keeps hρ hμ a
    obtain ⟨hb, hbtruth⟩ := resolve_keeps hρ hμ b
    refine ⟨fun d h => ?_, fun h => ?_⟩
    · obtain ⟨u, hu, hcases⟩ := Semantics.denote_logical.1 h
      have hcases' : op.decides u = true ∧ (ofNames ρ.names).isTruth (b.resolve μ) = true ∧
          d = .boolean u ∨ op.decides u = false ∧
            ∃ v, (ofNames ρ.names).denote (b.resolve μ) = some (.boolean v) ∧ d = .boolean v := by
        refine hcases.imp (And.imp_right (And.imp_left hbtruth)) (And.imp_right ?_)
        rintro ⟨v, hv, hd⟩
        exact ⟨v, hb _ hv, hd⟩
      rw [resolve]
      split
      · next l hl =>
        obtain rfl : l = .boolean u := denote_asLiteral? hS hl (ha _ hu)
        change (ofNames ρ.names).denote (if op.decides u = true then _ else _) = _
        obtain ⟨hdecides, -, rfl⟩ | ⟨hdecides, v, hv, rfl⟩ := hcases'
        · rw [if_pos hdecides, ha _ hu]
        · rw [hdecides, if_neg Bool.false_ne_true, hv]
      · exact hS.denote_simplify (Semantics.denote_logical.2 ⟨u, ha _ hu, hcases'⟩)
    · obtain ⟨ha', hb'⟩ := Semantics.isTruth_logical.1 h
      rw [resolve]
      split
      · split
        · exact hatruth ha'
        · exact hbtruth hb'
      · exact hS.isTruth_simplify (Semantics.isTruth_logical.2 ⟨hatruth ha', hbtruth hb'⟩)
  | .conditional t a b => by
    have hS := lawful_ofNames (M := M) hρ
    have ht := (resolve_keeps hρ hμ t).1
    obtain ⟨ha, hatruth⟩ := resolve_keeps hρ hμ a
    obtain ⟨hb, hbtruth⟩ := resolve_keeps hρ hμ b
    refine ⟨fun d h => ?_, fun h => ?_⟩
    · obtain ⟨u, hu, hd⟩ := Semantics.denote_conditional.1 h
      have hd' : (if u then (ofNames ρ.names).denote (a.resolve μ)
          else (ofNames ρ.names).denote (b.resolve μ)) = some d := by
        cases u with
        | true => exact ha d hd
        | false => exact hb d hd
      rw [resolve]
      split
      · next l hl =>
        obtain rfl : l = .boolean u := denote_asLiteral? hS hl (ht _ hu)
        cases u <;> exact hd'
      · exact hS.denote_simplify (Semantics.denote_conditional.2 ⟨u, ht _ hu, hd'⟩)
    · obtain ⟨ha', hb'⟩ := Semantics.isTruth_conditional.1 h
      rw [resolve]
      split
      · next l hl =>
        have hknown {u : Bool} (hu : (ofNames ν).denote t = some (.boolean u)) :
            l.isTruthy = u := by
          rw [denote_asLiteral? hS hl (ht _ hu)]
          rfl
        split
        · next htruthy =>
          exact hatruth (ha' fun hfalse => by rw [hknown hfalse] at htruthy; cases htruthy)
        · next htruthy => exact hbtruth (hb' fun htrue => htruthy (hknown htrue))
      · exact hS.isTruth_simplify (Semantics.isTruth_conditional.2
          ⟨fun hne => hatruth (ha' (mt (ht _) hne)), fun hne => hbtruth (hb' (mt (ht _) hne))⟩)
  | .member _ _ => ⟨nofun, fun _ => rfl⟩
  | .builtin _ | .array _ | .call _ _ | .function _ _ _ | .assignment _ _ _ | .update _ _ _ =>
    ⟨nofun, nofun⟩

/-- Arithmetic whose names stand for what their replacements denote denotes what it resolves to. -/
theorem denote_resolve (hρ : ∀ name q, ρ name = some q → 0 ≤ q) (hμ : ρ.Denotes ν μ)
    (e : Expression (Exact M)) (h : (ofNames ν).denote e = some d) :
    (ofNames ρ.names).denote (e.resolve μ) = some d :=
  (resolve_keeps hρ hμ e).1 d h

end Expression

end Waveform
