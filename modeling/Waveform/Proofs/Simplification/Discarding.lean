import Waveform.Proofs.Simplification.Performing

/-!
# What simplification leaves out

What is left out by a rule may be evaluated in every run, as the operand beside a zero is, or in
none, as a branch by a known test. Where each rule leaves out only what does nothing or is never
evaluated, the simplified expression performs the calls and the writes of the expression, each one
once and in the same order.
-/

namespace Waveform

variable {M : Mathematics}

namespace Expression

namespace Performs

variable {call : Caller (Exact M)} {env : Environment} {e a b c : Expression (Exact M)}
  {s t u : Store (Exact M)} {v w : Value (Exact M)} {τ υ : List (Effect (Exact M))}
  {op : BinaryOperator} {l : Literal (Exact M)}

/-! ## Rules for selections and choices -/

theorem isBoolean_of_isWhole (h : e.isWhole = true) : e.isBoolean = false := by
  cases e <;> first | rfl | cases h

theorem exists_boolean_of_isEquality (hop : op.isEquality = true) (v w : Value (Exact M)) :
    ∃ r, op.apply v w = .boolean r := by
  cases op <;> first | exact ⟨_, rfl⟩ | cases hop

theorem exists_boolean_of_literal (h : (Expression.literal l).isBoolean = true) :
    ∃ r, l = .boolean r := by
  cases l with
  | boolean r => exact ⟨r, rfl⟩
  | _ => cases h

theorem exists_boolean (h : Performs call env e s v t τ) (hboolean : e.isBoolean = true) :
    ∃ r, v = .boolean r := by
  induction h with
  | literal l s =>
    obtain ⟨r, rfl⟩ := exists_boolean_of_literal hboolean
    exact ⟨r, rfl⟩
  | name | assignment => cases hboolean
  | whole he =>
    rw [isBoolean_of_isWhole he] at hboolean
    cases hboolean
  | unary op _ _ =>
    obtain rfl : op = .not := by simpa [isBoolean] using hboolean
    exact ⟨_, rfl⟩
  | numbers _ _ harithmetic =>
    obtain rfl := Meaning.primitive.inj (Meaning.arithmetic_eq harithmetic)
    obtain ⟨r, hr⟩ := exists_boolean_of_literal (Simplify.isBoolean_evaluate hboolean _ _)
    exact ⟨r, congrArg Value.primitive hr⟩
  | equality hop => exact exists_boolean_of_isEquality hop _ _
  | decided _ _ iha =>
    rw [isBoolean, Bool.and_eq_true] at hboolean
    exact iha hboolean.1
  | undecided _ _ _ _ ihb =>
    rw [isBoolean, Bool.and_eq_true] at hboolean
    exact ihb hboolean.2
  | consequent _ _ _ _ ihb =>
    rw [isBoolean, Bool.and_eq_true] at hboolean
    exact ihb hboolean.1
  | alternate _ _ _ _ ihc =>
    rw [isBoolean, Bool.and_eq_true] at hboolean
    exact ihc hboolean.2

end Performs

end Expression

/-- A position sees no difference between the values: a test sees only whether a value counts as
true. -/
structure Value.SeenAs {ν : Type} [Numeric ν] (isTest : Bool) (v' v : Value ν) : Prop where
  isTruthy : v'.isTruthy = v.isTruthy
  eq : isTest = false → v' = v

theorem Value.SeenAs.refl {ν : Type} [Numeric ν] (isTest : Bool) (v : Value ν) :
    v.SeenAs isTest v :=
  ⟨rfl, fun _ => rfl⟩

theorem Value.SeenAs.trans {ν : Type} [Numeric ν] {isTest : Bool} {v'' v' v : Value ν}
    (h' : v''.SeenAs isTest v') (h : v'.SeenAs isTest v) : v''.SeenAs isTest v :=
  ⟨h'.isTruthy.trans h.isTruthy, fun hvalue => (h'.eq hvalue).trans (h.eq hvalue)⟩

namespace Expression

namespace Performs

variable {call : Caller (Exact M)} {env : Environment} {e a b c : Expression (Exact M)}
  {s t u : Store (Exact M)} {v w : Value (Exact M)} {τ υ : List (Effect (Exact M))}
  {isTest : Bool}

theorem of_logical {op : LogicalOperator} (h : Performs call env (.logical op a b) s v t τ) :
    (Performs call env a s v t τ ∧ op.decides v.isTruthy = true) ∨
      ∃ w u τ₁ τ₂, Performs call env a s w u τ₁ ∧ op.decides w.isTruthy = false ∧
        Performs call env b u v t τ₂ ∧ τ = τ₁ ++ τ₂ := by
  cases h with
  | whole he => cases he
  | decided ha h => exact .inl ⟨ha, h⟩
  | undecided ha h hb => exact .inr ⟨_, _, _, _, ha, h, hb, rfl⟩

/-- A written right operand that decides takes the place of a selection, and the left operand does
where it does not decide. -/
theorem written_right {op : LogicalOperator} {l : Literal (Exact M)}
    (h : Performs call env (.logical op a (.literal l)) s v t τ)
    (hsilent : op.decides l.isTruthy = true → a.isSilent = true)
    (hboolean : isTest = false → a.isBoolean = true ∧ (Expression.literal l).isBoolean = true) :
    ∃ v', Performs call env (if op.decides l.isTruthy then .literal l else a) s v' t τ ∧
      v'.SeenAs isTest v := by
  -- Of two truth values that count as the same, each is the other.
  have hsame {w : Value (Exact M)} {u τ'} (ha : Performs call env a s w u τ')
      (htruth : w.isTruthy = l.isTruthy) : (Value.primitive l).SeenAs isTest w := by
    refine ⟨htruth.symm, fun hvalue => ?_⟩
    obtain ⟨hleft, hright⟩ := hboolean hvalue
    obtain ⟨r, rfl⟩ := ha.exists_boolean hleft
    have hwritten : Performs call env (.literal l) s (.primitive l) s [] := .literal l s
    obtain ⟨r', hr'⟩ := hwritten.exists_boolean hright
    rw [hr']
    cases hr'
    exact congrArg Value.boolean htruth.symm
  rcases h.of_logical with ⟨ha, hdecides⟩ | ⟨w, u, τ₁, τ₂, ha, hdecides, hl, rfl⟩
  · split
    · next hl =>
      obtain ⟨rfl, rfl⟩ := ha.eq_nil_of_isSilent (hsilent hl)
      have htruth : v.isTruthy = l.isTruthy := by
        cases op <;> simpa [LogicalOperator.decides, hdecides] using hdecides.trans hl.symm
      exact ⟨_, .literal l _, hsame ha htruth⟩
    · exact ⟨v, ha, .refl isTest v⟩
  · obtain ⟨rfl, rfl, rfl⟩ := hl.of_literal
    rw [List.append_nil]
    split
    · next hl =>
      obtain ⟨rfl, rfl⟩ := ha.eq_nil_of_isSilent (hsilent hl)
      exact ⟨_, .literal l _, .refl isTest _⟩
    · next hl =>
      have htruth : w.isTruthy = l.isTruthy := by
        rw [Bool.not_eq_true] at hl
        cases op <;> simpa [LogicalOperator.decides] using hdecides.trans hl.symm
      have hseen := hsame ha htruth
      exact ⟨w, ha, hseen.isTruthy.symm, fun hvalue => (hseen.eq hvalue).symm⟩

theorem of_bound {β : Simplify.Bound (Exact M)} (hβ : Simplify.Bound.of? e = some β)
    (h : Performs call env e s v t τ) :
    ∃ p q r, s.lookup? β.name env = some (.number (.of p)) ∧ β.value = .of q ∧
      Meaning.arithmetic β.op p q = some (Meaning.boolean r : Meaning M) ∧ v = .boolean r ∧
        t = s ∧ τ = [] := by
  unfold Simplify.Bound.of? at hβ
  split at hβ
  · next op name x =>
    obtain ⟨hop, ⟨⟩⟩ := Option.ite_none_right_eq_some.1 hβ
    have hequality : op.isEquality = false := by cases op <;> first | rfl | cases hop
    obtain ⟨p, q, l, rfl, ha, hl, rfl⟩ := h.of_number_right hequality
    cases ha with
    | whole he => cases he
    | name hread =>
      have hboolean : ∃ r, l = .boolean r := by
        cases op <;> first | (cases hl; exact ⟨_, rfl⟩) | cases hop
      obtain ⟨r, rfl⟩ := hboolean
      exact ⟨p, q, r, hread, rfl, hl, rfl, rfl, rfl⟩
  · cases hβ

/-- Bounds that exclude each other do not both hold where a name stands for one number. -/
theorem excluded {upper lower : Simplify.Bound (Exact M)}
    (hexcludes : upper.excludes lower = true) (hupper : Simplify.Bound.of? a = some upper)
    (hlower : Simplify.Bound.of? b = some lower) (ha : Performs call env a s v t τ)
    (hv : v.isTruthy = true) (hb : Performs call env b t w u υ) :
    w = .boolean false ∧ t = s ∧ τ = [] ∧ u = s ∧ υ = [] := by
  obtain ⟨p, q, r, hread, hq, hr, rfl, rfl, rfl⟩ := ha.of_bound hupper
  obtain ⟨p', q', r', hread', hq', hr', rfl, rfl, rfl⟩ := hb.of_bound hlower
  have hname : upper.name = lower.name := by
    simp only [Simplify.Bound.excludes, Bool.and_eq_true, beq_iff_eq] at hexcludes
    exact hexcludes.1
  rw [← hname, hread] at hread'
  cases hread'
  cases r with
  | false => cases hv
  | true =>
    rw [Simplify.Bound.eq_false_of_excludes hexcludes hq hq' hr hr']
    exact ⟨rfl, rfl, rfl, rfl, rfl⟩

theorem logical_rule {op : LogicalOperator} (h : Performs call env (.logical op a b) s v t τ)
    (hspares : sparesLogical isTest op a b) :
    ∃ v', Performs call env (Simplify.logical op a b) s v' t τ ∧ v'.SeenAs isTest v := by
  unfold Simplify.logical
  split
  · next l hl =>
    obtain rfl := Expression.eq_literal_of_asLiteral? hl
    refine ⟨v, ?_, .refl isTest v⟩
    rw [LogicalOperator.select]
    rcases h.of_logical with ⟨ha, hdecides⟩ | ⟨w, u, τ₁, τ₂, ha, hdecides, hb, rfl⟩
    · obtain ⟨rfl, rfl, rfl⟩ := ha.of_literal
      change op.decides l.isTruthy = true at hdecides
      rw [if_pos hdecides]
      exact .literal l _
    · obtain ⟨rfl, rfl, rfl⟩ := ha.of_literal
      change op.decides l.isTruthy = false at hdecides
      rw [hdecides, if_neg Bool.false_ne_true]
      exact hb
  · next hnone =>
    split
    · next l hl =>
      obtain rfl := Expression.eq_literal_of_asLiteral? hl
      obtain ⟨hsilent, hboolean⟩ := hspares l hnone hl
      exact h.written_right hsilent hboolean
    · split
      · next upper lower hupper hlower =>
        split
        · next hexcludes =>
          refine ⟨.boolean false, ?_, ?_⟩
          all_goals
            rcases h.of_logical with ⟨ha, hdecides⟩ | ⟨w, u, τ₁, τ₂, ha, hdecides, hb, rfl⟩
          · obtain ⟨p, q, r, -, -, -, rfl, rfl, rfl⟩ := ha.of_bound hupper
            exact .literal _ _
          · obtain ⟨-, rfl, rfl, rfl, rfl⟩ :=
              excluded hexcludes hupper hlower ha
                (by simpa [LogicalOperator.decides] using hdecides) hb
            exact .literal _ _
          · obtain ⟨p, q, r, -, -, -, rfl, rfl, rfl⟩ := ha.of_bound hupper
            cases r with
            | false => exact .refl isTest _
            | true => cases hdecides
          · obtain ⟨rfl, -⟩ := excluded hexcludes hupper hlower ha
              (by simpa [LogicalOperator.decides] using hdecides) hb
            exact .refl isTest _
        · exact ⟨v, h, .refl isTest v⟩
      · exact ⟨v, h, .refl isTest v⟩

theorem of_conditional (h : Performs call env (.conditional a b c) s v t τ) :
    ∃ w u τ₁ τ₂, Performs call env a s w u τ₁ ∧ τ = τ₁ ++ τ₂ ∧
      (w.isTruthy = true ∧ Performs call env b u v t τ₂ ∨
        w.isTruthy = false ∧ Performs call env c u v t τ₂) := by
  cases h with
  | whole he => cases he
  | consequent ha hw hb => exact ⟨_, _, _, _, ha, rfl, .inl ⟨hw, hb⟩⟩
  | alternate ha hw hc => exact ⟨_, _, _, _, ha, rfl, .inr ⟨hw, hc⟩⟩

theorem repeat_conditional {test : Expression (Exact M)}
    (h : Performs call env (.conditional a b c) s v t τ) (hsilent : test.isSilent = true)
    (htest : Performs call env test s w s []) (hsame : a.same test = true) :
    w.isTruthy = true ∧ Performs call env b s v t τ ∨
      w.isTruthy = false ∧ Performs call env c s v t τ := by
  obtain ⟨w', u, τ₁, τ₂, ha, rfl, hrest⟩ := h.of_conditional
  obtain rfl := eq_of_same a test hsame hsilent
  obtain ⟨rfl, rfl, rfl⟩ := htest.unique ha
  exact hrest

theorem whenTrue {test : Expression (Exact M)} (h : Performs call env e s v t τ)
    (hsilent : test.isSilent = true) (htest : Performs call env test s w s [])
    (hw : w.isTruthy = true) : Performs call env (Simplify.whenTrue test e) s v t τ := by
  induction e using Simplify.whenTrue.induct test with
  | case1 inner consequent alternate hsame ih =>
    rw [Simplify.whenTrue, if_pos hsame]
    rcases h.repeat_conditional hsilent htest hsame with ⟨-, hb⟩ | ⟨hfalse, -⟩
    · exact ih hb
    · rw [hw] at hfalse
      cases hfalse
  | case2 inner consequent alternate hsame =>
    rwa [Simplify.whenTrue, if_neg hsame]
  | case3 e he =>
    rw [Simplify.whenTrue]
    · exact h
    · exact he

theorem whenFalse {test : Expression (Exact M)} (h : Performs call env e s v t τ)
    (hsilent : test.isSilent = true) (htest : Performs call env test s w s [])
    (hw : w.isTruthy = false) : Performs call env (Simplify.whenFalse test e) s v t τ := by
  induction e using Simplify.whenFalse.induct test with
  | case1 inner consequent alternate hsame ih =>
    rw [Simplify.whenFalse, if_pos hsame]
    rcases h.repeat_conditional hsilent htest hsame with ⟨htrue, -⟩ | ⟨-, hc⟩
    · rw [hw] at htrue
      cases htrue
    · exact ih hc
  | case2 inner consequent alternate hsame =>
    rwa [Simplify.whenFalse, if_neg hsame]
  | case3 e he =>
    rw [Simplify.whenFalse]
    · exact h
    · exact he

theorem whenTrue_eq {test : Expression (Exact M)} (h : repeats test e = false) :
    Simplify.whenTrue test e = e := by
  cases e with
  | conditional inner b c =>
    change inner.same test = false at h
    rw [Simplify.whenTrue, h, if_neg Bool.false_ne_true]
  | _ => rfl

theorem whenFalse_eq {test : Expression (Exact M)} (h : repeats test e = false) :
    Simplify.whenFalse test e = e := by
  cases e with
  | conditional inner b c =>
    change inner.same test = false at h
    rw [Simplify.whenFalse, h, if_neg Bool.false_ne_true]
  | _ => rfl

/-- A choice inside a branch that the test of the branch decides is by a test that does nothing. -/
theorem decideInner {test : Expression (Exact M)} (hunknown : test.asLiteral? = none)
    (htest : Performs call env test s w t τ) (hw : w.isTruthy = true)
    (h : Performs call env e t v u υ) :
    Performs call env (Simplify.decideInner test e) t v u υ := by
  unfold Simplify.decideInner
  split
  · next inner b c =>
    split
    · next l hl =>
      obtain ⟨w', u', τ₁, τ₂, hinner, rfl, hrest⟩ := h.of_conditional
      have hdecided : w'.isTruthy = l.isTruthy ∧ u' = t ∧ τ₁ = [] := by
        unfold Simplify.logical at hl
        rw [hunknown] at hl
        dsimp only at hl
        split at hl
        · next r hr =>
          obtain rfl := Expression.eq_literal_of_asLiteral? hr
          obtain ⟨rfl, rfl, rfl⟩ := hinner.of_literal
          split at hl
          · cases hl
            exact ⟨rfl, rfl, rfl⟩
          · rw [hunknown] at hl
            cases hl
        · split at hl
          · next upper lower hupper hlower =>
            split at hl
            · next hexcludes =>
              obtain ⟨rfl, rfl, rfl, rfl, rfl⟩ :=
                excluded hexcludes hupper hlower htest hw hinner
              cases hl
              exact ⟨rfl, rfl, rfl⟩
            · cases hl
          · cases hl
      obtain ⟨htruth, rfl, rfl⟩ := hdecided
      rcases hrest with ⟨htrue, hb⟩ | ⟨hfalse, hc⟩
      · rw [← htruth, if_pos htrue]
        exact hb
      · rw [← htruth, hfalse, if_neg Bool.false_ne_true]
        exact hc
    · exact h
  · exact h

theorem conditional_rule (h : Performs call env (.conditional a b c) s v t τ)
    (hspares : sparesConditional a b c) :
    Performs call env (Simplify.conditional a b c) s v t τ := by
  obtain ⟨w, u, τ₁, τ₂, ha, rfl, hrest⟩ := h.of_conditional
  unfold Simplify.conditional
  split
  · next l hl =>
    obtain rfl := Expression.eq_literal_of_asLiteral? hl
    obtain ⟨rfl, rfl, rfl⟩ := ha.of_literal
    rcases hrest with ⟨htrue, hb⟩ | ⟨hfalse, hc⟩
    · change l.isTruthy = true at htrue
      rw [if_pos htrue]
      exact hb
    · change l.isTruthy = false at hfalse
      rw [hfalse, if_neg Bool.false_ne_true]
      exact hc
  · next hunknown =>
    obtain ⟨hrepeats, hsame⟩ := hspares hunknown
    split
    · next hrule =>
      rw [Bool.and_eq_true, Bool.not_eq_true'] at hrule
      obtain ⟨hsilent, rfl⟩ := hsame hrule.1 hrule.2
      obtain ⟨rfl, rfl⟩ := ha.eq_nil_of_isSilent hsilent
      rcases hrest with ⟨-, hb⟩ | ⟨-, hb⟩ <;> exact hb
    · rcases hrest with ⟨htrue, hb⟩ | ⟨hfalse, hc⟩
      · refine ha.consequent htrue (ha.decideInner hunknown htrue ?_)
        cases hb' : repeats a b with
        | false => rwa [whenTrue_eq hb']
        | true =>
          have hsilent := hrepeats (.inl hb')
          obtain ⟨rfl, rfl⟩ := ha.eq_nil_of_isSilent hsilent
          exact hb.whenTrue hsilent ha htrue
      · refine ha.alternate hfalse ?_
        cases hc' : repeats a c with
        | false => rwa [whenFalse_eq hc']
        | true =>
          have hsilent := hrepeats (.inr hc')
          obtain ⟨rfl, rfl⟩ := ha.eq_nil_of_isSilent hsilent
          exact hc.whenFalse hsilent ha hfalse

/-! ## Simplification -/

theorem seenAs_unary {op : UnaryOperator} {v' : Value (Exact M)}
    (h : v'.SeenAs (op == .not) v) : op.apply v' = op.apply v := by
  cases op with
  | not => exact congrArg (fun r => Value.boolean (! r)) h.isTruthy
  | minus | plus | typeOf => rw [h.eq rfl]

theorem unary_rule {op : UnaryOperator} (h : Performs call env a s v t τ) :
    Performs call env (Simplify.unary op a) s (op.apply v) t τ := by
  unfold Simplify.unary
  split
  · next l hl =>
    obtain rfl := Expression.eq_literal_of_asLiteral? hl
    obtain ⟨rfl, rfl, rfl⟩ := h.of_literal
    rw [Reading.unary_apply_primitive]
    exact .literal _ _
  · exact h.unary op

/-- An operation performs what it does with its operands replaced by others that perform the same.
-/
theorem replace_binary {op : BinaryOperator} {a' b' : Expression (Exact M)}
    (h : Performs call env (.binary op a b) s v t τ)
    (ha : ∀ {s v t τ}, Performs call env a s v t τ → Performs call env a' s v t τ)
    (hb : ∀ {s v t τ}, Performs call env b s v t τ → Performs call env b' s v t τ) :
    Performs call env (.binary op a' b') s v t τ := by
  cases h with
  | whole he => cases he
  | numbers hl hr harithmetic => exact (ha hl).numbers (hb hr) harithmetic
  | equality hop hl hr => exact .equality hop (ha hl) (hb hr)

theorem effects_assignment {op : AssignmentOperator} {target : String}
    {value : Expression (Exact M)}
    (h : ((Expression.assignment op target value).evaluate call env).outcome s = (.ok v, t)) :
    (Expression.assignment op target value).effects call env s =
      value.effects call env s ++ [.write target v] := by
  rw [effects, Run.andThen_of_outcome h]

theorem effects_update {op : UpdateOperator} {target : String}
    (h : ((update op true target).evaluate call env).outcome s = (.ok v, t)) :
    (update op true target).effects call env s = [.write target v] := by
  obtain ⟨current, s₁, hread, hrest⟩ := Run.bind_ok.1 h
  obtain ⟨-, s₂, -, hv⟩ := Run.bind_ok.1 hrest
  cases hv
  rw [effects, Run.andThen_of_outcome hread]
  rfl

theorem shorten {op : AssignmentOperator} {target : String} {value : Expression (Exact M)}
    (h : ((Expression.assignment op target value).evaluate call env).outcome s = (.ok v, t))
    (halike : ShortensAlike call env op target value s) :
    Performs call env (Simplify.assignment op target value) s v t
      ((Expression.assignment op target value).effects call env s) := by
  obtain ⟨v', u, i, rfl, hrun, hsame⟩ := simplify_assignment_rewrites h
  obtain rfl := hsame.2 halike
  change ((Simplify.assignment op target value).evaluate call env).outcome s = _ at hrun
  rw [Simplify.assignment_eq] at hrun ⊢
  split at hrun
  · next addend haddend =>
    obtain rfl := Simplify.eq_sum_of_addend? haddend
    obtain ⟨w, s₁, j, hsum, -⟩ := assignment_ok.1 h
    obtain ⟨current, s₂, hread, -⟩ := Run.bind_ok.1 hsum
    have hvalue : (binary .add (identifier target) addend).effects call env s =
        addend.effects call env s := by
      obtain ⟨-, rfl⟩ := Run.read_ok.1 hread
      rw [effects, Run.andThen_of_outcome hread]
      rfl
    rw [effects_assignment h, hvalue]
    split at hrun
    · next hone =>
      obtain ⟨x, -, rfl⟩ := Simplify.eq_number_of_isWrittenOne hone
      rw [if_pos hone]
      have hcount := Performs.whole rfl hrun
      rwa [effects_update hrun] at hcount
    · next hnotOne =>
      rw [if_neg hnotOne, ← effects_assignment hrun]
      refine .assignment hrun fun hplain => ?_
      cases hplain
  · exact .assignment h halike

/-- Simplifying to any depth keeps what is performed, if it leaves out nothing that does something.
-/
theorem upTo (depth : Nat) (isTest : Bool) (e : Expression (Exact M))
    (hspares : Simplify.Spares depth isTest e) {s t : Store (Exact M)} {v : Value (Exact M)}
    {τ : List (Effect (Exact M))} (h : Performs call env e s v t τ) :
    ∃ v', Performs call env (Simplify.upTo depth e) s v' t τ ∧ v'.SeenAs isTest v := by
  induction depth generalizing isTest e s t v τ with
  | zero => exact ⟨v, h, .refl isTest v⟩
  | succ depth ih =>
    have hvalue {a : Expression (Exact M)} (ha : Simplify.Spares depth false a)
        {s t : Store (Exact M)} {v : Value (Exact M)} {τ : List (Effect (Exact M))}
        (h : Performs call env a s v t τ) : Performs call env (Simplify.upTo depth a) s v t τ := by
      obtain ⟨v', hv', hseen⟩ := ih false a ha h
      exact hseen.eq rfl ▸ hv'
    cases e with
    | unary op a =>
      cases h with
      | whole he => cases he
      | unary _ ha =>
        obtain ⟨v', hv', hseen⟩ := ih (op == .not) a hspares ha
        refine ⟨_, hv'.unary_rule, ?_⟩
        rw [seenAs_unary hseen]
        exact .refl isTest _
    | binary op a b =>
      obtain ⟨ha, hb, hrule, hchain⟩ := hspares
      refine ⟨v, ?_, .refl isTest v⟩
      have hoperands := h.replace_binary (fun h => hvalue ha h) (fun h => hvalue hb h)
      exact hoperands.binary_rule (fun l r hlr hop {_ _ _ _} h => hvalue (hchain l r hlr hop) h)
        hrule
    | logical op a b =>
      obtain ⟨ha, hrule, hb⟩ := hspares
      have hreplaced : ∃ v', Performs call env (.logical op (Simplify.upTo depth a)
          (Simplify.upTo depth b)) s v' t τ ∧ v'.SeenAs isTest v := by
        rcases h.of_logical with ⟨hl, hdecides⟩ | ⟨w, u, τ₁, τ₂, hl, hdecides, hr, rfl⟩
        · obtain ⟨v', hv', hseen⟩ := ih isTest a ha hl
          exact ⟨v', hv'.decided (by rwa [hseen.isTruthy]), hseen⟩
        · obtain ⟨w', hw', hseen⟩ := ih isTest a ha hl
          rw [← hseen.isTruthy] at hdecides
          have hreached (l) (hl : (Simplify.upTo depth a).asLiteral? = some l) :
              op.decides l.isTruthy = false := by
            rw [eq_literal_of_asLiteral? hl] at hw'
            obtain ⟨rfl, -⟩ := hw'.of_literal
            exact hdecides
          obtain ⟨v', hv', hseen'⟩ := ih isTest b (hb hreached) hr
          exact ⟨v', hw'.undecided hdecides hv', hseen'⟩
      obtain ⟨v', hv', hseen⟩ := hreplaced
      obtain ⟨v'', hv'', hseen'⟩ := hv'.logical_rule hrule
      exact ⟨v'', hv'', hseen'.trans hseen⟩
    | conditional a b c =>
      obtain ⟨ha, hrule, hb, hc⟩ := hspares
      obtain ⟨w, u, τ₁, τ₂, htest, rfl, hrest⟩ := h.of_conditional
      obtain ⟨w', hw', hseen⟩ := ih true a ha htest
      have hreached {r : Bool} (hr : w'.isTruthy = r) (l)
          (hl : (Simplify.upTo depth a).asLiteral? = some l) : l.isTruthy = r := by
        rw [eq_literal_of_asLiteral? hl] at hw'
        obtain ⟨rfl, -⟩ := hw'.of_literal
        exact hr
      rcases hrest with ⟨htrue, hbranch⟩ | ⟨hfalse, hbranch⟩
      · rw [← hseen.isTruthy] at htrue
        obtain ⟨v', hv', hseen'⟩ := ih isTest b (hb (hreached htrue)) hbranch
        exact ⟨v', (hw'.consequent htrue hv').conditional_rule hrule, hseen'⟩
      · rw [← hseen.isTruthy] at hfalse
        obtain ⟨v', hv', hseen'⟩ := ih isTest c (hc (hreached hfalse)) hbranch
        exact ⟨v', (hw'.alternate hfalse hv').conditional_rule hrule, hseen'⟩
    | assignment op target value =>
      cases h with
      | whole he => cases he
      | assignment hrun halike => exact ⟨v, shorten hrun halike, .refl isTest v⟩
    | literal | identifier | builtin | array | member | call | function | update =>
      exact ⟨v, h, .refl isTest v⟩

/-- Where simplification leaves out nothing that does something, the simplified expression performs
the calls and the writes of the expression, in their order, and ends alike. -/
theorem effects_simplify (h : Performs call env e s v t τ) (hspares : e.Spares) :
    (e.evaluate call env).outcome s = (.ok v, t) ∧ e.effects call env s = τ ∧
      (e.simplify.evaluate call env).outcome s = (.ok v, t) ∧
      e.simplify.effects call env s = τ := by
  obtain ⟨v', hv', hseen⟩ := h.upTo e.reach false e hspares
  obtain rfl := hseen.eq rfl
  exact ⟨h.evaluate, h.effects_eq, hv'.evaluate, hv'.effects_eq⟩

end Performs

/-! ## Draws that are left out -/

def drawing : Expression (Exact .zero) :=
  .call (.builtin .random) []

/-- Draws for the test, which a true operand adds nothing to, and again for one of the branches. -/
def choosing : Expression (Exact .zero) :=
  .conditional (.logical .and (.binary .lessThan drawing (.number (.of 5))) (.boolean true))
    (.binary .add (.number (.of 0)) drawing) (.number (.of 3))

end Expression

def Effect.draw : Effect (Exact .zero) :=
  .call (.builtin .random) []

namespace Expression

open Effect (draw)

theorem Performs.effects_simplify_choosing :
    Performs .two [0] choosing .counting (.number (.of (0 + 2))) .counting [draw, draw] ∧
      choosing.Spares ∧
      (choosing.evaluate .two [0]).outcome .counting =
        (.ok (.number (.of (0 + 2))), .counting) ∧
      choosing.effects .two [0] .counting = [draw, draw] ∧
      (choosing.simplify.evaluate .two [0]).outcome .counting =
        (.ok (.number (.of (0 + 2))), .counting) ∧
      choosing.simplify.effects .two [0] .counting = [draw, draw] := by
  have hdrawing : Performs .two [0] drawing .counting (.number (.of 2)) .counting [draw] :=
    .whole rfl rfl
  have htest : Performs .two [0]
      (.logical .and (.binary .lessThan drawing (.number (.of 5))) (.boolean true)) .counting
      (.boolean true) .counting [draw] :=
    (hdrawing.numbers (.literal _ _) rfl).undecided rfl (.literal _ _)
  have hsum : Performs .two [0] (.binary .add (.number (.of 0)) drawing) .counting
      (.number (.of (0 + 2))) .counting [draw] :=
    (Performs.literal (.number (.of 0)) .counting).numbers hdrawing rfl
  have hperforms := htest.consequent (c := .number (.of 3)) rfl hsum
  have hspares : choosing.Spares := by
    refine ⟨⟨⟨trivial, trivial, nofun, nofun⟩, ?_, fun _ => trivial⟩, fun _ => ⟨?_, nofun⟩,
      fun _ => ⟨trivial, trivial, nofun, nofun⟩, fun _ => trivial⟩
    · rintro l - ⟨⟩
      exact ⟨nofun, nofun⟩
    · rintro (h | h) <;> cases h
  exact ⟨hperforms, hspares, hperforms.effects_simplify hspares⟩

/-- A second draw that decides a choice again is left out, and so is one beside a zero and one
before a false operand. -/
theorem effects_simplify_drawing :
    ((conditional drawing (.conditional drawing (.number (.of 1)) (.number (.of 2)))
        (.number (.of 3))).evaluate .two [0]).outcome .counting =
        (.ok (.number (.of 1)), .counting) ∧
      (conditional drawing (.conditional drawing (.number (.of 1)) (.number (.of 2)))
        (.number (.of 3))).effects .two [0] .counting = [draw, draw] ∧
      (conditional drawing (.conditional drawing (.number (.of 1)) (.number (.of 2)))
        (.number (.of 3))).simplify.effects .two [0] .counting = [draw] ∧
      ((binary .multiply (.number (.of 0)) drawing).evaluate .two [0]).outcome .counting =
        (.ok (.number (.of (0 * 2))), .counting) ∧
      (binary .multiply (.number (.of 0)) drawing).effects .two [0] .counting = [draw] ∧
      (binary .multiply (.number (.of 0)) drawing).simplify.effects .two [0] .counting = [] ∧
      ((logical .and drawing (.boolean false)).evaluate .two [0]).outcome .counting =
        (.ok (.boolean false), .counting) ∧
      (logical .and drawing (.boolean false)).effects .two [0] .counting = [draw] ∧
      (logical .and drawing (.boolean false)).simplify.effects .two [0] .counting = [] :=
  ⟨rfl, rfl, rfl, rfl, rfl, rfl, rfl, rfl, rfl⟩

end Expression

end Waveform
