import Waveform.Proofs.Source.Values

/-!
# Grouping

Tokens that are written with a precedence are read by every goal that is loose enough for it, and
tokens in parentheses by every goal.
-/

namespace Waveform

namespace Source

section

variable {first : Token → Bool} {strict : Bool} {ts us : List Token} {t u : Token}
  {P : Lexeme → Prop}
  {l : Lexeme}

/-! ## First tokens -/

theorem Token.isSecond_of_startsValue (h : t.startsValue = true) : t.isSecond = true := by
  have hmark : t.isMark ":" = false := isMark_of_kind h (by decide)
  have hword : t.isWord "function" = false := isWord_of_kind h (by decide)
  simp [isSecond, hmark, hword]

theorem Starts.imp {first' : Token → Bool} (h : Starts first ts)
    (hfirst : ∀ t, first t = true → first' t = true) : Starts first' ts := by
  obtain ⟨t, us, rfl, ht, hus⟩ := h
  exact ⟨t, us, rfl, hfirst t ht, hus⟩

theorem Starts.value (h : Starts Token.startsOperand ts) : Starts Token.startsValue ts :=
  h.imp fun _ ht => (Bool.and_eq_true_iff.1 (Bool.and_eq_true_iff.1 ht).1).1

theorem Starts.append (h : Starts first ts) (hus : ∀ u ∈ us.head?, u.isSecond = true) :
    Starts first (ts ++ us) := by
  obtain ⟨t, ts, rfl, ht, hts⟩ := h
  refine ⟨t, ts ++ us, rfl, ht, ?_⟩
  cases ts with
  | nil => exact hus
  | cons t' ts => exact hts

theorem Starts.cons (h : Starts Token.startsValue us) (ht : first t = true) :
    Starts first (t :: us) := by
  obtain ⟨u, us, rfl, hu, -⟩ := h
  exact ⟨t, u :: us, rfl, ht, fun _ h => by cases h; exact Token.isSecond_of_startsValue hu⟩

theorem starts_separated {rows : List (List Token)}
    (hrows : ∀ ts ∈ rows, Starts Token.startsValue ts)
    (ht : first t = true) (hu : u.isSecond = true) :
    Starts first (t :: (separated rows ++ u :: us)) := by
  refine ⟨t, _, rfl, ht, ?_⟩
  cases rows with
  | nil => exact fun _ h => by cases h; exact hu
  | cons ts rows =>
    obtain ⟨t', ts, rfl, ht', -⟩ := hrows _ List.mem_cons_self
    have hsecond := Token.isSecond_of_startsValue ht'
    cases rows with
    | nil => exact fun _ h => by cases h; exact hsecond
    | cons ts' rows => exact fun _ h => by cases h; exact hsecond

theorem Starts.next (h : Starts first ts) (hl : Spells ts P l)
    (hP : ∀ m, P m → m.token.isSecond = true) : l.Next fun m => m.token.isSecond = true := by
  obtain ⟨t, us, rfl, -, hus⟩ := h
  refine hl.2.imp fun m hm => ?_
  cases us with
  | nil => exact hP m hm.2
  | cons u us =>
    rw [hm.2.1]
    exact hus u rfl

end

/-! ## Trees that are written with a precedence -/

section

variable {ν : Type} [Numeric ν] {strict : Bool} {ts us : List Token} {e : Expression ν} {p : Nat}

/-- The tokens are read as the tree by every goal that is loose enough for the precedence. -/
structure Reads (strict : Bool) (ts : List Token) (e : Expression ν) (p : Nat) : Prop where
  starts : Starts Token.startsValue ts
  startsOperand : 16 < p → Starts Token.startsOperand ts
  operand : 18 < p → AsOperand strict ts (·.Shows e p)
  unary : 15 < p → AsUnary strict ts (·.Shows e p)
  operands : 5 < p → AsOperands strict ts p (·.Shows e p)
  value : AsValue strict ts (·.lower = .ok e)

theorem Reads.ne_nil (h : Reads strict ts e p) : ts ≠ [] :=
  List.length_pos_iff.1 h.starts.length_pos

theorem AsUnary.imp {shows shows' : Node → Prop} (h : AsUnary strict ts shows)
    (hshows : ∀ n, shows n → shows' n) : AsUnary strict ts shows' :=
  ⟨fun hctx hN hl hP => (h.reads hctx hN hl hP).imp fun n _ hn => ⟨hshows n hn.1, hn.2⟩⟩

theorem AsOperands.imp {shows shows' : Node → Prop} (h : AsOperands strict ts p shows)
    (hshows : ∀ n, shows n → shows' n) : AsOperands strict ts p shows' :=
  ⟨fun hctx hL hN hl hP hQ => h.reads hctx hL hN hl hP
    fun K n m hK hn hm => hQ K n m hK (hshows n hn) hm⟩

theorem AsValue.imp {shows shows' : Node → Prop} (h : AsValue strict ts shows)
    (hshows : ∀ n, shows n → shows' n) : AsValue strict ts shows' :=
  ⟨fun hctx hN hl hP => (h.reads hctx hN hl hP).imp fun n _ hn => ⟨hshows n hn.1, hn.2⟩⟩

theorem AsOperand.toReads (h : AsOperand strict ts (·.Shows e p)) (hp : 5 < p)
    (hts : Starts Token.startsOperand ts) : Reads strict ts e p := by
  have hne := List.length_pos_iff.1 hts.length_pos
  have hunary := h.asUnary hts
  have hoperands := hunary.asOperands hne p
  exact ⟨hts.value, fun _ => hts, fun _ => h, fun _ => hunary, fun _ => hoperands,
    (hoperands.asValue hne hp).imp fun _ hn => hn.lower⟩

theorem AsUnary.toReads (h : AsUnary strict ts (·.Shows e p)) (hp : 5 < p ∧ p < 19)
    (hts : Starts Token.startsValue ts) (hts' : 16 < p → Starts Token.startsOperand ts) :
    Reads strict ts e p := by
  have hne := List.length_pos_iff.1 hts.length_pos
  have hoperands := h.asOperands hne p
  exact ⟨hts, hts', fun h => absurd h (by omega), fun _ => h, fun _ => hoperands,
    (hoperands.asValue hne hp.1).imp fun _ hn => hn.lower⟩

theorem AsOperands.toReads (h : AsOperands strict ts p (·.Shows e p)) (hp : 5 < p ∧ p < 16)
    (hts : Starts Token.startsValue ts) : Reads strict ts e p := by
  have hne := List.length_pos_iff.1 hts.length_pos
  exact ⟨hts, fun h => absurd h (by omega), fun h => absurd h (by omega),
    fun h => absurd h (by omega), fun _ => h, (h.asValue hne hp.1).imp fun _ hn => hn.lower⟩

theorem AsValue.toReads (h : AsValue strict ts (·.lower = .ok e)) (hp : p < 6)
    (hts : Starts Token.startsValue ts) : Reads strict ts e p :=
  ⟨hts, fun h => absurd h (by omega), fun h => absurd h (by omega), fun h => absurd h (by omega),
    fun h => absurd h (by omega), h⟩

theorem Reads.wrapped (h : Reads strict ts e p) (needed : Bool) :
    Reads strict (Waveform.wrapped needed ts) e (if needed then 20 else p) := by
  cases needed with
  | false => exact h
  | true =>
    have hstarts : Starts Token.startsOperand (.mark "(" :: ts ++ [.mark ")"]) :=
      (h.starts.cons rfl).append fun _ h => by cases h; rfl
    have hgroup : AsOperand strict (.mark "(" :: ts ++ [.mark ")"]) (·.Shows e 20) := by
      refine (h.value.group h.starts).imp ?_
      rintro _ ⟨s, n, rfl, hn⟩
      exact Node.shows_group hn s
    exact hgroup.toReads (by decide) hstarts

/-! ## One lemma for each kind of expression -/

variable {left right test consequent alternate callee object property argument value : Expression ν}

abbrev Reads.Tree (strict : Bool) (e : Expression ν) : Prop :=
  Reads strict e.tokens e e.precedence

theorem AsOperand.toTree (h : AsOperand strict e.tokens (·.lower = .ok e)) (he : 5 < e.precedence)
    (hts : Starts Token.startsOperand e.tokens) : Reads.Tree strict e :=
  (h.imp fun _ => Node.shows_of_lower).toReads he hts

theorem AsUnary.toTree (h : AsUnary strict e.tokens (·.lower = .ok e))
    (he : 5 < e.precedence ∧ e.precedence < 19) (hts : Starts Token.startsValue e.tokens)
    (hts' : 16 < e.precedence → Starts Token.startsOperand e.tokens) : Reads.Tree strict e :=
  (h.imp fun _ => Node.shows_of_lower).toReads he hts hts'

theorem AsOperands.toTree (h : AsOperands strict e.tokens e.precedence (·.lower = .ok e))
    (he : 5 < e.precedence ∧ e.precedence < 16) (hts : Starts Token.startsValue e.tokens) :
    Reads.Tree strict e :=
  (h.imp fun _ => Node.shows_of_lower).toReads he hts

theorem reads_literal {x : Literal ν} (hx : x.IsWritten) : Reads.Tree strict (.literal x) := by
  have htokens := Expression.tokens_literal x
  have hprecedence : (Expression.literal x).precedence = 20 := by
    cases x with
    | number x =>
      have hnegative : Numeric.isNegative x = false := hx.1
      simp [Expression.precedence, hnegative]
    | _ => rfl
  have hstarts : Starts Token.startsOperand [x.token] := by
    refine ⟨x.token, [], rfl, ?_, fun _ h => by cases h⟩
    cases x with
    | number x =>
      obtain ⟨-, ⟨d, count, hread, -⟩ | ⟨htext, -⟩ | ⟨htext, -⟩⟩ := hx
      · simp only [Literal.token, hread]
        rfl
      · simp only [Literal.token, htext]
        decide
      · simp only [Literal.token, htext]
        decide
    | boolean b =>
      cases b <;> simp only [Literal.token] <;> decide
    | string s => rfl
    | _ =>
      simp only [Literal.token]
      decide
  refine AsOperand.toTree ?_ (by rw [hprecedence]; decide) (by rw [htokens]; exact hstarts)
  rw [htokens]
  exact asOperand_literal hx

theorem lower_name {name : String} (h : isPlainName strict name = true) (s : Nat) :
    (Node.identifier s name).lower = .ok (.identifier name : Expression ν) := by
  simp only [isPlainName, Bool.and_eq_true, Bool.not_eq_true'] at h
  have hname : nameExpression name = (.identifier name : Expression ν) := by
    unfold nameExpression
    split
    · exact absurd h.2 (by decide)
    · exact absurd h.2 (by decide)
    · exact absurd h.2 (by decide)
    · rfl
  rw [Node.lower, hname]
  rfl

theorem reads_identifier {name : String} (h : isPlainName strict name = true) :
    Reads.Tree strict (.identifier name : Expression ν) := by
  have htokens : (Expression.identifier name : Expression ν).tokens = [.word name false] := by
    rw [Expression.tokens]
  have hname := isVariable_of_isPlainName h
  refine AsOperand.toTree ?_ (by simp [Expression.precedence])
    (by rw [htokens]; exact starts_name hname fun _ h => by cases h)
  rw [htokens]
  refine (asOperand_name hname).imp ?_
  rintro _ ⟨s, rfl⟩
  exact lower_name h s

theorem reads_builtin {b : Builtin} (h : b.isMath = true) :
    Reads.Tree strict (.builtin b : Expression ν) := by
  have htokens : (Expression.builtin b : Expression ν).tokens =
      [.word "Math" false, .mark ".", .word b.name false] := by rw [Expression.tokens]
  have hmath : isVariable strict "Math" = true := by cases strict <;> decide
  refine AsOperand.toTree ?_ (by simp [Expression.precedence]) ?_
  · rw [htokens]
    exact asOperand_builtin h
  · rw [htokens]
    exact starts_name hmath fun _ h => by cases h; rfl

theorem reads_base (h : Reads.Tree strict object) :
    ∃ p, 18 < p ∧
      Reads strict (Waveform.wrapped (object.precedence < 19) object.tokens) object p := by
  refine ⟨_, ?_, h.wrapped _⟩
  split
  · decide
  · next hneeded =>
    have : ¬ object.precedence < 19 := by simpa using hneeded
    omega

theorem reads_member (hobject : Reads.Tree strict object) (hproperty : Reads.Tree strict property) :
    Reads.Tree strict (.member object property) := by
  obtain ⟨p, hp, hobject⟩ := reads_base hobject
  have hne := List.length_pos_iff.2 hobject.ne_nil
  have htokens : (Expression.member object property).tokens =
      Waveform.wrapped (object.precedence < 19) object.tokens ++
        .mark "[" :: property.tokens ++ [.mark "]"] := by
    rw [Expression.tokens]
  refine AsOperand.toTree ?_ (by simp [Expression.precedence]) ?_
  · rw [htokens]
    exact (hobject.operand hp).member hp hne hproperty.value hproperty.starts
  · rw [htokens, List.append_assoc]
    exact (hobject.startsOperand (by omega)).append fun _ h => by cases h; rfl

theorem reads_unary {op : UnaryOperator} (hargument : Reads.Tree strict argument) :
    Reads.Tree strict (.unary op argument) := by
  have hwrapped := hargument.wrapped (argument.precedence < 16 ||
    ((op == .minus || op == .plus) && argument.startsSigned))
  have hp : 15 < if argument.precedence < 16 ||
      ((op == .minus || op == .plus) && argument.startsSigned)
      then 20 else argument.precedence := by
    split
    · decide
    · next h =>
      simp at h
      omega
  have htokens : (Expression.unary op argument).tokens = op.token ::
      Waveform.wrapped (argument.precedence < 16 ||
        ((op == .minus || op == .plus) && argument.startsSigned)) argument.tokens := by
    rw [Expression.tokens]
  refine AsUnary.toTree ?_ (by simp [Expression.precedence]) ?_
    fun h => absurd h (by simp [Expression.precedence])
  · rw [htokens]
    exact (hwrapped.unary hp).unary op (by omega)
  · rw [htokens]
    exact hwrapped.starts.cons (by cases op <;> rfl)

theorem reads_left (op : BinaryOperator) (h : Reads.Tree strict left) :
    ∃ p, (if op.isRightAssociative then 16 < p else op.precedence ≤ p) ∧
      Reads strict (Waveform.wrapped (decide (if op.isRightAssociative then left.precedence ≤ 16
        else left.precedence < op.precedence)) left.tokens) left p := by
  refine ⟨_, ?_, h.wrapped _⟩
  have hop : op.precedence ≤ 20 := by cases op <;> decide
  cases op.isRightAssociative <;>
    simp only [Bool.false_eq_true, if_false, if_true, decide_eq_true_eq] <;> split <;> omega

/-- The right operand of an operator, in parentheses where it needs them. -/
theorem reads_right (op : BinaryOperator) (h : Reads.Tree strict right) :
    ∃ p, (if op.isRightAssociative then op.precedence ≤ p else op.precedence < p) ∧
      Reads strict (Waveform.wrapped (decide (if op.isRightAssociative then
        right.precedence < op.precedence else right.precedence ≤ op.precedence)) right.tokens)
        right p := by
  refine ⟨_, ?_, h.wrapped _⟩
  have hop : op.precedence < 20 := by cases op <;> decide
  cases op.isRightAssociative <;>
    simp only [Bool.false_eq_true, if_false, if_true, decide_eq_true_eq] <;> split <;> omega

theorem reads_binary {op : BinaryOperator} (hleft : Reads.Tree strict left)
    (hright : Reads.Tree strict right) : Reads.Tree strict (.binary op left right) := by
  have hop : 5 < op.precedence ∧ op.precedence < 16 := by cases op <;> decide
  obtain ⟨pl, hpl, hleft⟩ := reads_left op hleft
  obtain ⟨pr, hpr, hright⟩ := reads_right op hright
  have hp : 5 < pl ∧ 5 < pr := by
    split at hpl <;> split at hpr <;> omega
  refine AsOperands.toTree ?_ hop ?_
  · rw [Expression.tokens]
    exact AsOperands.binary op hleft.ne_nil (hleft.operands hp.1) (hright.operands hp.2) hpl hpr
  · rw [Expression.tokens]
    exact hleft.starts.append fun _ h => by cases h; cases op <;> rfl

theorem reads_logical {op : LogicalOperator} (hleft : Reads.Tree strict left)
    (hright : Reads.Tree strict right) : Reads.Tree strict (.logical op left right) := by
  have htokens : (Expression.logical op left right).tokens =
      Waveform.wrapped (left.precedence < op.precedence) left.tokens ++ .mark op.text ::
      Waveform.wrapped (right.precedence ≤ op.precedence) right.tokens := by
    rw [Expression.tokens]
  have hleft := hleft.wrapped (left.precedence < op.precedence)
  have hright := hright.wrapped (right.precedence ≤ op.precedence)
  have hop : 5 < op.precedence ∧ op.precedence < 16 := by cases op <;> decide
  have hpl : op.precedence ≤
      if decide (left.precedence < op.precedence) then 20 else left.precedence := by
    simp only [decide_eq_true_eq]
    split <;> omega
  have hpr : op.precedence <
      if decide (right.precedence ≤ op.precedence) then 20 else right.precedence := by
    simp only [decide_eq_true_eq]
    split <;> omega
  refine AsOperands.toTree ?_ hop ?_
  · rw [htokens]
    exact AsOperands.logical op hleft.ne_nil (hleft.operands (by omega))
      (hright.operands (by omega)) hpl hpr
  · rw [htokens]
    exact hleft.starts.append fun _ h => by cases h; cases op <;> rfl

theorem precedence_ne_five (e : Expression ν) : e.precedence ≠ 5 := by
  cases e with
  | literal l =>
    cases l with
    | number x =>
      rw [Expression.precedence]
      split <;> decide
    | _ => simp [Expression.precedence]
  | binary op _ _ =>
    have hop : op.precedence ≠ 5 := by cases op <;> decide
    exact hop
  | logical op _ _ =>
    have hop : op.precedence ≠ 5 := by cases op <;> decide
    exact hop
  | update _ isBefore _ => cases isBefore <;> simp [Expression.precedence]
  | _ => simp [Expression.precedence]

theorem reads_conditional (htest : Reads.Tree strict test)
    (hconsequent : Reads.Tree strict consequent) (halternate : Reads.Tree strict alternate) :
    Reads.Tree strict (.conditional test consequent alternate) := by
  have htokens : (Expression.conditional test consequent alternate).tokens =
      Waveform.wrapped (test.precedence ≤ 4) test.tokens ++
        .mark "?" :: consequent.tokens ++ .mark ":" :: alternate.tokens := by
    rw [Expression.tokens]
  have htest := htest.wrapped (test.precedence ≤ 4)
  have hp : 5 < if decide (test.precedence ≤ 4) then 20 else test.precedence := by
    have hfive := precedence_ne_five test
    simp only [decide_eq_true_eq]
    split <;> omega
  refine AsValue.toReads ?_ (by simp [Expression.precedence]) ?_
  · rw [htokens]
    exact (htest.operands hp).conditional hp htest.ne_nil hconsequent.value hconsequent.starts
      halternate.value
  · rw [htokens, List.append_assoc]
    exact htest.starts.append fun _ h => by cases h; rfl

theorem reads_assignment {op : AssignmentOperator} {target : String}
    (h : isTarget strict target = true) (hvalue : Reads.Tree strict value) :
    Reads.Tree strict (.assignment op target value) := by
  have htokens : (Expression.assignment op target value).tokens =
      .word target false :: .mark op.text :: value.tokens := by rw [Expression.tokens]
  have hname := isVariable_of_isTarget h
  refine AsValue.toReads ?_ (by simp [Expression.precedence]) ?_
  · rw [htokens]
    exact asValue_assignment op h hvalue.value
  · rw [htokens]
    exact (starts_name hname fun _ h => by cases h; cases op <;> rfl).value

theorem reads_update {op : UpdateOperator} {target : String} :
    ∀ {isBefore : Bool}, isTarget strict target = true →
      Reads.Tree strict (.update op isBefore target : Expression ν)
  | true, h => by
    have htokens : (Expression.update op true target : Expression ν).tokens =
        [.mark op.text, .word target false] := by rw [Expression.tokens, if_pos rfl]
    have hname := isVariable_of_isTarget h
    refine AsUnary.toTree ?_ (by simp [Expression.precedence]) ?_
      fun h => absurd h (by simp [Expression.precedence])
    · rw [htokens]
      exact asUnary_update_before op h
    · rw [htokens]
      have hsecond := Token.isSecond_of_startsValue (startsValue_of_isVariable hname)
      exact ⟨_, _, rfl, by cases op <;> rfl, fun _ h => by cases h; exact hsecond⟩
  | false, h => by
    have htokens : (Expression.update op false target : Expression ν).tokens =
        [.word target false, .mark op.text] := by
      rw [Expression.tokens, if_neg Bool.false_ne_true]
    have hname := isVariable_of_isTarget h
    have hstarts : Starts Token.startsOperand [.word target false, .mark op.text] :=
      starts_name hname fun _ h => by cases h; cases op <;> rfl
    refine AsUnary.toTree ?_ (by simp [Expression.precedence]) ?_ fun _ => ?_
    · rw [htokens]
      exact asUnary_update_after op h
    · rw [htokens]
      exact hstarts.value
    · rw [htokens]
      exact hstarts

/-! ## Lists of values and functions -/

abbrev ReadsAll (strict : Bool) (rows : List (List Token)) (es : List (Expression ν)) : Prop :=
  List.Forall₂
    (fun ts e => Starts Token.startsValue ts ∧ AsValue strict ts (·.lower = .ok e)) rows es

theorem ReadsAll.starts {rows : List (List Token)} {es : List (Expression ν)}
    (h : ReadsAll strict rows es) : ∀ ts ∈ rows, Starts Token.startsValue ts := by
  induction h with
  | nil => exact fun ts hts => absurd hts List.not_mem_nil
  | cons hfirst _ ih => exact List.forall_mem_cons.2 ⟨hfirst.1, ih⟩

theorem reads_array {items : List (Expression ν)}
    (h : ReadsAll strict (Expression.allTokens items) items) :
    Reads.Tree strict (.array items) := by
  refine AsOperand.toTree ?_ (by simp [Expression.precedence]) ?_
  · rw [Expression.tokens]
    exact asOperand_array h
  · rw [Expression.tokens]
    exact starts_separated h.starts rfl rfl

theorem eq_of_tokens_async (he : e.IsWritten strict) (h : e.tokens = [.word "async" false]) :
    e = .identifier "async" := by
  cases e with
  | literal x =>
    rw [Expression.tokens_literal, List.singleton_inj] at h
    cases x with
    | number x =>
      obtain ⟨-, ⟨d, count, hread, -⟩ | ⟨htext, -⟩ | ⟨htext, -⟩⟩ : Numeric.ReadsBack x := he
      · simp [Literal.token, hread] at h
      · rw [Literal.token, htext] at h
        exact absurd h (by decide)
      · rw [Literal.token, htext] at h
        exact absurd h (by decide)
    | boolean b => cases b <;> simp [Literal.token] at h
    | _ => simp [Literal.token] at h
  | identifier name => simpa [Expression.tokens] using h
  | unary op argument =>
    cases op <;> simp [Expression.tokens, UnaryOperator.token] at h
  | update op isBefore target => cases isBefore <;> simp [Expression.tokens] at h
  | _ => simp [Expression.tokens, List.append_eq_singleton_iff] at h

theorem reads_call {arguments : List (Expression ν)} (hwritten : callee.IsWritten strict)
    (hcallee : Reads.Tree strict callee)
    (h : ReadsAll strict (Expression.allTokens arguments) arguments) :
    Reads.Tree strict (.call callee arguments) := by
  have htokens : (Expression.call callee arguments).tokens =
      Waveform.wrapped (callee.precedence < 19) callee.tokens ++
        .mark "(" :: separated (Expression.allTokens arguments) ++ [.mark ")"] := by
    rw [Expression.tokens]
  obtain ⟨p, hp, hbase⟩ := reads_base hcallee
  have hne := List.length_pos_iff.2 hbase.ne_nil
  refine AsOperand.toTree ?_ (by simp [Expression.precedence]) ?_
  · rw [htokens]
    by_cases hasync : callee = .identifier "async"
    · subst hasync
      rw [Expression.tokens]
      exact asOperand_call_async h
    · refine (hbase.operand hp).call hp hne (fun hword => ?_) h
      cases hneeded : decide (callee.precedence < 19) with
      | true => simp [Waveform.wrapped, hneeded] at hword
      | false =>
        rw [hneeded] at hword
        exact hasync (eq_of_tokens_async hwritten hword)
  · rw [htokens, List.append_assoc]
    exact (hbase.startsOperand (by omega)).append fun _ h => by cases h; rfl

theorem AsBody.toTree {params : List String} {body : List (Statement ν)}
    (h : AsBody strict ((Statement.returnedTokens? body).getD
      (.mark "\x7b" :: Statement.allTokens body ++ [.mark "\x7d"])) (lowerClauses · = .ok body))
    (hparams : ∀ p ∈ params, isPlainName strict p = true) :
    Reads.Tree strict (.function params body none) := by
  refine AsValue.toReads ?_ (by simp [Expression.precedence]) ?_
  · rw [Expression.tokens]
    exact h.function hparams
  · have hrows : ∀ ts ∈ params.map fun p => [Token.word p false], Starts Token.startsValue ts := by
      intro ts hts
      obtain ⟨p, hp, rfl⟩ := List.mem_map.1 hts
      have hstarts : Starts Token.startsOperand [.word p false] :=
        starts_name (isVariable_of_isPlainName (hparams p hp)) fun _ h => by cases h
      exact hstarts.value
    rw [Expression.tokens, List.cons_append]
    exact starts_separated hrows rfl rfl

end

end Source

end Waveform
