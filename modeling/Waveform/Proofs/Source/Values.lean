import Waveform.Proofs.Source.Operands

/-!
# Reading operators and functions
-/

namespace Waveform

namespace Source

variable {ctx : Context} {strict : Bool} {K L N : Nat} {l m : Lexeme} {n : Node}
  {P : Lexeme → Prop} {Q : Node → Lexeme → Prop} {ts us : List Token} {shows : Node → Prop}

section

variable {ν : Type} [Numeric ν]

/-! ## Prefix operators and updates -/

theorem AsUnary.unary {argument : Expression ν} {p : Nat} (op : UnaryOperator)
    (h : AsUnary strict us (·.Shows argument p)) (hp : 3 < p) :
    AsUnary strict (op.token :: us) (·.lower = .ok (.unary op argument)) := by
  refine ⟨fun {ctx N l P} hctx hN hl hP => ?_⟩
  rw [List.length_cons] at hN
  obtain ⟨N, rfl⟩ : ∃ k, N = k + 1 := ⟨N - 1, by omega⟩
  obtain ⟨htoken, hnext⟩ := hl
  have hdisguised : isDisguised ctx l.token = false := by rw [htoken]; cases op <;> rfl
  have hoperator : unaryOperator? l.token = some (some op) := by rw [htoken]; cases op <;> rfl
  change Ends (Source.unary (grammar N) ctx) l _
  unfold Source.unary
  simp only [ends_bind, ends_current, ends_guardThat, hdisguised, hoperator, ends_advance,
    Bool.not_false, true_and]
  refine hnext.imp fun m hm => (h.reads hctx (by omega) hm.2 hP).imp ?_
  rintro n k ⟨hn, hk⟩
  simp only [hn.arrow hp, Bool.not_false, true_and, ends_pure]
  refine ⟨?_, hk⟩
  simp only [Node.lower, lowered_bind]
  exact ⟨argument, hn.lower, rfl⟩

theorem startsValue_of_isVariable {name : String} (h : isVariable strict name = true) :
    (Token.word name false).startsValue = true := by
  simp only [isVariable, Bool.and_eq_true] at h
  simp only [Token.startsValue, h.1.1, h.2, Bool.not_false, Bool.true_or, Bool.true_and]

theorem startsOperand_of_isVariable {name : String} (h : isVariable strict name = true) :
    (Token.word name false).startsOperand = true := by
  have hvalue := startsValue_of_isVariable h
  have hoperator : unaryOperator? (.word name false) = none := by
    change wordOperator? name = none
    unfold wordOperator?
    split
    · exact absurd h (by simp [isVariable, keywords])
    · exact absurd h (by simp [isVariable, keywords])
    · exact absurd h (by simp [isVariable, keywords])
    · rfl
  simp [Token.startsOperand, hvalue, hoperator, updateOperator?]

theorem starts_name {name : String} (h : isVariable strict name = true) {ts : List Token}
    (hts : ∀ u ∈ ts.head?, u.isSecond = true) :
    Starts Token.startsOperand (.word name false :: ts) :=
  ⟨_, ts, rfl, startsOperand_of_isVariable h, hts⟩

theorem isPlace_of_isTarget {name : String} (h : isTarget strict name = true)
    (hctx : ctx.Fits strict) (s : Nat) : (Node.identifier s name).isPlace ctx.isStrict = true := by
  simp only [isTarget, Bool.and_eq_true, Bool.not_eq_true'] at h
  have hstrict := h.2
  unfold Node.isPlace
  cases hs : ctx.isStrict with
  | false => rfl
  | true =>
    rw [hctx.strict hs, Bool.true_and] at hstrict
    simp only [hstrict, Bool.true_and, Bool.not_false]

theorem isVariable_of_isTarget {name : String} (h : isTarget strict name = true) :
    isVariable strict name = true := by
  simp only [isTarget, Bool.and_eq_true] at h
  exact isVariable_of_isPlainName h.1

theorem asUnary_update_before (op : UpdateOperator) {name : String}
    (h : isTarget strict name = true) :
    AsUnary strict [.mark op.text, .word name false]
      (·.lower = .ok (.update op true name : Expression ν)) := by
  have hname := isVariable_of_isTarget h
  have htarget := (asOperand_name hname).asUnary (starts_name hname nofun)
  refine ⟨fun {ctx N l P} hctx hN hl hP => ?_⟩
  simp only [List.length_cons, List.length_nil] at hN
  obtain ⟨N, rfl⟩ : ∃ k, N = k + 1 := ⟨N - 1, by omega⟩
  obtain ⟨htoken, hnext⟩ := hl
  have hdisguised : isDisguised ctx l.token = false := by rw [htoken]; rfl
  have hoperator : unaryOperator? l.token = none := by rw [htoken]; cases op <;> rfl
  have hupdate : updateOperator? l.token = some op := by rw [htoken]; cases op <;> rfl
  change Ends (Source.unary (grammar N) ctx) l _
  unfold Source.unary
  simp only [ends_bind, ends_current, ends_guardThat, hdisguised, hoperator, hupdate, ends_advance,
    Bool.not_false, true_and]
  refine hnext.imp fun m hm => (htarget.reads hctx (by simp; omega) hm.2 hP).imp ?_
  rintro _ k ⟨⟨s, rfl⟩, hk⟩
  simp only [isPlace_of_isTarget h hctx, true_and, ends_pure]
  exact ⟨rfl, hk⟩

theorem asUnary_update_after (op : UpdateOperator) {name : String}
    (h : isTarget strict name = true) :
    AsUnary strict [.word name false, .mark op.text]
      (·.lower = .ok (.update op false name : Expression ν)) := by
  have hname := isVariable_of_isTarget h
  refine ⟨fun {ctx N l P} hctx hN hl hP => ?_⟩
  simp only [List.length_cons, List.length_nil] at hN
  obtain ⟨N, rfl⟩ : ∃ k, N = k + 1 := ⟨N - 1, by omega⟩
  have htoken : l.token = .word name false := hl.1
  have hstart := startsOperand_of_isVariable hname
  simp only [Token.startsOperand, Bool.and_eq_true, Option.isNone_iff_eq_none] at hstart
  obtain ⟨⟨hvalue, hunary⟩, hupdate⟩ := hstart
  have hdisguised := Token.isDisguised_of_startsValue hvalue ctx
  have hawait : (Token.word name false).isWord "await" = false :=
    Token.isWord_of_kind hvalue (by decide)
  change Ends (Source.unary (grammar N) ctx) l _
  unfold Source.unary
  simp only [ends_bind, ends_current, ends_guardThat, htoken, hdisguised, hunary, hupdate, hawait,
    Bool.false_eq_true, if_false, Bool.not_false, true_and]
  unfold Grammar.updated
  simp only [ends_bind, ends_current]
  have hop : op.text ∈ ["++", "--"] ∧ op.text ≠ "?" := by cases op <;> decide
  refine (asOperand_name hname).reads hctx (by simp; omega) hl.head ?_ ?_ ?_
  · rintro m ⟨hm, hspells⟩
    have htext : suffixEnds.contains op.text = true := by cases op <;> decide
    exact Lexeme.follows_mark hm hspells htext hop.2
  · rintro - m ⟨-, hmark, -⟩
    rw [hmark]
    cases op <;> rfl
  · rintro K _ m hK ⟨s, rfl⟩ ⟨hm, hmark, hnext⟩
    have hafter : updateOperator? m.token = some op := by rw [hmark]; cases op <;> rfl
    have hfollows : m.Follows (operandEnds ++ ["++", "--"]) := by
      have htext : (operandEnds ++ ["++", "--"]).contains op.text = true := by cases op <;> decide
      exact Lexeme.follows_mark hm ⟨hmark, hnext⟩ htext hop.2
    refine suffixes_stop hfollows (by simp at hK; omega) ?_
    simp only [hafter, Node.isArrow, hm, Bool.or_false, Bool.false_eq_true, if_false, ends_bind,
      ends_guardThat, isPlace_of_isTarget h hctx, true_and, ends_advance, ends_pure]
    exact hnext.imp fun k hk => ⟨rfl, hk.2⟩

/-! ## Operators between operands -/

variable {left right e : Expression ν} {p pl pr : Nat}

/-- Two operands joined by an operator of the precedence `p`. The left one ends before the operator,
since it binds no tighter than what the left one is made of, and the right one ends where an
operator follows that binds no tighter. -/
theorem AsOperands.join {c : Connective} {text : String} (hts : ts ≠ [])
    (hleft : AsOperands strict ts pl (·.Shows left pl))
    (hright : AsOperands strict us pr (·.Shows right pr))
    (htext : text ∈ joints)
    (hconnective : ∀ ctx, connective? ctx (.mark text) = some (c, level p))
    (hlevel : (if c == .operation .exponent then 12 else level p + 1) = rightLevel p)
    (hpl : 3 < pl ∧ level p ≤ level pl ∧ level p < rightLevel pl)
    (hpr : 3 < pr ∧ rightLevel p ≤ level pr ∧ rightLevel p ≤ rightLevel pr)
    (hmay : ∀ n n' : Node, n.Shows left pl → mayJoin c n n' = true)
    (hlower : ∀ s (n n' : Node), n.lower = .ok left → n'.lower = .ok right →
      (Node.binary s c n n').lower = .ok e) :
    AsOperands strict (ts ++ .mark text :: us) p (·.lower = .ok e) := by
  refine ⟨fun {ctx L N l P Q} hctx hL hN hl hP hQ => ?_⟩
  simp only [List.length_append, List.length_cons] at hN hQ
  have hmark : operandEnds.contains text = true ∧ text ≠ "?" := by
    have hall : ∀ t ∈ joints, operandEnds.contains t = true ∧ t ≠ "?" := by decide
    exact hall text htext
  refine hleft.reads hctx (Nat.le_trans hL hpl.2.1) (by omega) (Spells.split hl hts) ?_ ?_
  · rintro m ⟨hm, hspells⟩
    refine ⟨Lexeme.follows_mark hm hspells hmark.1 hmark.2, ?_⟩
    have htight : m.token.tightness = level p := by
      rw [hspells.1, Token.tightness, hconnective]
      rfl
    rw [htight]
    exact hpl.2.2
  · rintro K n m hK hn ⟨-, htoken, hnext⟩
    have htight : ¬ level p < L := Nat.not_lt.2 hL
    obtain ⟨K, rfl⟩ : ∃ k, K = k + 1 := ⟨K - 1, by omega⟩
    change Ends (operandsAfter (grammar K) ctx L n) m Q
    unfold operandsAfter
    simp only [hn.arrow hpl.1, Bool.false_eq_true, if_false, ends_bind, ends_current, htoken,
      hconnective, htight, ends_advance]
    refine hnext.imp fun k hk => ?_
    refine hright.reads hctx (by rw [hlevel]; exact hpr.2.1) (by omega) hk.2 ?_ ?_
    · intro k hk
      exact ⟨(hP k hk).1, Nat.lt_of_lt_of_le (hP k hk).2 hpr.2.2⟩
    · intro K' n' k hK' hn' hk
      refine operandsAfter_stop (hP k hk).1 (by rw [hlevel]; exact (hP k hk).2) (by omega) ?_
      simp only [ends_guardThat, hn'.arrow hpr.1, hmay n n' hn, Bool.not_false, Bool.and_self,
        true_and]
      exact hQ K _ k (by omega) (hlower n.start n n' hn.lower hn'.lower) hk

theorem AsOperands.binary (op : BinaryOperator) (hts : ts ≠ [])
    (hleft : AsOperands strict ts pl (·.Shows left pl))
    (hright : AsOperands strict us pr (·.Shows right pr))
    (hpl : if op.isRightAssociative then 16 < pl else op.precedence ≤ pl)
    (hpr : if op.isRightAssociative then op.precedence ≤ pr else op.precedence < pr) :
    AsOperands strict (ts ++ .mark op.text :: us) op.precedence
      (·.lower = .ok (.binary op left right)) := by
  have htext : op.text ∈ joints := by cases op <;> decide
  have hlower : ∀ s (n n' : Node), n.lower = .ok left → n'.lower = .ok right →
      (Node.binary s (.operation op) n n').lower = .ok (.binary op left right) := by
    intro s n n' hn hn'
    simp only [Node.lower, lowered_bind]
    exact ⟨left, hn, right, hn', rfl⟩
  cases hop : op.isRightAssociative with
  | true =>
    obtain rfl : op = .exponent := by cases op <;> first | rfl | cases hop
    simp only [hop, if_true] at hpl hpr
    have hp : BinaryOperator.exponent.precedence = 15 := rfl
    have hlevels : level 15 = 12 ∧ rightLevel 15 = 12 ∧ rightLevel 16 = 14 := by decide
    rw [hp] at hpr
    have hleft_level : level 15 ≤ level pl := level_mono (by omega)
    have hleft_reach : rightLevel 16 ≤ rightLevel pl := rightLevel_mono (by omega)
    have hright_level := level_mono hpr
    have hright_reach := rightLevel_mono hpr
    refine AsOperands.join hts hleft hright htext (connective?_binary _) rfl ?_ ?_ ?_ hlower
    · rw [hp]
      omega
    · rw [hp]
      omega
    · intro n n' hn
      simp [mayJoin, hn.unary hpl]
  | false =>
    simp only [hop, Bool.false_eq_true, if_false] at hpl hpr
    have hp : 5 < op.precedence ∧ op.precedence ≠ 15 := by
      cases op <;> first | decide | cases hop
    have hr := rightLevel_le_level hp.1 hpr
    have hr' := rightLevel_mono (Nat.le_of_lt hpr)
    refine AsOperands.join hts hleft hright htext (connective?_binary op) ?_ ?_ ?_ ?_ hlower
    · cases op <;> rfl
    · exact ⟨by omega, level_mono hpl, level_lt_rightLevel hpl hp.2⟩
    · exact ⟨by omega, hr, hr'⟩
    · intro n n' _
      cases op <;> first | rfl | cases hop

theorem AsOperands.logical (op : LogicalOperator) (hts : ts ≠ [])
    (hleft : AsOperands strict ts pl (·.Shows left pl))
    (hright : AsOperands strict us pr (·.Shows right pr))
    (hpl : op.precedence ≤ pl) (hpr : op.precedence < pr) :
    AsOperands strict (ts ++ .mark op.text :: us) op.precedence
      (·.lower = .ok (.logical op left right)) := by
  have htext : op.text ∈ joints := by cases op <;> decide
  have hp : 5 < op.precedence ∧ op.precedence ≠ 15 := by cases op <;> decide
  have hr := rightLevel_le_level hp.1 hpr
  have hr' := rightLevel_mono (Nat.le_of_lt hpr)
  refine AsOperands.join hts hleft hright htext (connective?_logical op) ?_ ?_ ?_ ?_ ?_
  · cases op <;> rfl
  · exact ⟨by omega, level_mono hpl, level_lt_rightLevel hpl hp.2⟩
  · exact ⟨by omega, hr, hr'⟩
  · exact fun _ _ _ => rfl
  · intro s n n' hn hn'
    simp only [Node.lower, lowered_bind]
    exact ⟨left, hn, right, hn', rfl⟩

/-! ## Choices and assignments -/

variable {test consequent alternate value : Expression ν} {ts' ts'' : List Token}

theorem AsOperands.conditional (htest : AsOperands strict ts p (·.Shows test p)) (hp : 5 < p)
    (hts : ts ≠ []) (hconsequent : AsValue strict ts' (·.lower = .ok consequent))
    (hts' : Starts Token.startsValue ts')
    (halternate : AsValue strict ts'' (·.lower = .ok alternate)) :
    AsValue strict (ts ++ .mark "?" :: ts' ++ .mark ":" :: ts'')
      (·.lower = .ok (.conditional test consequent alternate)) := by
  refine ⟨fun {ctx N l P} hctx hN hl hP => ?_⟩
  simp only [List.length_append, List.length_cons] at hN
  obtain ⟨N, rfl⟩ : ∃ k, N = k + 1 := ⟨N - 1, by omega⟩
  rw [List.append_assoc] at hl
  change Ends (assignment (grammar N) ctx) l _
  unfold assignment
  simp only [hctx.generator, Bool.false_and, Bool.false_eq_true, if_false, ends_bind, ends_atWord]
  unfold Grammar.choice
  rw [ends_bind]
  have hlevel : 1 ≤ level p ∧ 0 < rightLevel p := by
    simp only [level, rightLevel]
    split <;> split <;> omega
  have hquestion : ∀ m, (m.afterLineEnd = false ∧
      Spells (.mark "?" :: ts' ++ .mark ":" :: ts'') P m) →
        m.Follows operandEnds ∧ m.token.tightness = 0 := by
    rintro m ⟨hm, hspells⟩
    refine ⟨⟨hm, by rw [hspells.1]; rfl, fun _ => ?_⟩, by rw [hspells.1]; rfl⟩
    obtain ⟨k, hk, -, hspells⟩ := hspells.2
    rw [List.append_eq] at hspells
    have hstart := hts'.token (Spells.split hspells (List.length_pos_iff.1 hts'.length_pos))
    have hpoint : k.token.isMark "." = false := Token.isMark_of_kind hstart (by decide)
    simp [hk, hpoint]
  refine htest.reads hctx hlevel.1 (by omega) (Spells.split hl hts) (fun m hm => ?_) ?_
  · obtain ⟨hfollows, htight⟩ := hquestion m hm
    exact ⟨hfollows, by rw [htight]; exact hlevel.2⟩
  · rintro K n m hK hn hm
    obtain ⟨hfollows, htight⟩ := hquestion m hm
    refine operandsAfter_stop hfollows (by rw [htight]; exact Nat.one_pos) (by omega) ?_
    obtain ⟨-, htoken, hnext⟩ := hm
    have hmark : m.token.isMark "?" = true := by simp [htoken, Token.isMark]
    simp only [hn.arrow (by omega), Bool.false_eq_true, if_false, ends_bind, ends_acceptMark, hmark,
      if_true]
    refine hnext.imp ?_
    rintro k ⟨hk, hspells⟩
    rw [List.append_eq] at hspells
    refine (hconsequent.reads hctx.withIn (by omega)
      (Spells.split hspells (List.length_pos_iff.1 hts'.length_pos)) ?_).imp ?_
    · rintro k ⟨hk, hspells⟩
      exact Lexeme.follows_mark hk hspells (by decide) (by decide)
    rintro n' k ⟨hn', -, htoken, hnext⟩
    have hmark : k.token.isMark ":" = true := by simp [htoken, Token.isMark]
    simp only [ends_expectMark, hmark, true_and]
    refine hnext.imp fun k hk => (halternate.reads hctx (by omega) hk.2 hP).imp ?_
    rintro n'' k ⟨hn'', hk⟩
    have hassignment : assignmentOperator? k.token = none :=
      Token.eq_of_isAmong (hP k hk).token assignmentOperator? none (by decide)
    simp only [ends_pure, ends_current, hassignment]
    refine ⟨?_, hk⟩
    simp only [Node.lower, lowered_bind]
    exact ⟨test, hn.lower, consequent, hn', alternate, hn'', rfl⟩

theorem asValue_assignment (op : AssignmentOperator) {name : String}
    (h : isTarget strict name = true) (hvalue : AsValue strict ts (·.lower = .ok value)) :
    AsValue strict (.word name false :: .mark op.text :: ts)
      (·.lower = .ok (.assignment op name value)) := by
  have hname := isVariable_of_isTarget h
  have htarget := ((asOperand_name hname).asUnary (starts_name hname nofun)).asOperands
    (List.cons_ne_nil _ _) 20
  refine ⟨fun {ctx N l P} hctx hN hl hP => ?_⟩
  simp only [List.length_cons] at hN
  obtain ⟨N, rfl⟩ : ∃ k, N = k + 1 := ⟨N - 1, by omega⟩
  change Ends (assignment (grammar N) ctx) l _
  unfold assignment
  simp only [hctx.generator, Bool.false_and, Bool.false_eq_true, if_false, ends_bind, ends_atWord]
  unfold Grammar.choice
  rw [ends_bind]
  have hoperator : ∀ m, (m.afterLineEnd = false ∧ Spells (.mark op.text :: ts) P m) →
      m.Follows operandEnds ∧ m.token.tightness = 0 := by
    rintro m ⟨hm, hspells⟩
    have hmark : operandEnds.contains op.text = true ∧ op.text ≠ "?" := by cases op <;> decide
    refine ⟨Lexeme.follows_mark hm hspells hmark.1 hmark.2, ?_⟩
    rw [hspells.1]
    cases op <;> rfl
  refine htarget.reads hctx (by decide) (by simp; omega) hl.head (fun m hm => ?_) ?_
  · obtain ⟨hfollows, htight⟩ := hoperator m hm
    exact ⟨hfollows, by rw [htight]; decide⟩
  · rintro K _ m hK ⟨s, rfl⟩ hm
    obtain ⟨hfollows, htight⟩ := hoperator m hm
    refine operandsAfter_stop hfollows (by rw [htight]; exact Nat.one_pos) (by simp at hK; omega) ?_
    obtain ⟨-, htoken, hnext⟩ := hm
    have hmark : m.token.isMark "?" = false := by
      rw [htoken]
      cases op <;> rfl
    have hassignment : assignmentOperator? m.token = some (some op) := by
      rw [htoken]
      cases op <;> rfl
    have hplace := isPlace_of_isTarget h hctx s
    simp only [Node.isArrow, Bool.false_eq_true, if_false, ends_bind, ends_acceptMark, hmark,
      ends_pure, ends_current, hassignment, ends_guardThat, Bool.not_false, true_and, Node.isTarget,
      hplace, ite_self, ends_advance]
    refine hnext.imp fun k hk => (hvalue.reads hctx (by omega) hk.2 hP).imp ?_
    rintro n k ⟨hn, hk⟩
    refine ⟨?_, hk⟩
    simp only [Node.lower, assignedName, lowered_bind]
    exact ⟨name, rfl, value, hn, rfl⟩

/-! ## Arrow functions -/

/-- What an arrow function reads behind its arrow: statements between braces, or a value. -/
def EndsBody (g : Grammar) (ctx : Context) (params : List Binding) (l : Lexeme)
    (Q : List Clause → Lexeme → Prop) : Prop :=
  if l.token.isMark "\x7b" then Ends (g.functionBody ctx false params) l Q
  else Ends (g (.assignment ctx)) l fun n => Q [.result (some n)]

/-- The tokens are read as the body of an arrow function. -/
structure AsBody (strict : Bool) (ts : List Token) (shows : List Clause → Prop) : Prop where
  reads : ∀ {ctx : Context} {N : Nat} {l : Lexeme} {P : Lexeme → Prop} {params : List Binding},
    ctx.Fits strict → ctx.inFunction = true → params.all Binding.isName = true →
    12 * ts.length ≤ N + 1 → Spells ts P l → (∀ m, P m → m.Follows valueEnds) →
    EndsBody (grammar N) ctx params l fun body m => shows body ∧ P m

theorem AsValue.asBody (h : AsValue strict ts (·.lower = .ok value))
    (hts : Starts Token.startsValue ts) :
    AsBody strict ts (lowerClauses · = .ok [.result (some value)]) := by
  refine ⟨fun {ctx N l P params} hctx _ _ hN hl hP => ?_⟩
  have hbrace : l.token.isMark "\x7b" = false :=
    Token.isMark_of_kind (hts.token hl) (by decide)
  simp only [EndsBody, hbrace, Bool.false_eq_true, if_false]
  refine (h.reads hctx hN hl hP).imp ?_
  rintro n m ⟨hn, hm⟩
  refine ⟨?_, hm⟩
  simp only [lowerClauses, Clause.lower, lowerOption, lowered_bind]
  exact ⟨_, ⟨_, ⟨value, hn, rfl⟩, rfl⟩, [], rfl, rfl⟩

theorem asValue_name {name : String} (h : isVariable strict name = true) :
    AsValue strict [.word name false] fun n => ∃ s, n = .identifier s name :=
  (((asOperand_name h).asUnary (starts_name h nofun)).asOperands (List.cons_ne_nil _ _) 20).asValue
    (List.cons_ne_nil _ _) (by decide)

theorem bindingsOfElements?_names {params : List String} {ns : List Node}
    (h : List.Forall₂ (fun name n => ∃ s, n = Node.identifier s name) params ns) :
    ∃ bindings, bindingsOfElements? (ns.map .item) = some bindings ∧
      bindings.all Binding.isName = true ∧ bindings.mapM parameter = .ok params := by
  have hlast : ∀ ns : List Node, onlyLastSpreads (ns.map .item) = true := by
    intro ns
    induction ns with
    | nil => rfl
    | cons n ns ih =>
      cases ns with
      | nil => rfl
      | cons n' ns => exact ih
  have hbindings : ∃ bindings, (ns.map Element.item).mapM bindingOfElement? = some bindings ∧
      bindings.all Binding.isName = true ∧ bindings.mapM parameter = .ok params := by
    induction h with
    | nil => exact ⟨[], rfl, rfl, rfl⟩
    | @cons name n params ns hfirst _ ih =>
      obtain ⟨s, rfl⟩ := hfirst
      obtain ⟨bindings, hns, hall, hparams⟩ := ih
      refine ⟨.name s name :: bindings, ?_, by simpa [Binding.isName] using hall, ?_⟩
      · simp [hns, bindingOfElement?]
      · simp only [List.mapM_cons, lowered_bind]
        exact ⟨name, rfl, params, hparams, rfl⟩
  simpa [bindingsOfElements?, hlast] using hbindings

theorem ends_of_isArrow (hctx : ctx.Fits strict) (hl : l.token.startsOperand = true) (hN : 0 < N)
    (h : Ends ((grammar N).primary ctx) l fun n m =>
      n.isArrow = true ∧ m.Follows valueEnds ∧ Q n m) :
    Ends (grammar (N + 4) (.assignment ctx)) l Q := by
  simp only [Token.startsOperand, Bool.and_eq_true, Option.isNone_iff_eq_none] at hl
  obtain ⟨⟨hvalue, hunary⟩, hupdate⟩ := hl
  have hdisguised := Token.isDisguised_of_startsValue hvalue ctx
  have hawait : l.token.isWord "await" = false := Token.isWord_of_kind hvalue (by decide)
  have hoperand : Ends (grammar (N + 1) (.operand ctx)) l fun n m =>
      n.isArrow = true ∧ m.Follows valueEnds ∧ Q n m := by
    change Ends (operand (grammar N) ctx) l _
    unfold operand
    rw [ends_bind]
    exact h.imp fun n m hn => suffixes_stop (hn.2.1.mono (by decide)) hN hn
  have hunary : Ends (grammar (N + 2) (.unary ctx)) l fun n m =>
      n.isArrow = true ∧ m.Follows valueEnds ∧ Q n m := by
    change Ends (Source.unary (grammar (N + 1)) ctx) l _
    unfold Source.unary Grammar.updated
    simp only [ends_bind, ends_current, ends_guardThat, hdisguised, hunary, hupdate, hawait,
      Bool.not_false, true_and, Bool.false_eq_true, if_false]
    refine hoperand.imp fun n m hn => ?_
    have hafter : updateOperator? m.token = none :=
      Token.eq_of_isAmong hn.2.1.token updateOperator? none (by decide)
    simp only [hafter, ends_pure]
    exact hn
  change Ends (assignment (grammar (N + 3)) ctx) l Q
  unfold assignment Grammar.choice
  simp only [hctx.generator, Bool.false_and, Bool.false_eq_true, if_false, ends_bind, ends_atWord]
  change Ends (operands (grammar (N + 2)) ctx 1) l _
  unfold operands
  rw [ends_bind]
  refine hunary.imp fun n m hn => ?_
  have hassignment : assignmentOperator? m.token = none :=
    Token.eq_of_isAmong hn.2.1.token assignmentOperator? none (by decide)
  change Ends (operandsAfter (grammar (N + 1)) ctx 1 n) m _
  unfold operandsAfter
  simp only [hn.1, if_true, ends_pure, ends_current, hassignment]
  exact hn.2.2

theorem AsBody.function {params : List String} {body : List (Statement ν)}
    (h : AsBody strict us (lowerClauses · = .ok body))
    (hparams : ∀ p ∈ params, isPlainName strict p = true) :
    AsValue strict (.mark "(" :: separated (params.map fun p => [.word p false]) ++
      .mark ")" :: .mark "=>" :: us) (·.lower = .ok (.function params body none)) := by
  have hrows : List.Forall₂ (fun ts name => Starts Token.startsValue ts ∧
      AsValue strict ts fun n => ∃ s, n = .identifier s name)
      (params.map fun p => [Token.word p false]) params := by
    induction params with
    | nil => exact .nil
    | cons p params ih =>
      have hp := isVariable_of_isPlainName (hparams p List.mem_cons_self)
      refine .cons ⟨?_, asValue_name hp⟩ (ih fun q hq => hparams q (List.mem_cons_of_mem p hq))
      exact ⟨_, [], rfl, startsValue_of_isVariable hp, nofun⟩
  refine ⟨fun {ctx N l P} hctx hN hl hP => ?_⟩
  simp only [List.length_append, List.length_cons] at hN
  obtain ⟨N, rfl⟩ : ∃ k, N = k + 5 := ⟨N - 5, by omega⟩
  have hopen : l.token = .mark "(" := hl.1
  refine ends_of_isArrow hctx (by rw [hopen]; rfl) (Nat.succ_pos N) ?_
  have hl' : Spells (.mark "(" :: (separated (params.map fun p => [.word p false]) ++ [.mark ")"]))
      (fun m => m.afterLineEnd = false ∧ Spells (.mark "=>" :: us) P m) l := by
    refine Spells.split ?_ (List.cons_ne_nil _ _)
    simpa using hl
  unfold Grammar.primary
  simp only [ends_bind, ends_current, hopen, Grammar.marked, Grammar.groupOrArrow]
  refine (ends_arguments hrows hctx (by simp; omega) hl').imp ?_
  rintro _ m ⟨⟨ns, rfl, hns⟩, -, hm, harrow, hnext⟩
  obtain ⟨bindings, hbindings, hall, hnames⟩ := bindingsOfElements?_names hns
  have hmark : m.token.isMark "=>" = true := by simp [harrow, Token.isMark]
  simp only [atArrow, ends_bind, ends_current, ends_pure, hmark, hm, Bool.not_false, Bool.and_self,
    if_true, hbindings, Grammar.arrow, ends_expectMark, true_and, ends_atMark]
  refine hnext.imp fun k hk => ?_
  have hbody : EndsBody (grammar (N + 1)) (ctx.enterBody false false) bindings k
      fun body' m => lowerClauses body' = .ok body ∧ P m :=
    h.reads hctx.enterBody rfl hall (by omega) hk.2 hP
  have harrow : ∀ body' m, lowerClauses body' = .ok body ∧ P m →
      (Node.arrow l.start bindings body').isArrow = true ∧ m.Follows valueEnds ∧
        (Node.arrow l.start bindings body').lower = .ok (.function params body none) ∧ P m := by
    intro body' m hm
    refine ⟨rfl, hP m hm.2, ?_, hm.2⟩
    simp only [Node.lower, lowered_bind]
    exact ⟨params, hnames, body, hm.1, rfl⟩
  unfold EndsBody at hbody
  split at hbody
  · next hbrace =>
    simp only [hbrace, if_true, ends_bind, Bool.false_eq_true, if_false, ends_pure]
    exact hbody.imp harrow
  · next hbrace =>
    simp only [hbrace, Bool.false_eq_true, if_false, ends_bind, ends_pure]
    exact hbody.imp fun n m => harrow [.result (some n)] m

end

end Source

end Waveform
