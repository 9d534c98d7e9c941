import Waveform.Proofs.Source.Grouping

/-!
# Reading statements

What it is for the tokens of a statement to be read as the statement, one lemma for each kind of
statement, and the bodies of functions.
-/

namespace Waveform

namespace Source

variable {ctx : Context} {strict declares : Bool} {N : Nat} {l m : Lexeme}
  {P : Lexeme → Prop} {ts us : List Token}

/-! ## How statements start -/

def Token.startsStatement (t : Token) : Bool :=
  t.startsValue || t.isMark "\x7b" ||
    ["return", "if", "for", "let", "const", "function"].any t.isWord

theorem Token.startsStatement_of_startsValue {t : Token} (h : t.startsValue = true) :
    t.startsStatement = true := by
  rw [startsStatement, h, Bool.true_or, Bool.true_or]

theorem ends_declarationWord?_none {Q : Option DeclarationWord → Lexeme → Prop}
    (hl : l.token.startsValue = true ∨ l.token.isAmong [";"] = true) :
    Ends declarationWord? l Q ↔ Q none l := by
  have hwords : ∀ w ∈ ["var", "const", "let"], l.token.isWord w = false := by
    intro w hw
    rcases hl with hl | hl
    · refine Token.isWord_of_kind hl fun escaped => ?_
      simp only [List.mem_cons, List.not_mem_nil, or_false] at hw
      rcases hw with rfl | rfl | rfl <;> cases escaped <;> decide
    · exact Token.eq_of_isAmong hl (·.isWord w) false ⟨rfl, fun _ _ => rfl⟩
  simp [declarationWord?, hwords]

section

variable {ν : Type} [Numeric ν] {e test update : Expression ν}

/-! ## Expressions as statements -/

/-- No statement of a keyword starts like an expression, except for functions behind `async`. -/
theorem ends_keywordStatement?_none {word : String} {escaped : Bool}
    {Q : Option Clause → Lexeme → Prop} (h : (Token.word word escaped).startsValue = true)
    (hl : l.Next fun m => m.token.isSecond = true) (hQ : Q none l) :
    Ends ((grammar N).keywordStatement? ctx declares l word) l Q := by
  obtain ⟨m, hm, hsecond⟩ := hl
  have hfunction : m.token.isWord "function" = false := by
    simp only [Token.isSecond, Bool.and_eq_true, Bool.not_eq_true'] at hsecond
    exact hsecond.2
  unfold Grammar.keywordStatement?
  split
  case h_15 =>
    simp only [ends_bind, ends_next?, hm, hfunction, Bool.false_and, Bool.false_eq_true, if_false,
      ends_pure]
    exact hQ
  case h_17 => exact ends_pure.2 hQ
  all_goals exact absurd h (by cases escaped <;> decide)

theorem ends_plain {S : Clause → Lexeme → Prop} (h : AsValue strict ts (·.lower = .ok e))
    (hts : Starts Token.startsValue ts) (hctx : ctx.Fits strict) (hN : 12 * ts.length ≤ N)
    (hl : Spells ts P l)
    (hP : ∀ m, P m → m.afterLineEnd = false ∧ m.token.isAmong [";"] = true)
    (hS : ∀ n m, n.lower = .ok e → P m → Ends statementEnd m fun _ k => S (.expression n) k) :
    Ends (statement (grammar N) ctx declares) l S := by
  have hstart := hts.token hl
  have hdisguised := Token.isDisguised_of_startsValue hstart ctx
  have hfollows : ∀ m, P m → m.Follows valueEnds ∧ m.token.isMark "," = false := by
    intro m hm
    obtain ⟨hline, htoken⟩ := hP m hm
    have hend : m.Follows [";"] := by
      refine ⟨hline, htoken, fun hquestion => ?_⟩
      rw [hquestion] at htoken
      exact absurd htoken (by decide)
    exact ⟨hend.mono (by decide), hend.isMark_eq_false (by decide)⟩
  have hnext := hts.next hl fun m hm =>
    Token.eq_of_isAmong (hP m hm).2 Token.isSecond true (by decide)
  have hplain : Ends ((grammar N).plainStatement ctx l) l S := by
    obtain ⟨m, hm, hsecond⟩ := hnext
    have hcolon : m.token.isMark ":" = false := by
      simp only [Token.isSecond, Bool.and_eq_true, Bool.not_eq_true'] at hsecond
      exact hsecond.1
    unfold Grammar.plainStatement Grammar.wholeExpression
    have hread : Ends (grammar N (.expression ctx.withIn)) l fun n m =>
        Ends statementEnd m fun _ k => S (.expression n) k :=
      (h.expression hts.length_pos hctx.withIn hN hl hfollows).imp fun n m hn => hS n m hn.1 hn.2
    simp only [ends_bind, ends_next?, hm, Option.any_some, hcolon]
    cases (referenceOf? ctx l.token).filter (· != "await") <;>
      simpa only [ends_bind, ends_pure] using hread
  unfold statement
  simp only [ends_bind, ends_current, ends_guardThat, hdisguised, Bool.not_false, true_and]
  split
  · next htoken => exact absurd hstart (by rw [htoken]; decide)
  · next htoken => exact absurd hstart (by rw [htoken]; decide)
  · simp only [ends_bind, ends_declarationWord?_none (.inl hstart)]
    split
    · next word escaped htoken =>
      rw [htoken] at hstart
      exact ends_bind.2 (ends_keywordStatement?_none hstart hnext hplain)
    · exact hplain

/-! ## What is read as a statement -/

/-- The tokens of the statement are read as the statement inside a function. Where declarations may
not stand, blocks and branches may, and behind a branch stands no alternative of another one. -/
structure AsStatement (strict : Bool) (s : Statement ν) : Prop where
  starts : ∃ t ts, s.tokens = t :: ts ∧ t.startsStatement = true
  reads : ∀ {ctx : Context} {declares : Bool} {N : Nat} {l : Lexeme} {P : Lexeme → Prop},
    ctx.Fits strict → ctx.inFunction = true →
    (declares = true ∨ s.isBlock = true ∨ s.isBranch = true) →
    12 * s.tokens.length ≤ N + 1 → Spells s.tokens P l →
    (s.isBranch = true → ∀ m, P m → m.token.isWord "else" = false) →
    Ends (grammar N (.statement ctx declares)) l fun c m => c.lower = .ok [s] ∧ P m

theorem asStatement_expression (h : Reads.Tree strict e) : AsStatement strict (.expression e) := by
  obtain ⟨needed, htokens⟩ := Statement.tokens_expression e
  have hreads := h.wrapped needed
  refine ⟨?_, fun {ctx declares N l P} hctx _ _ hN hl _ => ?_⟩
  · obtain ⟨t, ts, hts, ht, -⟩ := hreads.starts
    rw [htokens, hts]
    exact ⟨t, ts ++ [.mark ";"], rfl, Token.startsStatement_of_startsValue ht⟩
  · rw [htokens] at hN hl
    simp only [List.length_append, List.length_singleton] at hN
    obtain ⟨N, rfl⟩ : ∃ k, N = k + 1 := ⟨N - 1, by omega⟩
    refine ends_plain hreads.value hreads.starts hctx (by omega)
      (Spells.split hl hreads.ne_nil) ?_ ?_
    · rintro m ⟨hm, hsemicolon, -⟩
      exact ⟨hm, by rw [hsemicolon]; rfl⟩
    · rintro n m hn ⟨-, hsemicolon, hnext⟩
      have hsemicolon : m.token.isMark ";" = true := by simp [hsemicolon, Token.isMark]
      simp only [ends_statementEnd, hsemicolon, if_true]
      refine hnext.imp fun k hk => ⟨?_, hk.2⟩
      simp only [Clause.lower, lowered_bind]
      exact ⟨e, hn, rfl⟩

/-! ## Statements in a row -/

theorem Clause.eq_of_isStrictDirective {c : Clause} {s : Statement ν} (hc : c.lower = .ok [s])
    (h : c.isStrictDirective = true) : s = .expression (.literal (.string "use strict")) := by
  unfold Clause.isStrictDirective at h
  split at h
  · next text isPlain =>
    rw [Bool.and_eq_true, beq_iff_eq] at h
    obtain ⟨-, rfl⟩ := h
    cases hc
    rfl
  · cases h

variable {α : Type} {s : Statement ν} {ss body : List (Statement ν)} {inPrologue : Bool}

theorem Token.eq_mark {t : Token} {text : String} (h : t.isMark text = true) : t = .mark text := by
  cases t with
  | mark m => rw [eq_of_beq h]
  | _ => cases h

theorem ends_atStatementsEnd_of_brace {B : Bool → Lexeme → Prop} (hl : l.token = .mark "\x7d") :
    Ends atStatementsEnd l B ↔ B true l := by
  simp [atStatementsEnd, hl]

theorem ends_atStatementsEnd_of_starts {B : Bool → Lexeme → Prop}
    (hl : l.token.startsStatement = true) : Ends atStatementsEnd l B ↔ B false l := by
  have hbrace : l.token.isMark "\x7d" = false := Token.isMark_of_kind hl (by decide)
  have hcase : l.token.isWord "case" = false := Token.isWord_of_kind hl (by decide)
  have hdefault : l.token.isWord "default" = false := Token.isWord_of_kind hl (by decide)
  unfold atStatementsEnd
  simp only [ends_bind, ends_current]
  cases htoken : l.token with
  | finish =>
    rw [htoken] at hl
    cases hl
  | word w escaped =>
    rw [htoken] at hcase hdefault
    simp only [Token.isWord] at hcase hdefault
    simp only [hcase, hdefault, Bool.or_self, ends_pure]
  | mark m =>
    rw [htoken] at hbrace
    simp only [Token.isMark] at hbrace
    simp only [hbrace, ends_pure]
  | _ => simp only [ends_pure]

/-- What follows a statement in a row that a closing brace ends is the start of no alternative. -/
theorem isWord_else_of_row (h : ∀ s ∈ ss, AsStatement strict s)
    (hP : ∀ m, P m → m.token = .mark "\x7d") (hm : Spells (Statement.allTokens ss) P m) :
    m.token.isWord "else" = false := by
  cases ss with
  | nil =>
    rw [hP m hm]
    rfl
  | cons s ss =>
    obtain ⟨t, ts, hts, ht⟩ := (h s List.mem_cons_self).starts
    rw [Statement.allTokens, hts] at hm
    rw [hm.1]
    exact Token.isWord_of_kind ht (by decide)

/-- Statements up to a closing brace. If the first of them asks for strict code, all of them can be
read there. -/
theorem ends_statements (h : ∀ s ∈ ss, AsStatement strict s) (hctx : ctx.Fits strict)
    (hin : ctx.inFunction = true)
    (hasked : inPrologue = true → Statement.askForStrict ss = true → strict = true)
    (hN : 12 * (Statement.allTokens ss).length < N) (hl : Spells (Statement.allTokens ss) P l)
    (hP : ∀ m, P m → m.token = .mark "\x7d") :
    Ends (grammar N (.statements ctx false inPrologue)) l fun cs m =>
      lowerClauses cs = .ok ss ∧ P m := by
  induction ss generalizing ctx inPrologue N l with
  | nil =>
    obtain ⟨N, rfl⟩ : ∃ k, N = k + 1 := ⟨N - 1, by omega⟩
    change Ends (statements (grammar N) ctx false inPrologue) l _
    unfold statements
    simp only [ends_bind, ends_atStatementsEnd_of_brace (hP l hl), if_true, ends_pure]
    exact ⟨rfl, hl⟩
  | cons s ss ih =>
    obtain ⟨N, rfl⟩ : ∃ k, N = k + 1 := ⟨N - 1, by omega⟩
    obtain ⟨hs, hss⟩ := List.forall_mem_cons.1 h
    rw [Statement.allTokens, List.length_append] at hN
    rw [Statement.allTokens, spells_append] at hl
    change Ends (statements (grammar N) ctx false inPrologue) l _
    have hstart : l.token.startsStatement = true := by
      obtain ⟨t, ts, hts, ht⟩ := hs.starts
      rw [hts] at hl
      rw [hl.1]
      exact ht
    unfold statements
    simp only [ends_bind, ends_atStatementsEnd_of_starts hstart, Bool.false_eq_true, if_false,
      ends_guardThat, ends_atWord, ends_current, Bool.false_and, Bool.not_false, true_and]
    refine (hs.reads hctx hin (.inl rfl) (by omega) hl
      fun _ m hm => isWord_else_of_row hss hP hm).imp ?_
    rintro c m ⟨hc, hm⟩
    -- a string that asks for strict code has a semicolon behind it
    have hquiet : (inPrologue && Clause.isStrictDirective c &&
        ! (lexeme? l.rest l.stop false).any (·.token.isMark ";")) = false := by
      cases hdirective : Clause.isStrictDirective c with
      | false => simp
      | true =>
        obtain rfl := Clause.eq_of_isStrictDirective hc hdirective
        simp only [Statement.tokens, Expression.tokens, List.singleton_append] at hl
        obtain ⟨k, hk, -, hsemicolon, -⟩ := hl.2
        simp [hk, hsemicolon, Token.isMark]
    have hasked' : (ctx.isStrict || inPrologue && Clause.isStrictDirective c) = true →
        strict = true := by
      rw [Bool.or_eq_true, Bool.and_eq_true]
      rintro (hstrict | ⟨hprologue, hdirective⟩)
      · exact hctx.strict hstrict
      · obtain rfl := Clause.eq_of_isStrictDirective hc hdirective
        exact hasked hprologue rfl
    have hpos : 0 < s.tokens.length := by
      obtain ⟨t, ts, hts, -⟩ := hs.starts
      rw [hts]
      exact Nat.succ_pos ts.length
    simp only [hquiet, Bool.false_eq_true, if_false, ends_bind, ends_pure]
    refine Ends.imp (ih hss ?_ hin (fun h => absurd h Bool.false_ne_true) (by omega) hm) ?_
    · exact ⟨hasked', hctx.async, hctx.generator, hctx.staticBlock, hctx.field⟩
    rintro cs k ⟨hcs, hk⟩
    refine ⟨?_, hk⟩
    simp only [lowerClauses, lowered_bind]
    exact ⟨[s], hc, ss, hcs, rfl⟩

/-! ## Blocks and bodies -/

theorem ends_braced (h : ∀ s ∈ ss, AsStatement strict s) (hctx : ctx.Fits strict)
    (hin : ctx.inFunction = true)
    (hasked : inPrologue = true → Statement.askForStrict ss = true → strict = true)
    (hN : 12 * (Statement.allTokens ss).length < N)
    (hl : Spells (.mark "\x7b" :: Statement.allTokens ss ++ [.mark "\x7d"]) P l)
    {f : List Clause → Parse α} {S : α → Lexeme → Prop}
    (hf : ∀ cs m, lowerClauses cs = .ok ss → P m → Ends (f cs) m S) :
    Ends (do
      expectMark "\x7b"
      let body ← grammar N (.statements ctx false inPrologue)
      expectMark "\x7d"
      f body) l S := by
  obtain ⟨hopen, hnext⟩ := hl
  have hopen : l.token.isMark "\x7b" = true := by simp [hopen, Token.isMark]
  simp only [ends_bind, ends_expectMark, hopen, true_and]
  refine hnext.imp ?_
  rintro m ⟨-, hm⟩
  rw [List.append_eq, spells_append] at hm
  refine (ends_statements h hctx hin hasked hN hm fun k hk => hk.1).imp ?_
  rintro cs k ⟨hcs, hclose, hnext⟩
  have hclose : k.token.isMark "\x7d" = true := by simp [hclose, Token.isMark]
  exact ⟨hclose, hnext.imp fun k' hk' => hf cs k' hcs hk'.2⟩

theorem ends_functionBody (h : ∀ s ∈ ss, AsStatement strict s) (hctx : ctx.Fits strict)
    (hin : ctx.inFunction = true)
    (hasked : inPrologue = true → Statement.askForStrict ss = true → strict = true)
    {params : List Binding} (hparams : params.all Binding.isName = true)
    (hN : 12 * (Statement.allTokens ss).length < N)
    (hl : Spells (.mark "\x7b" :: Statement.allTokens ss ++ [.mark "\x7d"]) P l) :
    Ends ((grammar N).functionBody ctx inPrologue params) l fun cs m =>
      lowerClauses cs = .ok ss ∧ P m := by
  refine ends_braced h hctx hin hasked hN hl fun cs m hcs hm => ?_
  simp only [ends_bind, ends_guardThat, hparams, Bool.true_or, true_and, ends_pure]
  exact ⟨hcs, hm⟩

theorem asBody_statements (h : ∀ s ∈ ss, AsStatement strict s) :
    AsBody strict (.mark "\x7b" :: Statement.allTokens ss ++ [.mark "\x7d"])
      (lowerClauses · = .ok ss) := by
  refine ⟨fun {ctx N l P params} hctx hin hparams hN hl _ => ?_⟩
  simp only [List.length_append, List.length_cons, List.length_nil] at hN
  have hopen : l.token.isMark "\x7b" = true := by simp [hl.1, Token.isMark]
  simp only [EndsBody, hopen, if_true]
  exact ends_functionBody h hctx hin (fun h => absurd h Bool.false_ne_true) hparams (by omega) hl

theorem asStatement_block (h : ∀ s ∈ body, AsStatement strict s) :
    AsStatement strict (.block body) := by
  have htokens : (Statement.block body).tokens =
      .mark "\x7b" :: Statement.allTokens body ++ [.mark "\x7d"] := by rw [Statement.tokens]
  refine ⟨⟨_, _, htokens, rfl⟩, fun {ctx declares N l P} hctx hin _ hN hl _ => ?_⟩
  rw [htokens] at hN hl
  simp only [List.length_append, List.length_cons, List.length_nil] at hN
  obtain ⟨N, rfl⟩ : ∃ k, N = k + 1 := ⟨N - 1, by omega⟩
  have hopen : l.token = .mark "\x7b" := hl.1
  have hbody : Ends ((grammar N).block ctx) l fun cs m => lowerClauses cs = .ok body ∧ P m :=
    ends_braced h hctx hin (fun h => absurd h Bool.false_ne_true) (by omega) hl
      fun cs m hcs hm => ends_pure.2 ⟨hcs, hm⟩
  change Ends (statement (grammar N) ctx declares) l _
  unfold statement
  simp only [ends_bind, ends_current, ends_guardThat, hopen, isDisguised, Bool.not_false, true_and,
    ends_pure]
  refine hbody.imp fun cs m hcs => ⟨?_, hcs.2⟩
  simp only [Clause.lower, lowered_bind]
  exact ⟨body, hcs.1, rfl⟩

/-! ## Statements that start with a keyword -/

theorem Grammar.keywordStatement?_if (g : Grammar) :
    g.keywordStatement? ctx declares l "if" = some <$> g.branch ctx := rfl

theorem Grammar.keywordStatement?_for (g : Grammar) :
    g.keywordStatement? ctx declares l "for" = some <$> g.forLoop ctx := rfl

theorem Grammar.keywordStatement?_return (g : Grammar) :
    g.keywordStatement? ctx declares l "return" = some <$> g.returned ctx := rfl

theorem Grammar.keywordStatement?_function (g : Grammar) :
    g.keywordStatement? ctx declares l "function" = (do
      guardThat declares
      some <$> g.functionDeclaration ctx l.start false) := rfl

theorem ends_keyword {S : Clause → Lexeme → Prop} {word : String} (hl : l.token = .word word false)
    (hword : word ≠ "var" ∧ word ≠ "const" ∧ word ≠ "let")
    (h : Ends ((grammar N).keywordStatement? ctx declares l word) l fun c m =>
      ∃ clause, c = some clause ∧ S clause m) :
    Ends (statement (grammar N) ctx declares) l S := by
  unfold statement declarationWord?
  simp only [ends_bind, ends_ite, ends_current, ends_guardThat, ends_atWord, ends_pure, hl,
    isDisguised, Token.isWord, beq_eq_false_iff_ne.2 hword.1, beq_eq_false_iff_ne.2 hword.2.1,
    beq_eq_false_iff_ne.2 hword.2.2, Bool.false_and, Bool.not_false, Bool.false_eq_true, if_false,
    true_and]
  refine h.imp ?_
  rintro _ m ⟨clause, rfl, hclause⟩
  exact ends_pure.2 hclause

theorem asStatement_result_none : AsStatement strict (.result none : Statement ν) := by
  have htokens : (Statement.result none : Statement ν).tokens =
      [.word "return" false, .mark ";"] := by
    rw [Statement.tokens]
  refine ⟨⟨_, _, htokens, rfl⟩, fun {ctx declares N l P} _ hin _ hN hl _ => ?_⟩
  rw [htokens] at hN hl
  simp only [List.length_cons, List.length_nil] at hN
  obtain ⟨N, rfl⟩ : ∃ k, N = k + 1 := ⟨N - 1, by omega⟩
  obtain ⟨hreturn, hnext⟩ := hl
  refine ends_keyword hreturn (by decide) ?_
  have hword : l.token.isWord "return" = true := by simp [hreturn, Token.isWord]
  simp only [Grammar.keywordStatement?_return, Grammar.returned, ends_map, ends_bind,
    ends_guardThat, hin, ends_expectWord, hword, true_and]
  refine hnext.imp ?_
  rintro m ⟨-, hsemicolon, hnext⟩
  have hsemicolon : m.token.isMark ";" = true := by simp [hsemicolon, Token.isMark]
  simp only [ends_atStatementEnd, ends_statementEnd, hsemicolon, Bool.true_or, if_true, ends_bind,
    ends_pure]
  exact hnext.imp fun k hk => ⟨_, rfl, rfl, hk.2⟩

theorem asStatement_result (h : Reads.Tree strict e) : AsStatement strict (.result (some e)) := by
  have htokens : (Statement.result (some e)).tokens =
      .word "return" false :: (e.tokens ++ [.mark ";"]) := by
    rw [Statement.tokens]
    rfl
  refine ⟨⟨_, _, htokens, rfl⟩, fun {ctx declares N l P} hctx hin _ hN hl _ => ?_⟩
  rw [htokens] at hN hl
  simp only [List.length_append, List.length_cons, List.length_nil] at hN
  obtain ⟨N, rfl⟩ : ∃ k, N = k + 1 := ⟨N - 1, by omega⟩
  obtain ⟨hreturn, hnext⟩ := hl
  refine ends_keyword hreturn (by decide) ?_
  have hword : l.token.isWord "return" = true := by simp [hreturn, Token.isWord]
  simp only [Grammar.keywordStatement?_return, Grammar.returned, ends_map, ends_bind,
    ends_guardThat, hin, ends_expectWord, hword, true_and]
  refine hnext.imp ?_
  rintro m ⟨hm, hspells⟩
  have hstart := h.starts.token (Spells.split hspells h.ne_nil)
  have hend : (m.token.isMark ";" || (m.afterLineEnd || m.token == .finish ||
      m.token.isMark "\x7d")) = false := by
    have hsemicolon : m.token.isMark ";" = false := Token.isMark_of_kind hstart (by decide)
    have hbrace : m.token.isMark "\x7d" = false := Token.isMark_of_kind hstart (by decide)
    have hfinish : (m.token == .finish) = false := by
      cases htoken : m.token with
      | finish => rw [htoken] at hstart; cases hstart
      | _ => rfl
    simp only [hsemicolon, hm, hfinish, hbrace, Bool.or_self]
  simp only [ends_atStatementEnd, hend, Bool.false_eq_true, if_false, ends_bind]
  refine (h.value.before_mark h.starts.length_pos hctx (by omega) (by decide) hspells).imp ?_
  rintro n k ⟨hn, hsemicolon, hnext⟩
  simp only [ends_statementEnd, hsemicolon, if_true, ends_pure]
  refine hnext.imp fun k' hk' => ⟨_, rfl, ?_, hk'.2⟩
  simp only [Clause.lower, lowerOption, lowered_bind]
  exact ⟨_, ⟨e, hn, rfl⟩, rfl⟩

/-! ## Branches -/

theorem ends_test (h : Reads.Tree strict test) (hctx : ctx.Fits strict)
    (hN : 12 * test.tokens.length ≤ N)
    (hl : Spells (.mark "(" :: (test.tokens ++ .mark ")" :: us)) P l) :
    Ends ((grammar N).test ctx) l fun n m =>
      n.lower = .ok test ∧ m.afterLineEnd = false ∧ Spells us P m := by
  obtain ⟨hopen, hnext⟩ := hl
  have hopen : l.token.isMark "(" = true := by simp [hopen, Token.isMark]
  unfold Grammar.test
  simp only [ends_bind, ends_expectMark, hopen, true_and]
  refine hnext.imp fun m hm => ?_
  refine (h.value.before_mark h.starts.length_pos hctx hN (by decide) hm.2).imp ?_
  rintro n k ⟨hn, hclose, hnext⟩
  exact ⟨hclose, hnext.imp fun k' hk' => ends_pure.2 ⟨hn, hk'⟩⟩

omit [Numeric ν] in
theorem Statement.isBranch_of_isBlock (h : s.isBlock = true) : s.isBranch = false := by
  cases s with
  | block body => rfl
  | _ => cases h

variable {consequent alternate : Statement ν}

theorem asStatement_branch (htest : Reads.Tree strict test)
    (hconsequent : AsStatement strict consequent)
    (hblock : consequent.isBlock = true) : AsStatement strict (.branch test consequent none) := by
  have htokens : (Statement.branch test consequent none).tokens = .word "if" false :: .mark "(" ::
      (test.tokens ++ .mark ")" :: consequent.tokens) := by
    rw [Statement.tokens]
    simp
  refine ⟨⟨_, _, htokens, rfl⟩, fun {ctx declares N l P} hctx hin _ hN hl helse => ?_⟩
  rw [htokens] at hN hl
  simp only [List.length_append, List.length_cons] at hN
  obtain ⟨N, rfl⟩ : ∃ k, N = k + 1 := ⟨N - 1, by omega⟩
  obtain ⟨hif, hnext⟩ := hl
  refine ends_keyword hif (by decide) ?_
  have hword : l.token.isWord "if" = true := by simp [hif, Token.isWord]
  simp only [Grammar.keywordStatement?_if, Grammar.branch, Grammar.substatement, ends_map,
    ends_bind, ends_expectWord, hword, true_and]
  refine hnext.imp fun m hm => (ends_test htest hctx (by omega) hm.2).imp ?_
  rintro n k ⟨hn, -, hk⟩
  refine (hconsequent.reads hctx hin (.inr (.inl hblock)) (by omega) hk ?_).imp ?_
  · intro hbranch
    rw [Statement.isBranch_of_isBlock hblock] at hbranch
    cases hbranch
  · rintro c k' ⟨hc, hk'⟩
    simp only [ends_acceptWord, helse rfl k' hk', Bool.false_eq_true, if_false, ends_pure]
    refine ⟨_, rfl, ?_, hk'⟩
    simp only [Clause.lower, lowerAlternate, lowered_bind]
    exact ⟨test, hn, _, hc, none, rfl, rfl⟩

theorem asStatement_branch_else (htest : Reads.Tree strict test)
    (hconsequent : AsStatement strict consequent) (hblock : consequent.isBlock = true)
    (halternate : AsStatement strict alternate)
    (hkind : alternate.isBlock = true ∨ alternate.isBranch = true) :
    AsStatement strict (.branch test consequent (some alternate)) := by
  have htokens : (Statement.branch test consequent (some alternate)).tokens =
      .word "if" false :: .mark "(" :: (test.tokens ++ .mark ")" ::
        (consequent.tokens ++ .word "else" false :: alternate.tokens)) := by
    rw [Statement.tokens]
    simp
  refine ⟨⟨_, _, htokens, rfl⟩, fun {ctx declares N l P} hctx hin _ hN hl helse => ?_⟩
  rw [htokens] at hN hl
  simp only [List.length_append, List.length_cons] at hN
  obtain ⟨N, rfl⟩ : ∃ k, N = k + 1 := ⟨N - 1, by omega⟩
  obtain ⟨hif, hnext⟩ := hl
  refine ends_keyword hif (by decide) ?_
  have hword : l.token.isWord "if" = true := by simp [hif, Token.isWord]
  simp only [Grammar.keywordStatement?_if, Grammar.branch, Grammar.substatement, ends_map,
    ends_bind, ends_expectWord, hword, true_and]
  refine hnext.imp fun m hm => (ends_test htest hctx (by omega) hm.2).imp ?_
  rintro n k ⟨hn, -, hk⟩
  rw [spells_append] at hk
  refine (hconsequent.reads hctx hin (.inr (.inl hblock)) (by omega) hk ?_).imp ?_
  · intro hbranch
    rw [Statement.isBranch_of_isBlock hblock] at hbranch
    cases hbranch
  · rintro c k' ⟨hc, helseword, hnext⟩
    have hword : k'.token.isWord "else" = true := by simp [helseword, Token.isWord]
    simp only [ends_acceptWord, hword, if_true, ends_bind, ends_pure]
    refine hnext.imp fun k'' hk'' => ?_
    refine (halternate.reads hctx hin (.inr hkind) (by omega) hk''.2 fun _ => helse rfl).imp ?_
    rintro c' j ⟨hc', hj⟩
    refine ⟨_, rfl, ?_, hj⟩
    simp only [Clause.lower, lowerAlternate, lowered_bind]
    exact ⟨test, hn, _, hc, some alternate, ⟨_, hc', rfl⟩, rfl⟩

/-! ## Declarations -/

def DeclarationWord.ofKind : DeclarationKind → DeclarationWord
  | .mutable => .let_
  | .constant => .const

variable {kind : DeclarationKind} {name : String} {init : Option (Expression ν)}

theorem ends_bindingName (hctx : ctx.Fits strict) (hname : isVariable strict name = true)
    (hl : l.token = .word name false) {Q : String → Lexeme → Prop} :
    Ends (bindingName ctx) l Q ↔ l.Next (Q name) := by
  simp only [bindingName, ends_bind, ends_current, hl, bindingOf?_of_isVariable hctx hname,
    ends_advance, ends_pure]

theorem ends_binding (hctx : ctx.Fits strict) (hname : isVariable strict name = true)
    (hl : l.token = .word name false) {g : Grammar} {Q : Binding → Lexeme → Prop} :
    Ends (g.binding ctx) l Q ↔ l.Next (Q (.name l.start name)) := by
  have hbracket : l.token.isMark "[" = false := by rw [hl]; rfl
  have hbrace : l.token.isMark "\x7b" = false := by rw [hl]; rfl
  simp only [Grammar.binding, ends_bind, ends_ite, ends_current, ends_acceptMark, hbracket, hbrace,
    Bool.false_eq_true, if_false, ends_bindingName hctx hname hl, ends_pure]

theorem ends_declarationWord? (hname : isVariable strict name = true)
    (hl : Spells (.word kind.text false :: .word name false :: ts) P l)
    {Q : Option DeclarationWord → Lexeme → Prop} :
    Ends declarationWord? l Q ↔ Q (some (.ofKind kind)) l := by
  obtain ⟨hword, m, hm, -, hname', -⟩ := hl
  have hkeyword : name ∉ keywords := by
    simp only [isVariable, Bool.and_eq_true] at hname
    simpa using hname.1.1
  cases kind <;>
    simp [declarationWord?, DeclarationKind.text, DeclarationWord.ofKind, Token.isWord, hword, hm,
      hname', startsBinding, hkeyword]

theorem ends_declarators {inHeader : Bool} (hname : isVariable strict name = true)
    (hconstant : kind = .constant → init ≠ none) (hinit : ∀ e ∈ init, Reads.Tree strict e)
    (hctx : ctx.Fits strict)
    (hN : 12 * (Expression.initializerTokens init).length < N)
    (hl : Spells (.word name false :: (Expression.initializerTokens init ++ .mark ";" :: us)) P l) :
    Ends (grammar N (.declarators ctx (.ofKind kind) inHeader)) l fun ds m =>
      lowerDeclarators kind ds = .ok [(name, init)] ∧ Spells (.mark ";" :: us) P m := by
  obtain ⟨N, rfl⟩ : ∃ k, N = k + 1 := ⟨N - 1, by omega⟩
  obtain ⟨hword, hnext⟩ := hl
  change Ends (declarators (grammar N) ctx (.ofKind kind) inHeader) l _
  unfold declarators
  simp only [ends_bind, ends_binding hctx hname hword]
  refine hnext.imp ?_
  rintro m ⟨-, hspells⟩
  have hlet : (DeclarationWord.ofKind kind == DeclarationWord.var || name != "let") = true := by
    have hname : name ≠ "let" := by
      rintro rfl
      exact absurd hname (by cases strict <;> decide)
    simp [hname]
  simp only [ends_guardThat, hlet, true_and, ends_acceptMark]
  cases init with
  | none =>
    obtain rfl : kind = .mutable := by
      cases kind with
      | mutable => rfl
      | constant => exact absurd rfl (hconstant rfl)
    rw [Expression.initializerTokens, List.nil_append] at hspells
    have hequals : m.token.isMark "=" = false := by simp [hspells.1, Token.isMark]
    have hcomma : m.token.isMark "," = false := by simp [hspells.1, Token.isMark]
    simp only [atLoopHead, hequals, hcomma, Bool.false_eq_true, if_false, ends_bind, ends_atWord,
      ends_pure, ends_guardThat, ends_acceptMark]
    exact ⟨rfl, rfl, hspells⟩
  | some e =>
    have he := hinit e rfl
    rw [Expression.initializerTokens] at hN hspells
    rw [List.length_cons] at hN
    obtain ⟨hequals, hnext⟩ := hspells
    have hequals : m.token.isMark "=" = true := by simp [hequals, Token.isMark]
    simp only [hequals, if_true, ends_bind, ends_pure, ends_acceptMark]
    refine hnext.imp ?_
    rintro k ⟨-, hspells⟩
    rw [List.append_eq] at hspells
    refine (he.value.reads hctx (by omega) (Spells.split hspells he.ne_nil) ?_).imp ?_
    · rintro k ⟨hk, hspells⟩
      exact Lexeme.follows_mark hk hspells (by decide) (by decide)
    · rintro n k ⟨hn, -, hspells⟩
      have hcomma : k.token.isMark "," = false := by simp [hspells.1, Token.isMark]
      simp only [hcomma, Bool.false_eq_true, if_false, ends_pure]
      refine ⟨?_, hspells⟩
      simp only [lowerDeclarators, declared, lowerOption, lowered_bind]
      exact ⟨name, rfl, some e, ⟨e, hn, rfl⟩, rfl⟩

omit [Numeric ν] in
theorem declarationKind_ofKind (start : Nat) (kind : DeclarationKind) :
    declarationKind start (.ofKind kind) = .ok kind := by
  cases kind <;> rfl

theorem asStatement_declaration (hname : isVariable strict name = true)
    (hconstant : kind = .constant → init ≠ none) (hinit : ∀ e ∈ init, Reads.Tree strict e) :
    AsStatement strict (.declaration kind name init) := by
  have htokens : (Statement.declaration kind name init).tokens = .word kind.text false ::
      .word name false :: (Expression.initializerTokens init ++ [.mark ";"]) := by
    rw [Statement.tokens]
    rfl
  have hstarts : (Token.word kind.text false).startsStatement = true := by cases kind <;> decide
  refine ⟨⟨_, _, htokens, hstarts⟩, fun {ctx declares N l P} hctx hin hdeclares hN hl _ => ?_⟩
  rw [htokens] at hN hl
  simp only [List.length_append, List.length_cons] at hN
  obtain ⟨N, rfl⟩ : ∃ k, N = k + 1 := ⟨N - 1, by omega⟩
  obtain rfl : declares = true := by
    rcases hdeclares with h | h | h
    · exact h
    · cases h
    · cases h
  have hword : l.token = .word kind.text false := hl.1
  change Ends (statement (grammar N) ctx true) l _
  unfold statement
  simp only [ends_bind, ends_current, ends_guardThat, hword, isDisguised, Bool.false_and,
    Bool.not_false, true_and, ends_declarationWord? hname hl, Bool.true_or, if_true, ends_advance]
  refine hl.2.imp fun m hm => ?_
  refine (ends_declarators hname hconstant hinit hctx.withIn (by omega) hm.2).imp ?_
  rintro ds k ⟨hds, hsemicolon, hnext⟩
  have hsemicolon : k.token.isMark ";" = true := by simp [hsemicolon, Token.isMark]
  simp only [ends_statementEnd, hsemicolon, if_true, ends_pure]
  refine hnext.imp fun k' hk' => ⟨?_, hk'.2⟩
  simp only [Clause.lower, declarationKind_ofKind, lowered_bind]
  exact ⟨kind, rfl, _, hds, rfl⟩

/-! ## Loops -/

theorem ends_optional {o : Option (Expression ν)} {text : String} (htext : text ∈ [")", "]", ";"])
    (h : ∀ e ∈ o, Reads.Tree strict e) (hctx : ctx.Fits strict)
    (hN : 12 * (Expression.optionTokens o).length ≤ N)
    (hl : Spells (Expression.optionTokens o ++ .mark text :: us) P l)
    {f : Option Node → Parse α} {S : α → Lexeme → Prop}
    (hf : ∀ n m, lowerOption n = .ok o → m.token.isMark text = true →
      (m.Next fun k => k.afterLineEnd = false ∧ Spells us P k) → Ends (f n) m S) :
    Ends (do
      let n ← if ← atMark text then pure none else pure (some (← (grammar N).wholeExpression ctx))
      f n) l S := by
  simp only [ends_bind, ends_ite, ends_atMark, ends_pure]
  cases o with
  | none =>
    rw [Expression.optionTokens, List.nil_append] at hl
    have hmark : l.token.isMark text = true := by simp [hl.1, Token.isMark]
    rw [if_pos hmark]
    exact hf none l rfl hmark hl.2
  | some e =>
    have he := h e rfl
    rw [Expression.optionTokens] at hN hl
    have hstart := he.starts.token (Spells.split hl he.ne_nil)
    have hmark : l.token.isMark text = false := by
      have hall : ∀ t ∈ [")", "]", ";"], (Token.mark t).startsValue = false := by decide
      exact Token.isMark_of_kind hstart (hall text htext)
    rw [if_neg (by rw [hmark]; exact Bool.false_ne_true)]
    refine (he.value.before_mark he.starts.length_pos hctx hN htext hl).imp ?_
    rintro n m ⟨hn, hm, hnext⟩
    refine hf (some n) m ?_ hm hnext
    simp only [lowerOption, lowered_bind]
    exact ⟨e, hn, rfl⟩

variable {start : LoopStart ν} {test' update' : Option (Expression ν)} {loopBody : Statement ν}

theorem ends_countedLoop {loopInit : LoopInit} (hinit : loopInit.lower = .ok start)
    (htest : ∀ e ∈ test', Reads.Tree strict e) (hupdate : ∀ e ∈ update', Reads.Tree strict e)
    (hbody : AsStatement strict loopBody) (hblock : loopBody.isBlock = true)
    (hctx : ctx.Fits strict) (hin : ctx.inFunction = true)
    (hN : 12 * ((Expression.optionTokens test').length + (Expression.optionTokens update').length +
      loopBody.tokens.length) ≤ N)
    (hl : Spells (Expression.optionTokens test' ++ .mark ";" ::
      (Expression.optionTokens update' ++ .mark ")" :: loopBody.tokens)) P l) :
    Ends ((grammar N).countedLoop ctx loopInit) l fun c m =>
      c.lower = .ok [.loop start test' update' loopBody] ∧ P m := by
  unfold Grammar.countedLoop
  refine ends_optional (by decide) htest hctx (by omega) hl fun n m hn hsemicolon hnext => ?_
  rw [ends_bind, ends_expectMark]
  refine ⟨hsemicolon, hnext.imp fun k hk => ?_⟩
  refine ends_optional (by decide) hupdate hctx (by omega) hk.2 fun n' k hn' hclose hnext => ?_
  unfold Grammar.substatement
  simp only [ends_bind, ends_expectMark, hclose, true_and]
  refine hnext.imp fun k hk => ?_
  refine (hbody.reads hctx.enterLoop hin (.inr (.inl hblock)) (by omega) hk.2 ?_).imp ?_
  · intro hbranch
    rw [Statement.isBranch_of_isBlock hblock] at hbranch
    cases hbranch
  · rintro c k' ⟨hc, hk'⟩
    refine ends_pure.2 ⟨?_, hk'⟩
    simp only [Clause.lower, lowered_bind]
    exact ⟨start, hinit, test', hn, update', hn', _, hc, rfl⟩

theorem ends_atLoopHead_of_mark {text : String} (hl : l.token.isMark text = true)
    {B : Bool → Lexeme → Prop} : Ends atLoopHead l B ↔ B false l := by
  have htoken := Token.eq_mark hl
  simp [atLoopHead, htoken, Token.isWord]

theorem ends_atAsyncVariable {B : Bool → Lexeme → Prop} (h : ∀ b, B b l) :
    Ends atAsyncVariable l B := by
  unfold atAsyncVariable
  simp only [ends_bind, ends_ite, ends_current, ends_next?, ends_pure]
  split
  · split <;> exact ends_pure.2 (h _)
  · exact h _

/-- What stands before the first semicolon in the header of a loop can be read. -/
def LoopStart.IsRead (strict : Bool) : LoopStart ν → Prop
  | .absent => True
  | .declaration kind name init => isVariable strict name = true ∧
      (kind = .constant → init ≠ none) ∧ ∀ e ∈ init, Reads.Tree strict e
  | .expression e => Reads.Tree strict e

theorem ends_forLoop {Q : Clause → Lexeme → Prop} (hstart : LoopStart.IsRead strict start)
    (hctx : ctx.Fits strict) (hN : 12 * start.tokens.length < N)
    (hl : Spells (.word "for" false :: .mark "(" :: (start.tokens ++ .mark ";" :: us)) P l)
    (hQ : ∀ loopInit m, loopInit.lower = .ok start → Spells us P m →
      Ends ((grammar N).countedLoop ctx loopInit) m Q) :
    Ends ((grammar N).forLoop ctx) l Q := by
  obtain ⟨hfor, hnext⟩ := hl
  have hfor : l.token.isWord "for" = true := by simp [hfor, Token.isWord]
  unfold Grammar.forLoop
  simp only [ends_bind, ends_current, ends_expectWord, hfor, true_and]
  refine hnext.imp ?_
  rintro m ⟨-, hopen, hnext⟩
  have hawait : m.token.isWord "await" = false := by simp [hopen, Token.isWord]
  have hopen : m.token.isMark "(" = true := by simp [hopen, Token.isMark]
  simp only [ends_acceptWord, hawait, Bool.false_eq_true, if_false, ends_expectMark, hopen,
    true_and]
  refine hnext.imp ?_
  rintro k ⟨-, hspells⟩
  cases start with
  | absent =>
    rw [LoopStart.tokens, List.nil_append] at hspells
    obtain ⟨hsemicolon, hnext⟩ := hspells
    rw [ends_declarationWord?_none (.inr (by rw [hsemicolon]; rfl))]
    have hsemicolon : k.token.isMark ";" = true := by simp [hsemicolon, Token.isMark]
    simp only [ends_bind, ends_acceptMark, hsemicolon, if_true, ends_guardThat, Bool.not_false,
      true_and]
    exact hnext.imp fun k' hk' => hQ .absent k' rfl hk'.2
  | declaration kind name init =>
    obtain ⟨hname, hconstant, hinit⟩ := hstart
    rw [LoopStart.tokens, List.length_cons, List.length_cons] at hN
    rw [LoopStart.tokens] at hspells
    rw [ends_declarationWord? hname hspells]
    simp only [ends_bind, ends_advance]
    refine hspells.2.imp fun k hk => ?_
    refine (ends_declarators hname hconstant hinit ?_ (by omega) hk.2).imp ?_
    · cases kind <;> exact hctx.withIn
    rintro ds k' ⟨hds, hsemicolon, hnext⟩
    have hsemicolon : k'.token.isMark ";" = true := by simp [hsemicolon, Token.isMark]
    simp only [ends_atLoopHead_of_mark hsemicolon, Bool.false_eq_true, if_false, ends_bind,
      ends_guardThat, Bool.not_false, true_and, ends_expectMark, hsemicolon]
    refine hnext.imp fun j hj => hQ _ j ?_ hj.2
    simp only [LoopInit.lower, declarationKind_ofKind, lowered_bind]
    exact ⟨kind, rfl, _, hds, rfl⟩
  | expression e =>
    have he : Reads.Tree strict e := hstart
    rw [LoopStart.tokens] at hN hspells
    have hvalue := he.starts.token (Spells.split hspells he.ne_nil)
    have hsemicolon : k.token.isMark ";" = false := Token.isMark_of_kind hvalue (by decide)
    rw [ends_declarationWord?_none (.inl hvalue)]
    simp only [ends_bind, ends_acceptMark, hsemicolon, Bool.false_eq_true, if_false]
    refine ends_atAsyncVariable fun b => ?_
    simp only [Bool.false_and, Bool.false_eq_true, if_false, ends_bind]
    have hnoIn : ({ ctx with allowsIn := false } : Context).Fits strict :=
      ⟨hctx.strict, hctx.async, hctx.generator, hctx.staticBlock, hctx.field⟩
    refine Ends.imp (he.value.expression he.starts.length_pos hnoIn (by omega)
      (Spells.split hspells he.ne_nil) ?_) ?_
    · rintro m ⟨hm, hspells⟩
      exact ⟨Lexeme.follows_mark hm hspells (by decide) (by decide), by rw [hspells.1]; rfl⟩
    · rintro n m ⟨hn, -, hsemicolon, hnext⟩
      have hsemicolon : m.token.isMark ";" = true := by simp [hsemicolon, Token.isMark]
      simp only [ends_atLoopHead_of_mark hsemicolon, Bool.false_eq_true, if_false, ends_bind,
        ends_guardThat, Bool.not_false, true_and, ends_expectMark, hsemicolon]
      refine hnext.imp fun j hj => hQ _ j ?_ hj.2
      simp only [LoopInit.lower, lowered_bind]
      exact ⟨e, hn, rfl⟩

theorem asStatement_loop (hstart : LoopStart.IsRead strict start)
    (htest : ∀ e ∈ test', Reads.Tree strict e) (hupdate : ∀ e ∈ update', Reads.Tree strict e)
    (hbody : AsStatement strict loopBody) (hblock : loopBody.isBlock = true) :
    AsStatement strict (.loop start test' update' loopBody) := by
  have htokens : (Statement.loop start test' update' loopBody).tokens =
      .word "for" false :: .mark "(" :: (start.tokens ++ .mark ";" ::
        (Expression.optionTokens test' ++ .mark ";" ::
          (Expression.optionTokens update' ++ .mark ")" :: loopBody.tokens))) := by
    rw [Statement.tokens]
    simp
  refine ⟨⟨_, _, htokens, rfl⟩, fun {ctx declares N l P} hctx hin _ hN hl _ => ?_⟩
  rw [htokens] at hN hl
  simp only [List.length_append, List.length_cons] at hN
  obtain ⟨N, rfl⟩ : ∃ k, N = k + 1 := ⟨N - 1, by omega⟩
  refine ends_keyword hl.1 (by decide) ?_
  simp only [Grammar.keywordStatement?_for, ends_map]
  refine ends_forLoop hstart hctx (by omega) hl fun loopInit m hinit hm => ?_
  have hsupply : 12 * ((Expression.optionTokens test').length +
      (Expression.optionTokens update').length + loopBody.tokens.length) ≤ N := by omega
  have hloop := ends_countedLoop hinit htest hupdate hbody hblock hctx hin hsupply hm
  exact hloop.imp fun c k hc => ⟨c, rfl, hc⟩

/-! ## Functions -/

theorem ends_params {params : List String} (h : ∀ p ∈ params, isVariable strict p = true)
    (hctx : ctx.Fits strict)
    (hN : (separated (params.map fun p => [Token.word p false])).length < N)
    (hl : Spells (separated (params.map fun p => [.word p false]) ++ .mark ")" :: us) P l) :
    Ends (grammar N (.params ctx)) l fun bindings m => bindings.all Binding.isName = true ∧
      bindings.mapM parameter = .ok params ∧ Spells us P m := by
  induction params generalizing N l with
  | nil =>
    obtain ⟨N, rfl⟩ : ∃ k, N = k + 1 := ⟨N - 1, by omega⟩
    obtain ⟨hclose, hnext⟩ := hl
    have hclose : l.token.isMark ")" = true := by simp [hclose, Token.isMark]
    change Ends (Source.params (grammar N) ctx) l _
    unfold Source.params
    simp only [ends_bind, ends_current, ends_acceptMark, hclose, if_true, ends_pure]
    exact hnext.imp fun m hm => ⟨rfl, rfl, hm.2⟩
  | cons p params ih =>
    obtain ⟨hp, hparams⟩ := List.forall_mem_cons.1 h
    obtain ⟨N, rfl⟩ : ∃ k, N = k + 1 := ⟨N - 1, by omega⟩
    -- behind the name stands a comma with more of them, or the parenthesis
    obtain ⟨rest, hrest, hafter⟩ : ∃ rest,
        separated ((p :: params).map fun p => [Token.word p false]) ++ Token.mark ")" :: us =
          .word p false :: rest ∧
        (params = [] ∧ rest = .mark ")" :: us ∨
          rest = .mark "," :: (separated (params.map fun p => [Token.word p false]) ++
            .mark ")" :: us)) := by
      cases params with
      | nil => exact ⟨_, rfl, .inl ⟨rfl, rfl⟩⟩
      | cons p' params => exact ⟨_, rfl, .inr rfl⟩
    rw [hrest] at hl
    obtain ⟨hword, hnext⟩ := hl
    have hclose : l.token.isMark ")" = false := by simp [hword, Token.isMark]
    have hspread : l.token.isMark "..." = false := by simp [hword, Token.isMark]
    change Ends (Source.params (grammar N) ctx) l _
    unfold Source.params Grammar.bindingElement
    simp only [ends_bind, ends_current, ends_acceptMark, hclose, hspread, Bool.false_eq_true,
      if_false, ends_binding hctx hp hword]
    refine hnext.imp ?_
    rintro m ⟨-, hm⟩
    rcases hafter with ⟨rfl, rfl⟩ | rfl
    · obtain ⟨hclose, hnext⟩ := hm
      have hequals : m.token.isMark "=" = false := by simp [hclose, Token.isMark]
      have hcomma : m.token.isMark "," = false := by simp [hclose, Token.isMark]
      have hclose : m.token.isMark ")" = true := by simp [hclose, Token.isMark]
      simp only [ends_expectMark, ends_pure, hequals, hcomma, hclose, Bool.false_eq_true, if_false,
        true_and]
      exact hnext.imp fun k hk => ⟨rfl, rfl, hk.2⟩
    · obtain ⟨hcomma, hnext⟩ := hm
      have hequals : m.token.isMark "=" = false := by simp [hcomma, Token.isMark]
      have hcomma : m.token.isMark "," = true := by simp [hcomma, Token.isMark]
      simp only [ends_bind, ends_pure, hequals, hcomma, Bool.false_eq_true, if_false, if_true]
      have hlength : (separated (params.map fun p => [Token.word p false])).length < N := by
        have htotal := congrArg List.length hrest
        simp only [List.length_append, List.length_cons] at htotal
        omega
      refine hnext.imp fun k hk => (ih hparams hlength hk.2).imp ?_
      rintro bindings k' ⟨hall, hnames, hk'⟩
      refine ⟨by simpa [Binding.isName] using hall, ?_, hk'⟩
      simp only [List.mapM_cons, lowered_bind]
      exact ⟨p, rfl, params, hnames, rfl⟩

theorem asStatement_function {params : List String} (hname : isVariable strict name = true)
    (hparams : ∀ p ∈ params, isVariable strict p = true)
    (hbody : ∀ s ∈ body, AsStatement (strict || Statement.askForStrict body) s) :
    AsStatement strict (.function name params body) := by
  have htokens : (Statement.function name params body).tokens =
      .word "function" false :: .word name false :: .mark "(" ::
        (separated (params.map fun p => [Token.word p false]) ++ .mark ")" ::
          (.mark "\x7b" :: Statement.allTokens body ++ [.mark "\x7d"])) := by
    rw [Statement.tokens]
    simp
  refine ⟨⟨_, _, htokens, rfl⟩, fun {ctx declares N l P} hctx hin hdeclares hN hl _ => ?_⟩
  rw [htokens] at hN hl
  simp only [List.length_append, List.length_cons] at hN
  obtain ⟨N, rfl⟩ : ∃ k, N = k + 1 := ⟨N - 1, by omega⟩
  obtain rfl : declares = true := by
    rcases hdeclares with h | h | h
    · exact h
    · cases h
    · cases h
  obtain ⟨hfunction, hnext⟩ := hl
  refine ends_keyword hfunction (by decide) ?_
  have hword : l.token.isWord "function" = true := by simp [hfunction, Token.isWord]
  simp only [Grammar.keywordStatement?_function, Grammar.functionDeclaration, Grammar.functionRest,
    ends_bind, ends_guardThat, ends_map, ends_expectWord, hword, true_and, ends_acceptMark]
  refine hnext.imp ?_
  rintro m ⟨-, hm, hnext⟩
  have hstar : m.token.isMark "*" = false := by simp [hm, Token.isMark]
  simp only [hstar, Bool.false_eq_true, if_false, ends_bindingName hctx.enterFunction hname hm]
  refine hnext.imp ?_
  rintro k ⟨-, hopen, hnext⟩
  have hopen : k.token.isMark "(" = true := by simp [hopen, Token.isMark]
  simp only [ends_expectMark, hopen, true_and]
  refine hnext.imp fun j hj => ?_
  refine (ends_params hparams hctx.enterFunction.enterParams (by omega) hj.2).imp ?_
  rintro bindings j ⟨hnames, hread, hj⟩
  refine Ends.imp (ends_functionBody hbody ?_ rfl ?_ hnames (by omega) hj) ?_
  · exact hctx.enterFunction.enterParams.enterBody.withIn.mono
      fun h => Bool.or_eq_true_iff.2 (.inl h)
  · exact fun _ h => Bool.or_eq_true_iff.2 (.inr h)
  rintro cs j ⟨hcs, hj⟩
  simp only [ends_pure, Bool.or_self, Bool.false_eq_true, if_false]
  refine ⟨_, rfl, ?_, hj⟩
  simp only [Clause.lower, lowered_bind]
  exact ⟨params, hread, body, hcs, rfl⟩

end

end Source

end Waveform
