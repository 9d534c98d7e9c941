import Waveform.Proofs.Number.Exact
import Waveform.Proofs.Source.Printing
import Waveform.Proofs.Source.Statements

/-!
# Reading what is printed

The text of a tree that can be written is read as the tree: each operand has the parentheses that it
needs, and those that it has change nothing.
-/

namespace Waveform

open Source

section

variable {ν : Type} [Numeric ν]

/-! ## Trees -/

mutual

theorem Expression.reads : ∀ {strict : Bool} {e : Expression ν}, e.IsWritten strict →
    Reads.Tree strict e
  | _, .literal _, h => reads_literal h
  | _, .identifier _, h => reads_identifier h
  | _, .builtin _, h => reads_builtin h
  | _, .array _, h => reads_array (Expression.allReads h)
  | _, .member _ _, h => reads_member (Expression.reads h.1) (Expression.reads h.2.1)
  | _, .unary _ argument, h =>
    have hargument : argument.IsWritten _ := h
    reads_unary (Expression.reads hargument)
  | _, .binary _ _ _, h => reads_binary (Expression.reads h.1) (Expression.reads h.2)
  | _, .logical _ _ _, h => reads_logical (Expression.reads h.1) (Expression.reads h.2)
  | _, .conditional _ _ _, h =>
    reads_conditional (Expression.reads h.1) (Expression.reads h.2.1) (Expression.reads h.2.2)
  | _, .call _ _, h => reads_call h.1 (Expression.reads h.1) (Expression.allReads h.2)
  | _, .function params body home, h => by
    obtain ⟨hparams, hbody, rfl⟩ := h.of_function
    exact (Statement.bodyReads hbody (Statement.allReads hbody)).toTree hparams
  | _, .assignment _ _ _, h => reads_assignment h.1 (Expression.reads h.2)
  | _, .update _ _ _, h => reads_update h

theorem Expression.allReads : ∀ {strict : Bool} {es : List (Expression ν)},
    Expression.AllWritten strict es → ReadsAll strict (Expression.allTokens es) es
  | _, [], _ => .nil
  | _, _ :: _, h =>
    .cons ⟨(Expression.reads h.1).starts, (Expression.reads h.1).value⟩ (Expression.allReads h.2)

theorem Expression.optionReads : ∀ {strict : Bool} {o : Option (Expression ν)},
    Expression.OptionWritten strict o → ∀ e ∈ o, Reads.Tree strict e
  | _, none, _ => fun _ h => absurd h (Option.not_mem_none _)
  | _, some _, h => fun _ he => Option.mem_some.1 he ▸ Expression.reads h

theorem Statement.bodyReads : ∀ {strict : Bool} {ss : List (Statement ν)},
    Statement.AllWritten strict ss → (∀ s ∈ ss, AsStatement strict s) →
      AsBody strict ((Statement.returnedTokens? ss).getD
        (.mark "\x7b" :: Statement.allTokens ss ++ [.mark "\x7d"])) (lowerClauses · = .ok ss)
  | _, [.result (some _)], h, _ =>
    have hvalue := Expression.reads h.1
    hvalue.value.asBody hvalue.starts
  | _, [], _, hbraced | _, [.block _], _, hbraced | _, [.expression _], _, hbraced
  | _, [.result none], _, hbraced | _, [.branch _ _ _], _, hbraced
  | _, [.loop _ _ _ _], _, hbraced | _, [.declaration _ _ _], _, hbraced
  | _, [.function _ _ _], _, hbraced => asBody_statements hbraced
  | _, _ :: _ :: _, _, hbraced => by
    rw [Statement.returnedTokens?_of_several]
    exact asBody_statements hbraced

theorem Statement.reads : ∀ {strict : Bool} {s : Statement ν}, s.IsWritten strict →
    AsStatement strict s
  | _, .block _, h => asStatement_block (Statement.allReads h.2.2)
  | _, .expression _, h => asStatement_expression (Expression.reads h)
  | _, .result none, _ => asStatement_result_none
  | _, .result (some _), h => asStatement_result (Expression.reads h)
  | _, .branch _ _ none, h =>
    asStatement_branch (Expression.reads h.1) (Statement.reads h.2.2.1) h.2.1
  | _, .branch _ _ (some _), h =>
    asStatement_branch_else (Expression.reads h.1) (Statement.reads h.2.2.1) h.2.1
      (Statement.reads h.2.2.2.2) h.2.2.2.1
  | _, .loop _ _ _ _, h =>
    asStatement_loop (LoopStart.reads h.1) (Expression.optionReads h.2.1)
      (Expression.optionReads h.2.2.1) (Statement.reads h.2.2.2.2) h.2.2.2.1
  | _, .declaration _ _ _, h =>
    asStatement_declaration (isVariable_of_isTarget h.1) h.2.1 (Expression.optionReads h.2.2)
  | _, .function _ _ _, h =>
    have ⟨hname, hparams, hbody⟩ := h.of_function
    asStatement_function (isVariable_of_isPlainName hname)
      (fun p hp => isVariable_of_isPlainName (hparams p hp)) (Statement.allReads hbody)

theorem Statement.allReads : ∀ {strict : Bool} {ss : List (Statement ν)},
    Statement.AllWritten strict ss → ∀ s ∈ ss, AsStatement strict s
  | _, [], _ => fun _ h => absurd h List.not_mem_nil
  | _, _ :: _, h => List.forall_mem_cons.2 ⟨Statement.reads h.1, Statement.allReads h.2⟩

theorem LoopStart.reads : ∀ {strict : Bool} {start : LoopStart ν}, start.IsWritten strict →
    LoopStart.IsRead strict start
  | _, .absent, _ => trivial
  | _, .declaration _ _ _, h =>
    ⟨isVariable_of_isTarget h.1, h.2.1, Expression.optionReads h.2.2⟩
  | _, .expression _, h => Expression.reads h

end

/-! ## Texts -/

variable {strict : Bool} {e : Expression ν}

namespace Source

theorem opens_nil : Opens [] fun m => m.token = .finish := by
  intro offset afterLineEnd
  exact ⟨_, rfl, rfl, rfl⟩

theorem ends_forgive_of_finish {l : Lexeme} {Q : Unit → Lexeme → Prop} (hl : l.token = .finish)
    (hQ : ∀ m, m.token = .finish → Q () m) : Ends forgive l Q := by
  refine ⟨(), { l with token := .finish }, ?_, hQ _ rfl⟩
  change some _ = some _
  simp only [hl]

/-- An expression alone is a text with one statement. -/
theorem ends_text {l : Lexeme} {N : Nat} (h : Reads.Tree false e)
    (hN : 12 * e.tokens.length + 2 ≤ N)
    (hl : Spells e.tokens (fun m => m.token = .finish) l) :
    Ends (grammar N (.statements {} true true)) l fun cs m =>
      lowerClauses cs = .ok [.expression e] ∧ m.token = .finish := by
  have hctx : ({} : Context).Fits false := ⟨nofun, rfl, rfl, rfl, rfl⟩
  have hstart := h.starts.token hl
  obtain ⟨N, rfl⟩ : ∃ k, N = k + 2 := ⟨N - 2, by omega⟩
  have hawait : l.token.isWord "await" = false := Token.isWord_of_kind hstart (by decide)
  change Ends (statements (grammar (N + 1)) {} true true) l _
  unfold statements
  simp only [ends_bind,
    ends_atStatementsEnd_of_starts (Token.startsStatement_of_startsValue hstart),
    Bool.false_eq_true, if_false, ends_guardThat, ends_atWord, ends_current, hawait, Bool.and_false,
    Bool.not_false, true_and]
  rw [← List.append_nil e.tokens] at hl
  refine ends_plain h.value h.starts hctx (by omega) (Spells.split hl h.ne_nil) ?_ ?_
  · rintro m ⟨hm, hfinish⟩
    have hfinish : m.token = .finish := hfinish
    exact ⟨hm, by rw [hfinish]; rfl⟩
  · rintro n m hn ⟨-, hfinish⟩
    have hfinish : m.token = .finish := hfinish
    have hlower : lowerClauses [.expression n] = .ok [Statement.expression e] := by
      simp only [lowerClauses, Clause.lower, lowered_bind]
      exact ⟨_, ⟨e, hn, rfl⟩, [], rfl, rfl⟩
    have hrest : ∀ ctx k, k.token = .finish →
        Ends (grammar (N + 1) (.statements ctx true false)) k fun cs m =>
          lowerClauses (.expression n :: cs) = .ok [Statement.expression e] ∧
            m.token = .finish := by
      intro ctx k hk
      change Ends (statements (grammar N) ctx true false) k _
      unfold statements atStatementsEnd
      simp only [ends_bind, ends_current, hk, ends_pure, if_true]
      exact ⟨hlower, trivial⟩
    have hsemicolon : m.token.isMark ";" = false := by rw [hfinish]; rfl
    have hend : (m.afterLineEnd || m.token == .finish || m.token.isMark "\x7d") = true := by
      simp [hfinish]
    simp only [ends_statementEnd, hsemicolon, Bool.false_eq_true, if_false, hend, true_and,
      ends_ite, ends_bind, ends_pure]
    split
    · exact ends_forgive_of_finish hfinish fun k hk => hrest _ k hk
    · exact hrest _ m hfinish

theorem withoutEncodingMark_of_leads {signs : Bool} {cs : List Char} (h : Leads signs cs) :
    withoutEncodingMark cs = cs := by
  cases cs with
  | nil => rfl
  | cons c cs =>
    have hc : isLead signs c = true := startsWith_cons.1 h.2
    simp only [isLead, Bool.and_eq_true, bne_iff_ne, ne_eq] at hc
    simp [withoutEncodingMark, hc.1.2]

theorem withoutInterpreterLine_of_leads {signs : Bool} {cs : List Char} (h : Leads signs cs) :
    withoutInterpreterLine cs = (cs, 0) := by
  cases cs with
  | nil => rfl
  | cons c cs =>
    have hc : isLead signs c = true := startsWith_cons.1 h.2
    simp only [isLead, Bool.and_eq_true, bne_iff_ne, ne_eq] at hc
    unfold withoutInterpreterLine
    split
    · next heq =>
      cases heq
      exact absurd rfl hc.1.1.2
    · rfl

/-- The parser is given enough for the text of a tree. -/
theorem parse?_text (h : e.IsWritten false) :
    ∃ cs, parse? e.text.toList = some cs ∧ lowerClauses cs = .ok [Statement.expression e] := by
  have hlexes := Expression.lexes h
  have hlength := hlexes.length_le
  obtain ⟨l, hl, -, hspells⟩ := hlexes.opens [] _ startsWith_nil opens_nil 0 true
  rw [List.append_nil] at hl
  have hsupply : 12 * e.tokens.length + 2 ≤ depthPerCharacter * (e.text.toList.length + 2) := by
    simp only [depthPerCharacter]
    omega
  obtain ⟨cs, m, hrun, hlower, hfinish⟩ := ends_text (Expression.reads h) hsupply hspells
  refine ⟨cs, ?_, hlower⟩
  simp only [parse?, withoutInterpreterLine_of_leads (Expression.leads h), hl, Option.bind_some,
    hrun]
  simp [hfinish]

end Source

/-- Reading the text of a tree that can be written gives the tree back. -/
theorem Program.ofText_text (h : e.IsWritten false) (path : Option String) :
    Program.ofText e.text path = .ok ⟨[.expression e]⟩ := by
  obtain ⟨cs, hparse, hlower⟩ := parse?_text h
  simp only [Program.ofText, withoutEncodingMark_of_leads (Expression.leads h), hparse, hlower]
  rfl

end

def squareLess : Expression (Exact .zero) :=
  .function ["x"] [.result (some (.binary .subtract
    (.binary .exponent (.unary .minus (.identifier "x")) (.literal (.number (.of 2))))
    (.binary .subtract (.identifier "x") (.literal (.number (.of 2))))))] none

theorem Exact.readsBack_two : Numeric.ReadsBack (.of 2 : Exact .zero) := by
  have htext : (Numeric.text (.of 2 : Exact .zero)).toList = ['2'] := by decide +kernel
  refine ⟨rfl, .inl ⟨⟨false, 2, 0⟩, 1, ?_, rfl⟩⟩
  rw [htext]
  rfl

theorem squareLess_isWritten : squareLess.IsWritten false := by
  have hx : isPlainName false "x" = true := by decide
  refine ⟨by decide, by decide, ⟨by decide, by decide, by decide⟩, ?_, rfl⟩
  exact ⟨⟨⟨hx, Exact.readsBack_two⟩, hx, Exact.readsBack_two⟩, trivial⟩

theorem ofText_squareLess : squareLess.text = "(x) => (-x) ** 2 - (x - 2)" ∧
    squareLess.IsWritten false ∧
      Program.ofText squareLess.text none = .ok ⟨[.expression squareLess]⟩ :=
  ⟨by decide +kernel, squareLess_isWritten, Program.ofText_text squareLess_isWritten none⟩

def unsetConstant : Expression (Exact .zero) :=
  .function [] [.declaration .constant "x" none] none

/-- A function with a function in strict code that writes to `eval`. -/
def strictWrite : Expression (Exact .zero) :=
  .function [] [.function "f" []
    [.expression (.literal (.string "use strict")),
      .expression (.assignment .assign "eval" (.literal .null))]] none

/-- Not every tree is read back: constants need a value, and strict code writes to neither `eval`
nor `arguments`. -/
theorem ofText_unread :
    unsetConstant.text = "() => \x7b const x; \x7d" ∧
    Program.ofText unsetConstant.text none ≠ .ok ⟨[.expression unsetConstant]⟩ ∧
    strictWrite.text = "() => \x7b function f() \x7b \"use strict\"; eval = null; \x7d \x7d" ∧
    Program.ofText strictWrite.text none ≠ .ok ⟨[.expression strictWrite]⟩ := by
  have hunset : (Program.ofText unsetConstant.text none :
      Except Source.Error (Program (Exact .zero))).toBool = false := by decide +kernel
  have hstrict : (Program.ofText strictWrite.text none :
      Except Source.Error (Program (Exact .zero))).toBool = false := by decide +kernel
  refine ⟨by decide +kernel, fun h => ?_, by decide +kernel, fun h => ?_⟩
  · rw [h] at hunset
    cases hunset
  · rw [h] at hstrict
    cases hstrict

end Waveform
