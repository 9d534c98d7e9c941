import Mathlib.Data.List.Forall2
import Waveform.Proofs.Source.Numerals
import Waveform.Proofs.Source.Tokens

/-!
# Tokens of printed trees

The text of a tree whose text can be read is spelled by the tokens of the tree.
-/

namespace Waveform

open Source

/-! ## Rows of tokens -/

namespace Source

variable {ts us : List Token} {cs ds : List Char} {follow follow' : Char → Bool} {m w : String}

theorem Lexes.mark (hm : m ∈ plainMarks) (h : Lexes follow ds us) :
    Lexes follow (m.toList ++ ds) (.mark m :: us) :=
  (Lexes.plainMark hm).append_any h

theorem Lexes.before_mark (h : Lexes follow' cs ts) (hm : m ∈ plainMarks)
    (hfollow : StartsWith follow' m.toList) (h' : Lexes follow ds us) :
    Lexes follow (cs ++ (m.toList ++ ds)) (ts ++ .mark m :: us) := by
  have hne : m.toList ≠ [] := by
    have hall : ∀ m ∈ plainMarks, m.toList ≠ [] := by decide
    exact hall m hm
  have hne' : m.toList ++ ds ≠ [] := fun h => hne (List.append_eq_nil_iff.1 h).1
  exact h.append (.mark hm h') hne' (hfollow.append hne)

theorem Lexes.ended_by (h : Lexes follow' cs ts) (hm : m ∈ plainMarks)
    (hfollow : StartsWith follow' m.toList) : Lexes follow (cs ++ m.toList) (ts ++ [.mark m]) := by
  have hnil : Lexes follow [] [] := .nil
  have hlast := h.before_mark hm hfollow hnil
  rwa [List.append_nil] at hlast

theorem Lexes.before_space (h : Lexes follow' cs ts) (hfollow : follow' ' ' = true)
    (h' : Lexes follow ds us) : Lexes follow (cs ++ (" ".toList ++ ds)) (ts ++ us) :=
  h.append h'.space (List.cons_ne_nil ' ' ds) (startsWith_cons.2 hfollow)

theorem Lexes.spaced (hm : m ∈ spacedMarks) (h : Lexes follow ds us) :
    Lexes follow (m.toList ++ (" ".toList ++ ds)) (.mark m :: us) :=
  (Lexes.spacedMark hm).before_space rfl h

theorem Lexes.before_spaced (h : Lexes follow' cs ts) (hfollow : follow' ' ' = true)
    (hm : m ∈ spacedMarks) (h' : Lexes follow ds us) :
    Lexes follow (cs ++ (" ".toList ++ (m.toList ++ (" ".toList ++ ds)))) (ts ++ .mark m :: us) :=
  h.before_space hfollow (.spaced hm h')

theorem endsName_of_isBreak {c : Char} (h : isBreak c = true) : endsName c = true := by
  rcases isBreak_cases h with rfl | rfl | rfl | rfl | rfl | rfl | rfl <;> decide +kernel

theorem Lexes.keyword (hw : isWordText w.toList = true) (h : Lexes follow ds us) :
    Lexes follow (w.toList ++ (" ".toList ++ ds)) (.word w false :: us) :=
  (Lexes.word hw).before_space (by decide) h

theorem Lexes.name (hw : isWordText w.toList = true) : Lexes isBreak w.toList [.word w false] :=
  (Lexes.word hw).imp fun _ => endsName_of_isBreak

theorem Lexes.commaSeparated {texts : List String} {rows : List (List Token)}
    (h : List.Forall₂ (fun text ts => Lexes isBreak text.toList ts) texts rows) :
    Lexes isBreak (commaSeparated texts).toList (separated rows) := by
  induction h with
  | nil => exact .nil
  | @cons text ts texts rows hfirst hrest ih =>
    cases hrest with
    | nil => simpa [Waveform.commaSeparated, separated] using hfirst
    | @cons text' ts' texts rows hsecond hrest =>
      have hcomma := hfirst.before_mark (m := ",") (by decide) (by decide) ih.space
      simpa [Waveform.commaSeparated, separated] using hcomma

end Source

/-! ## First characters -/

section

variable {ν : Type} [Numeric ν] {strict : Bool} {signs signs' : Bool} {cs ds : List Char}

/-- The character can be the first one of an expression; if `signs` is false, of one that starts
with no sign. -/
def isLead (signs : Bool) (c : Char) : Bool :=
  c != '=' && c != '#' && c.toNat != 0xFEFF && (signs || (c != '+' && c != '-'))

def Leads (signs : Bool) (cs : List Char) : Prop :=
  cs ≠ [] ∧ StartsWith (isLead signs) cs

theorem Leads.imp (h : Leads signs cs) (hsigns : signs = true → signs' = true) :
    Leads signs' cs := by
  refine ⟨h.1, h.2.imp fun c hc => ?_⟩
  simp only [isLead, Bool.and_eq_true, Bool.or_eq_true] at hc ⊢
  exact ⟨hc.1, hc.2.imp_left hsigns⟩

theorem Leads.append (h : Leads signs cs) : Leads signs (cs ++ ds) :=
  ⟨fun hnil => h.1 (List.append_eq_nil_iff.1 hnil).1, h.2.append h.1⟩

theorem leads_of_isWordText {name : String} (h : isWordText name.toList = true) :
    Leads signs name.toList := by
  cases hname : name.toList with
  | nil => simp [hname, isWordText] at h
  | cons c cs =>
    simp only [hname, isWordText, Bool.and_eq_true] at h
    have hkind : ∀ d, isNameStart d = false → c ≠ d := by
      rintro d hd rfl
      exact absurd (hd.symm.trans h.1) Bool.false_ne_true
    have hequals := hkind '=' (by decide)
    have hhash := hkind '#' (by decide)
    have hplus := hkind '+' (by decide)
    have hminus := hkind '-' (by decide)
    have hmark : c.toNat ≠ 0xFEFF := by
      intro hcode
      have hgap := isNameStart_gapCodes (n := c.toNat) (by rw [hcode]; decide)
      rw [Char.ofNat_toNat, h.1] at hgap
      cases hgap
    exact ⟨List.cons_ne_nil c cs, by simp [isLead, hequals, hhash, hplus, hminus, hmark]⟩

theorem startsWith_of_isWordText {name : String} (h : isWordText name.toList = true) :
    name.toList ≠ [] ∧ StartsWith isNameStart name.toList := by
  cases hname : name.toList with
  | nil => simp [hname, isWordText] at h
  | cons c cs =>
    simp only [hname, isWordText, Bool.and_eq_true] at h
    exact ⟨List.cons_ne_nil c cs, startsWith_cons.2 h.1⟩

theorem isWordText_of_isPlainName {name : String} (h : isPlainName strict name = true) :
    isWordText name.toList = true := by
  simp only [isPlainName, Bool.and_eq_true] at h
  exact h.1.1

theorem isLead_of_isDigit {c : Char} (h : c.isDigit = true) : isLead false c = true := by
  have hcode : c.toNat ≤ 57 := by
    simp only [Char.isDigit, Bool.and_eq_true, decide_eq_true_eq, UInt32.le_iff_toNat_le] at h
    exact h.2
  have hmark : c.toNat ≠ 0xFEFF := by omega
  have hkind : ∀ d, d.isDigit = false → c ≠ d := by
    rintro d hd rfl
    exact absurd (hd.symm.trans h) Bool.false_ne_true
  have hequals := hkind '=' (by decide)
  have hhash := hkind '#' (by decide)
  have hplus := hkind '+' (by decide)
  have hminus := hkind '-' (by decide)
  simp [isLead, hequals, hhash, hplus, hminus, hmark]

theorem Numeric.ReadsBack.leads {x : ν} (h : Numeric.ReadsBack x) :
    Leads false (Numeric.text x).toList := by
  obtain ⟨-, ⟨d, count, htoken, -⟩ | ⟨htext, -⟩ | ⟨htext, -⟩⟩ := h
  · obtain ⟨-, c, ds, hcs, hc⟩ := number?_of_token? htoken
    rw [hcs]
    refine ⟨List.cons_ne_nil c ds, startsWith_cons.2 ?_⟩
    rcases hc with hdigit | ⟨rfl, -⟩
    · exact isLead_of_isDigit hdigit
    · decide
  · rw [htext]
    exact ⟨by decide, by decide⟩
  · rw [htext]
    exact ⟨by decide, by decide⟩

theorem Expression.precedence_of_startsSigned {e : Expression ν} (h : e.startsSigned = true) :
    e.precedence = 16 := by
  unfold Expression.startsSigned at h
  split at h
  · simp [Expression.precedence, h]
  · rfl
  · rfl
  · simp [Expression.precedence, h]
  · cases h

theorem leads_parenthesize {needed : Bool} {text : String}
    (h : needed = false → Leads signs text.toList) :
    Leads signs (parenthesize needed text).toList := by
  cases needed with
  | true =>
    have hplain : Leads false "(".toList := ⟨by decide, by decide⟩
    have hopen : Leads signs "(".toList := hplain.imp nofun
    simp only [parenthesize, if_true, String.toList_append, List.append_assoc]
    exact hopen.append
  | false => exact h rfl

/-- Without a sign in front, what binds as tightly as the operand of a call starts with none. -/
theorem Leads.of_operand {e : Expression ν} (h : Leads (e.precedence < 16 || e.startsSigned) cs)
    (he : 19 ≤ e.precedence) : Leads false cs := by
  refine h.imp fun hsigns => ?_
  have hsigned : e.startsSigned = true := by
    rcases Bool.or_eq_true_iff.1 hsigns with h | h
    · have := of_decide_eq_true h
      omega
    · exact h
  have := Expression.precedence_of_startsSigned hsigned
  omega

theorem Expression.text_member {object property : Expression ν}
    (h : property.isPropertyKey = false) : (Expression.member object property).text =
      parenthesize (object.precedence < 19) object.text ++ "[" ++ property.text ++ "]" := by
  by_cases hstring : ∃ name, property = .literal (.string name)
  · obtain ⟨name, rfl⟩ := hstring
    have hname : isPropertyName name = false := h
    simp [Expression.text, hname]
  · rw [Expression.text]
    exact fun name hname => hstring ⟨name, hname⟩

theorem Expression.text_function (params : List String) (body : List (Statement ν))
    (home : Option Nat) : (Expression.function params body home).text =
      "(" ++ commaSeparated params ++ ") => " ++ (Statement.returnedText? body).getD
        (braced none (Statement.texts none body)) := by
  rw [Expression.text]
  split <;> simp [*]

theorem isWordText_undefined : isWordText (Literal.undefined : Literal ν).text.toList = true := by
  rw [Literal.text]
  decide

theorem isWordText_null : isWordText (Literal.null : Literal ν).text.toList = true := by
  rw [Literal.text]
  decide

theorem isWordText_true : isWordText (Literal.boolean true : Literal ν).text.toList = true := by
  rw [Literal.text]
  decide

theorem isWordText_false : isWordText (Literal.boolean false : Literal ν).text.toList = true := by
  rw [Literal.text]
  decide

theorem Expression.leads : ∀ {e : Expression ν}, e.IsWritten strict →
    Leads (e.precedence < 16 || e.startsSigned) e.text.toList
  | .literal (.number x), h => (Numeric.ReadsBack.leads h).imp nofun
  | .literal .undefined, _ => leads_of_isWordText isWordText_undefined
  | .literal .null, _ => leads_of_isWordText isWordText_null
  | .literal (.boolean true), _ => leads_of_isWordText isWordText_true
  | .literal (.boolean false), _ => leads_of_isWordText isWordText_false
  | .literal (.string s), _ => by
    have hquote : Leads false ['"'] := ⟨by decide, by decide⟩
    have htext : (Expression.literal (.string s) : Expression ν).text.toList =
        ['"'] ++ (s.toList.flatMap escapeChar ++ ['"']) := by
      simp [Expression.text, Literal.text, quote]
    rw [htext]
    exact hquote.append.imp nofun
  | .identifier name, h => leads_of_isWordText (isWordText_of_isPlainName h)
  | .builtin b, h => by
    have hmath : Leads false "Math.".toList := ⟨by decide, by decide⟩
    have hb : b.isMath = true := h
    have htext : (Expression.builtin b : Expression ν).text = "Math." ++ b.name := by
      simp [Expression.text, Builtin.text, hb]
    rw [htext, String.toList_append]
    exact hmath.append.imp nofun
  | .array items, _ => by
    have hopen : Leads false "[".toList := ⟨by decide, by decide⟩
    rw [Expression.text, String.append_assoc, String.toList_append]
    exact hopen.append.imp nofun
  | .member object property, h => by
    have hobject : Leads false (parenthesize (object.precedence < 19) object.text).toList :=
      leads_parenthesize fun hneeded =>
        (leads h.1).of_operand (Nat.le_of_not_lt (of_decide_eq_false hneeded))
    rw [Expression.text_member h.2.2, String.append_assoc, String.append_assoc,
      String.toList_append]
    exact hobject.append.imp nofun
  | .unary op argument, h => by
    have hop : Leads (op == .minus || op == .plus) op.text.toList := by
      cases op <;> exact ⟨by decide, by decide⟩
    rw [Expression.text, String.toList_append]
    exact hop.append.imp fun hsigned => by cases op <;> first | rfl | cases hsigned
  | .binary op left right, h => by
    have hleft : Leads true left.text.toList := (leads h.1).imp fun _ => rfl
    have hprecedence : op.precedence < 16 := by cases op <;> decide
    rw [Expression.text, String.append_assoc, String.append_assoc, String.append_assoc,
      String.toList_append]
    exact (leads_parenthesize fun _ => hleft).append.imp fun _ => by
      simp [Expression.precedence, hprecedence]
  | .logical op left right, h => by
    have hleft : Leads true left.text.toList := (leads h.1).imp fun _ => rfl
    have hprecedence : op.precedence < 16 := by cases op <;> decide
    rw [Expression.text, String.append_assoc, String.append_assoc, String.append_assoc,
      String.toList_append]
    exact (leads_parenthesize fun _ => hleft).append.imp fun _ => by
      simp [Expression.precedence, hprecedence]
  | .conditional test consequent alternate, h => by
    have htest : Leads true test.text.toList := (leads h.1).imp fun _ => rfl
    rw [Expression.text, String.append_assoc, String.append_assoc, String.append_assoc,
      String.toList_append]
    exact (leads_parenthesize fun _ => htest).append
  | .call callee arguments, h => by
    have hcallee : Leads false (parenthesize (callee.precedence < 19) callee.text).toList :=
      leads_parenthesize fun hneeded =>
        (leads h.1).of_operand (Nat.le_of_not_lt (of_decide_eq_false hneeded))
    rw [Expression.text, String.append_assoc, String.append_assoc, String.toList_append]
    exact hcallee.append.imp nofun
  | .function params body home, _ => by
    have hopen : Leads false "(".toList := ⟨by decide, by decide⟩
    rw [Expression.text_function, String.append_assoc, String.append_assoc, String.toList_append]
    exact hopen.append.imp nofun
  | .assignment op target value, h => by
    have htarget := isWordText_of_isPlainName (isPlainName_of_isTarget h.1)
    rw [Expression.text, String.append_assoc, String.append_assoc, String.append_assoc,
      String.toList_append]
    exact (leads_of_isWordText htarget).append
  | .update op true target, _ => by
    have hop : Leads true op.text.toList := by cases op <;> exact ⟨by decide, by decide⟩
    rw [Expression.text, if_pos rfl, String.toList_append]
    exact hop.append
  | .update op false target, h => by
    have htarget := isWordText_of_isPlainName (isPlainName_of_isTarget h)
    rw [Expression.text, if_neg Bool.false_ne_true, String.toList_append]
    exact (leads_of_isWordText htarget).append

/-! ## Trees -/

variable {ts : List Token} {follow : Char → Bool}

theorem lexes_parenthesize {needed : Bool} {text : String} (h : Lexes isBreak text.toList ts) :
    Lexes isBreak (parenthesize needed text).toList (wrapped needed ts) := by
  cases needed with
  | true =>
    rw [parenthesize, if_pos rfl, wrapped, if_pos rfl, String.toList_append, String.toList_append,
      List.append_assoc]
    exact .mark (by decide) (h.ended_by (by decide) (by decide))
  | false => exact h

theorem lexes_params {params : List String} (h : ∀ p ∈ params, isPlainName strict p = true) :
    Lexes isBreak (commaSeparated params).toList
      (separated (params.map fun p => [.word p false])) := by
  refine Lexes.commaSeparated ?_
  induction params with
  | nil => exact .nil
  | cons p params ih =>
    have hp := isWordText_of_isPlainName (h p List.mem_cons_self)
    exact .cons (Lexes.name hp) (ih fun q hq => h q (List.mem_cons_of_mem p hq))

theorem lexes_literal : ∀ {l : Literal ν}, l.IsWritten → Lexes isBreak l.text.toList [l.token]
  | .undefined, _ => Lexes.name isWordText_undefined
  | .null, _ => Lexes.name isWordText_null
  | .boolean true, _ => Lexes.name isWordText_true
  | .boolean false, _ => Lexes.name isWordText_false
  | .string s, _ => (Lexes.quote s).imp fun _ _ => rfl
  | .number x, h => by
    have htoken : ∀ t count, token? (Numeric.text x).toList = some ⟨t, [], count⟩ →
        (Literal.number x).token = t := by
      intro t count h
      simp [Literal.token, h]
    obtain ⟨-, ⟨d, count, hread, -⟩ | ⟨htext, -⟩ | ⟨htext, -⟩⟩ := h
    · rw [htoken _ _ hread]
      exact Lexes.number hread
    · rw [htoken (.word "NaN" false) 3 (by rw [htext]; rfl), Literal.text, htext]
      exact Lexes.name (by decide)
    · rw [htoken (.word "Infinity" false) 8 (by rw [htext]; rfl), Literal.text, htext]
      exact Lexes.name (by decide)

theorem isWordText_name (b : Builtin) : isWordText b.name.toList = true := by
  cases b <;> decide

theorem lexes_builtin {b : Builtin} (h : b.isMath = true) :
    Lexes isBreak b.text.toList [.word "Math" false, .mark ".", .word b.name false] := by
  have hmath : Lexes endsName "Math".toList [.word "Math" false] := Lexes.word (by decide)
  have hname := Lexes.name (isWordText_name b)
  have hstart := startsWith_of_isWordText (isWordText_name b)
  have htext : b.text = "Math" ++ ("." ++ b.name) := by
    rw [Builtin.text, if_pos h, ← String.append_assoc]
    rfl
  rw [htext, String.toList_append, String.toList_append]
  exact hmath.append (Lexes.point.append hname hstart.1 hstart.2) (List.cons_ne_nil '.' _)
    (startsWith_cons.2 (by decide))

theorem lexes_sign {op : UnaryOperator} {cs : List Char} (h : Lexes follow cs ts)
    (hcs : Leads (op != .minus && op != .plus) cs) :
    Lexes follow (op.text.toList ++ cs) (op.token :: ts) := by
  cases op with
  | minus =>
    refine Lexes.minus.append h hcs.1 (hcs.2.imp fun c hc => ?_)
    simp_all [isLead]
  | plus =>
    refine Lexes.plus.append h hcs.1 (hcs.2.imp fun c hc => ?_)
    simp_all [isLead]
  | not =>
    refine Lexes.not.append h hcs.1 (hcs.2.imp fun c hc => ?_)
    simp_all [isLead]
  | typeOf =>
    have hword : isWordText "typeof".toList = true := by decide
    exact Lexes.keyword hword h

theorem mem_spacedMarks_binary (op : BinaryOperator) : op.text ∈ spacedMarks := by
  cases op <;> decide

theorem mem_spacedMarks_logical (op : LogicalOperator) : op.text ∈ spacedMarks := by
  cases op <;> decide

theorem mem_spacedMarks_assignment (op : AssignmentOperator) : op.text ∈ spacedMarks := by
  cases op <;> decide

theorem lexes_update_before {op : UpdateOperator} {name : String}
    (h : isWordText name.toList = true) :
    Lexes isBreak (op.text ++ name).toList [.mark op.text, .word name false] := by
  have hname := Lexes.name h
  have hstart := startsWith_of_isWordText h
  rw [String.toList_append]
  cases op with
  | increment => exact .mark (by decide) hname
  | decrement =>
    refine Lexes.decrement.append hname hstart.1 (hstart.2.imp fun c hc => ?_)
    cases hgreater : c != '>' with
    | true => rfl
    | false =>
      rw [bne_eq_false_iff_eq.1 hgreater] at hc
      exact absurd hc (by decide)

theorem lexes_update_after {op : UpdateOperator} {name : String}
    (h : isWordText name.toList = true) :
    Lexes isBreak (name ++ op.text).toList [.word name false, .mark op.text] := by
  rw [String.toList_append]
  cases op with
  | increment =>
    exact (Lexes.word h).append (.mark (m := "++") (by decide) .nil) (by decide) (by decide)
  | decrement =>
    have hop : Lexes isBreak "--".toList [.mark "--"] := Lexes.decrement.imp fun c hc => by
      rcases isBreak_cases hc with rfl | rfl | rfl | rfl | rfl | rfl | rfl <;> rfl
    exact (Lexes.word h).append hop (by decide) (by decide)

theorem Expression.three_le_precedence (e : Expression ν) : 3 ≤ e.precedence := by
  cases e with
  | literal l =>
    cases l with
    | number x =>
      rw [Expression.precedence]
      split <;> decide
    | _ => simp [Expression.precedence]
  | binary op _ _ =>
    have hop : 3 ≤ op.precedence := by cases op <;> decide
    exact hop
  | logical op _ _ =>
    have hop : 3 ≤ op.precedence := by cases op <;> decide
    exact hop
  | update _ isBefore _ => cases isBefore <;> simp [Expression.precedence]
  | _ => simp [Expression.precedence]

theorem parenthesize_value (e : Expression ν) :
    parenthesize (e.precedence < 3) e.text = e.text := by
  have he := e.three_le_precedence
  rw [parenthesize, if_neg]
  simpa using he

theorem lexes_braced {statements : List String}
    (h : Lexes (fun _ => true) (String.join (statements.map (" " ++ ·))).toList ts) :
    Lexes follow (braced none statements).toList (.mark "\x7b" :: ts ++ [.mark "\x7d"]) := by
  have hclose : Lexes follow "\x7d".toList [.mark "\x7d"] :=
    (Lexes.plainMark (by decide)).imp fun _ _ => rfl
  have hopen : (braced none statements) = "\x7b" ++
      (String.join (statements.map (" " ++ ·)) ++ (" " ++ "\x7d")) := by
    simp only [braced, openBrace, closeBrace, String.append_assoc]
  rw [hopen]
  simp only [String.toList_append]
  exact .mark (by decide) (h.append_any hclose.space)

theorem Statement.returnedText?_of_several (s s' : Statement ν) (ss : List (Statement ν)) :
    Statement.returnedText? (s :: s' :: ss) = none := by
  cases s <;> first | rfl | (rename_i value; cases value <;> rfl)

theorem Statement.returnedTokens?_of_several (s s' : Statement ν) (ss : List (Statement ν)) :
    Statement.returnedTokens? (s :: s' :: ss) = none := by
  cases s <;> first | rfl | (rename_i value; cases value <;> rfl)

mutual

theorem Expression.lexes : ∀ {strict : Bool} {e : Expression ν}, e.IsWritten strict →
    Lexes isBreak e.text.toList e.tokens
  | _, .literal l, h => by
    rw [Expression.text, Expression.tokens]
    exact lexes_literal h
  | _, .identifier name, h => by
    rw [Expression.text, Expression.tokens]
    exact Lexes.name (isWordText_of_isPlainName h)
  | _, .builtin b, h => by
    rw [Expression.text, Expression.tokens]
    exact lexes_builtin h
  | _, .array items, h => by
    have hitems := Lexes.commaSeparated (Expression.allLexes h)
    rw [Expression.text, Expression.tokens, String.append_assoc, String.toList_append,
      String.toList_append]
    exact .mark (by decide) (hitems.ended_by (by decide) (by decide))
  | _, .member object property, h => by
    have hobject : Lexes isBreak (parenthesize (object.precedence < 19) object.text).toList
        (wrapped (object.precedence < 19) object.tokens) :=
      lexes_parenthesize (Expression.lexes h.1)
    have hproperty := Expression.lexes h.2.1
    rw [Expression.text_member h.2.2, Expression.tokens]
    simp only [String.toList_append, List.append_assoc, List.cons_append]
    exact hobject.before_mark (by decide) (by decide) (hproperty.ended_by (by decide) (by decide))
  | _, .unary op argument, h => by
    have hargument : argument.IsWritten _ := h
    rw [Expression.text, Expression.tokens, String.toList_append]
    refine lexes_sign (lexes_parenthesize (Expression.lexes hargument))
      (leads_parenthesize fun hneeded => (Expression.leads hargument).imp ?_)
    simp only [Bool.or_eq_false_iff, decide_eq_false_iff_not] at hneeded
    cases op <;> simp_all
  | _, .binary op left right, h => by
    have hleft := Expression.lexes h.1
    have hright := Expression.lexes h.2
    rw [Expression.text, Expression.tokens]
    simp only [String.toList_append, List.append_assoc]
    exact (lexes_parenthesize hleft).before_spaced rfl (mem_spacedMarks_binary op)
      (lexes_parenthesize hright)
  | _, .logical op left right, h => by
    have hleft := Expression.lexes h.1
    have hright := Expression.lexes h.2
    rw [Expression.text, Expression.tokens]
    simp only [String.toList_append, List.append_assoc]
    exact (lexes_parenthesize hleft).before_spaced rfl (mem_spacedMarks_logical op)
      (lexes_parenthesize hright)
  | _, .conditional test consequent alternate, h => by
    have htest := Expression.lexes h.1
    have hconsequent := Expression.lexes h.2.1
    have halternate := Expression.lexes h.2.2
    rw [Expression.text, Expression.tokens, parenthesize_value, parenthesize_value]
    simp only [String.toList_append, List.append_assoc, List.cons_append]
    exact (lexes_parenthesize htest).before_spaced (m := "?") rfl (by decide)
      (hconsequent.before_spaced (m := ":") rfl (by decide) halternate)
  | _, .call callee arguments, h => by
    have hcallee := Expression.lexes h.1
    have harguments := Lexes.commaSeparated (Expression.allLexes h.2)
    rw [Expression.text, Expression.tokens]
    simp only [String.toList_append, List.append_assoc, List.cons_append]
    exact (lexes_parenthesize hcallee).before_mark (by decide) (by decide)
      (harguments.ended_by (by decide) (by decide))
  | _, .function params body home, h => by
    obtain ⟨hnames, hwritten, -⟩ := h.of_function
    have hparams := lexes_params hnames
    have hbody := Statement.returnedLexes hwritten (lexes_braced (Statement.allLexes hwritten))
    have hend : ") => " = ")" ++ (" " ++ ("=>" ++ " ")) := rfl
    rw [Expression.text_function, Expression.tokens, hend]
    simp only [String.toList_append, List.append_assoc, List.cons_append]
    exact .mark (by decide) (hparams.before_mark (by decide) (by decide)
      (Lexes.spaced (m := "=>") (by decide) hbody).space)
  | _, .assignment op target value, h => by
    have htarget := isWordText_of_isPlainName (isPlainName_of_isTarget h.1)
    have hvalue := Expression.lexes h.2
    rw [Expression.text, Expression.tokens, parenthesize_value]
    simp only [String.toList_append, List.append_assoc]
    exact (Lexes.name htarget).before_spaced rfl (mem_spacedMarks_assignment op) hvalue
  | _, .update op true target, h => by
    rw [Expression.text, Expression.tokens, if_pos rfl, if_pos rfl]
    exact lexes_update_before (isWordText_of_isPlainName (isPlainName_of_isTarget h))
  | _, .update op false target, h => by
    rw [Expression.text, Expression.tokens, if_neg Bool.false_ne_true, if_neg Bool.false_ne_true]
    exact lexes_update_after (isWordText_of_isPlainName (isPlainName_of_isTarget h))

theorem Expression.allLexes : ∀ {strict : Bool} {es : List (Expression ν)},
    Expression.AllWritten strict es →
    List.Forall₂ (fun text ts => Lexes isBreak text.toList ts) (Expression.texts es)
      (Expression.allTokens es)
  | _, [], _ => .nil
  | _, _ :: _, h => .cons (Expression.lexes h.1) (Expression.allLexes h.2)

theorem Statement.returnedLexes : ∀ {strict : Bool} {ss : List (Statement ν)},
    Statement.AllWritten strict ss →
    Lexes isBreak (braced none (Statement.texts none ss)).toList
      (.mark "\x7b" :: Statement.allTokens ss ++ [.mark "\x7d"]) →
    Lexes isBreak
      ((Statement.returnedText? ss).getD (braced none (Statement.texts none ss))).toList
      ((Statement.returnedTokens? ss).getD
        (.mark "\x7b" :: Statement.allTokens ss ++ [.mark "\x7d"]))
  | _, [.result (some value)], h, _ => Expression.lexes h.1
  | _, [], _, hbraced | _, [.block _], _, hbraced | _, [.expression _], _, hbraced
  | _, [.result none], _, hbraced | _, [.branch _ _ _], _, hbraced
  | _, [.loop _ _ _ _], _, hbraced | _, [.declaration _ _ _], _, hbraced
  | _, [.function _ _ _], _, hbraced => hbraced
  | _, _ :: _ :: _, _, hbraced => by
    rw [Statement.returnedText?_of_several, Statement.returnedTokens?_of_several]
    exact hbraced

theorem Statement.lexes : ∀ {strict : Bool} {s : Statement ν}, s.IsWritten strict →
    Lexes (fun _ => true) (s.render none).toList s.tokens
  | _, .block body, h => by
    rw [Statement.render, Statement.tokens]
    exact lexes_braced (Statement.allLexes h.2.2)
  | _, .expression e, h => by
    have he := Expression.lexes h
    by_cases hfunction : ∃ params body home, e = .function params body home
    · obtain ⟨params, body, home, rfl⟩ := hfunction
      have hend : ");" = ")" ++ ";" := rfl
      rw [Statement.render, Statement.tokens, hend]
      simp only [String.toList_append, List.append_assoc, List.cons_append]
      exact .mark (by decide) (he.before_mark (by decide) (by decide) (Lexes.plainMark (by decide)))
    · have hplain : ∀ params body home, e = .function params body home → False :=
        fun params body home he => hfunction ⟨params, body, home, he⟩
      rw [Statement.render, Statement.tokens, String.toList_append]
      · exact he.ended_by (by decide) (by decide)
      all_goals exact hplain
  | _, .result none, _ => by
    have hreturn : Lexes isBreak "return".toList [.word "return" false] := Lexes.name (by decide)
    rw [Statement.render, Statement.tokens]
    exact hreturn.ended_by (m := ";") (by decide) (by decide)
  | _, .result (some value), h => by
    have hvalue := Expression.lexes h
    have hreturn : "return " = "return" ++ " " := rfl
    rw [Statement.render, Statement.tokens, hreturn]
    simp only [String.toList_append, List.append_assoc]
    exact .keyword (by decide) (hvalue.ended_by (by decide) (by decide))
  | _, .branch test consequent none, h => by
    have htest := Expression.lexes h.1
    have hconsequent := Statement.lexes h.2.2.1
    have hif : "if (" = "if" ++ (" " ++ "(") := rfl
    have hclose : ") " = ")" ++ " " := rfl
    rw [Statement.render, Statement.tokens, if_pos h.2.1, hif, hclose]
    simp only [String.toList_append, List.append_assoc, List.cons_append]
    exact .keyword (by decide) (.mark (by decide) (htest.before_mark (by decide) (by decide)
      (hconsequent.append_any .nil).space))
  | _, .branch test consequent (some s), h => by
    have htest := Expression.lexes h.1
    have hconsequent := Statement.lexes h.2.2.1
    have halternate := Statement.lexes h.2.2.2.2
    have hs : (s.isBlock || s.isBranch) = true := Bool.or_eq_true_iff.2 h.2.2.2.1
    have hif : "if (" = "if" ++ (" " ++ "(") := rfl
    have hclose : ") " = ")" ++ " " := rfl
    have helse : " else " = " " ++ ("else" ++ " ") := rfl
    rw [Statement.render, Statement.tokens, if_pos h.2.1, if_pos hs, hif, hclose, helse]
    simp only [String.toList_append, List.append_assoc, List.cons_append]
    exact .keyword (by decide) (.mark (by decide) (htest.before_mark (by decide) (by decide)
      (hconsequent.append_any (Lexes.keyword (by decide) halternate).space).space))
  | _, .loop start test update body, h => by
    have hfor : "for (" = "for" ++ (" " ++ "(") := rfl
    have hclose : ") " = ")" ++ " " := rfl
    have hstart := LoopStart.lexes h.1
    have htest := Expression.clauseLexes h.2.1
    have hupdate := Expression.clauseLexes h.2.2.1
    have hbody := Statement.lexes h.2.2.2.2
    rw [Statement.render, Statement.tokens, if_pos h.2.2.2.1, hfor, hclose]
    simp only [String.toList_append, List.append_assoc, List.cons_append]
    exact .keyword (by decide) (.mark (by decide) (hstart.before_mark (by decide) (by decide)
      (htest.before_mark (by decide) (by decide) (hupdate.before_mark (by decide) (by decide)
        hbody.space))))
  | _, .declaration kind name init, h => by
    have hdeclared := Expression.initializerLexes (isPlainName_of_isTarget h.1) h.2.2
    have hkind : isWordText kind.text.toList = true := by cases kind <;> decide
    rw [Statement.render, Statement.tokens]
    simp only [String.toList_append, List.append_assoc]
    exact .keyword hkind (by simpa using hdeclared.ended_by (m := ";") (by decide) (by decide))
  | _, .function name params body, h => by
    obtain ⟨hplain, hnames, hwritten⟩ := h.of_function
    have hname := Lexes.name (isWordText_of_isPlainName hplain)
    have hparams := lexes_params hnames
    have hbody : Lexes (fun _ => true) (braced none (Statement.texts none body)).toList
        (.mark "\x7b" :: Statement.allTokens body ++ [.mark "\x7d"]) :=
      lexes_braced (Statement.allLexes hwritten)
    have hfunction : "function " = "function" ++ " " := rfl
    have hclose : ") " = ")" ++ " " := rfl
    rw [Statement.render, Statement.tokens, hfunction, hclose]
    simp only [String.toList_append, List.append_assoc]
    exact .keyword (by decide) (hname.before_mark (by decide) (by decide)
      (hparams.before_mark (by decide) (by decide) hbody.space))

theorem Statement.allLexes : ∀ {strict : Bool} {ss : List (Statement ν)},
    Statement.AllWritten strict ss → Lexes (fun _ => true)
      (String.join ((Statement.texts none ss).map (" " ++ ·))).toList (Statement.allTokens ss)
  | _, [], _ => .nil
  | _, s :: ss, h => by
    have hs := Statement.lexes h.1
    have hss := Statement.allLexes h.2
    simp only [Statement.texts, Statement.allTokens, List.map_cons, String.join_cons,
      String.toList_append, List.append_assoc]
    exact (hs.append_any hss).space

theorem LoopStart.lexes : ∀ {strict : Bool} {start : LoopStart ν}, start.IsWritten strict →
    Lexes isBreak start.text.toList start.tokens
  | _, .absent, _ => .nil
  | _, .declaration kind name init, h => by
    have hdeclared := Expression.initializerLexes (isPlainName_of_isTarget h.1) h.2.2
    have hkind : isWordText kind.text.toList = true := by cases kind <;> decide
    rw [LoopStart.text, LoopStart.tokens]
    simp only [String.toList_append, List.append_assoc]
    exact .keyword hkind hdeclared
  | _, .expression e, h => Expression.lexes h

theorem Expression.clauseLexes : ∀ {strict : Bool} {e : Option (Expression ν)},
    Expression.OptionWritten strict e →
      Lexes isBreak (Expression.clause e).toList (Expression.optionTokens e)
  | _, none, _ => .nil
  | _, some e, h => by
    have he := Expression.lexes h
    rw [Expression.clause, Expression.optionTokens, String.toList_append]
    exact he.space

theorem Expression.initializerLexes : ∀ {strict : Bool} {name : String}
    {init : Option (Expression ν)}, isPlainName strict name = true →
      Expression.OptionWritten strict init →
        Lexes isBreak (name.toList ++ (Expression.initializer init).toList)
          (.word name false :: Expression.initializerTokens init)
  | _, name, none, hname, _ => by
    have hname := Lexes.name (isWordText_of_isPlainName hname)
    rw [Expression.initializer, Expression.initializerTokens]
    simpa using hname
  | _, name, some e, hname, h => by
    have hname := Lexes.name (isWordText_of_isPlainName hname)
    have he := Expression.lexes h
    have hequals : " = " = " " ++ ("=" ++ " ") := rfl
    rw [Expression.initializer, Expression.initializerTokens, hequals]
    simp only [String.toList_append, List.append_assoc]
    exact hname.before_spaced (m := "=") rfl (by decide) he

end

end

end Waveform
