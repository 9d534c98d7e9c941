import Waveform.Proofs.Source.Stepping
import Waveform.Proofs.Source.Tokens

/-!
# Reading tokens as expressions

What it is for a row of tokens to be read as a tree by the goals of the grammar, from the tightest
to the loosest one, wherever the row stands and whatever follows it that may follow there.
-/

namespace Waveform

namespace Source

/-! ## Places -/

/-- The place is in strict code only if `strict` says so, and in no construct that takes a name for
itself. -/
structure Context.Fits (ctx : Context) (strict : Bool) : Prop where
  strict : ctx.isStrict = true → strict = true
  async : ctx.inAsync = false
  generator : ctx.inGenerator = false
  staticBlock : ctx.inStaticBlock = false
  field : ctx.inField = false

namespace Context.Fits

variable {ctx : Context} {strict : Bool}

theorem withIn (h : ctx.Fits strict) : ctx.withIn.Fits strict :=
  ⟨h.strict, h.async, h.generator, h.staticBlock, h.field⟩

theorem enterLoop (h : ctx.Fits strict) : ctx.enterLoop.Fits strict :=
  ⟨h.strict, h.async, h.generator, h.staticBlock, h.field⟩

theorem enterFunction (h : ctx.Fits strict) : ctx.enterFunction.Fits strict :=
  ⟨h.strict, h.async, h.generator, h.staticBlock, rfl⟩

theorem enterParams (h : ctx.Fits strict) : (ctx.enterParams false false).Fits strict :=
  ⟨h.strict, rfl, rfl, h.staticBlock, h.field⟩

theorem enterBody (h : ctx.Fits strict) : (ctx.enterBody false false).Fits strict :=
  ⟨h.strict, rfl, rfl, rfl, h.field⟩

theorem mono {strict' : Bool} (h : ctx.Fits strict) (hstrict : strict = true → strict' = true) :
    ctx.Fits strict' :=
  ⟨fun hctx => hstrict (h.strict hctx), h.async, h.generator, h.staticBlock, h.field⟩

end Context.Fits

/-! ## Words -/

section

variable {ctx : Context} {strict : Bool} {name : String}

theorem isVariable_of_isPlainName (h : isPlainName strict name = true) :
    isVariable strict name = true := by
  simp only [isPlainName, Bool.and_eq_true] at h
  exact h.1.2

theorem isReserved_of_isVariable (hctx : ctx.Fits strict) (h : isVariable strict name = true) :
    isReserved ctx name = false := by
  obtain ⟨hstrict, hasync, hgenerator, hblock, -⟩ := hctx
  simp only [isVariable, Bool.and_eq_true, Bool.not_eq_true', Bool.and_eq_false_iff] at h
  obtain ⟨⟨hkeyword, hlater⟩, hwords⟩ := h
  have hlet : name ≠ "let" ∧ name ≠ "yield" ∧ name ≠ "await" := by simpa using hwords
  simp only [isReserved, hkeyword, hasync, hgenerator, hblock, Bool.false_or, Bool.false_and,
    Bool.or_false, Bool.and_eq_false_iff, beq_eq_false_iff_ne.2 hlet.1,
    beq_eq_false_iff_ne.2 hlet.2.1]
  rcases hlater with hsloppy | hlater
  · refine .inl ?_
    cases hs : ctx.isStrict with
    | false => rfl
    | true => rw [hstrict hs] at hsloppy; cases hsloppy
  · exact .inr hlater

theorem wordOf?_word (ctx : Context) (name : String) :
    wordOf? ctx (.word name false) = some name := by
  simp [wordOf?, isDisguised]

theorem referenceOf?_of_isVariable (hctx : ctx.Fits strict) (h : isVariable strict name = true) :
    referenceOf? ctx (.word name false) = some name := by
  simp [referenceOf?, wordOf?_word, isReserved_of_isVariable hctx h, hctx.field]

theorem bindingOf?_of_isVariable (hctx : ctx.Fits strict) (h : isVariable strict name = true) :
    bindingOf? ctx (.word name false) = some name := by
  have hsloppy : ({ ctx with isStrict := false } : Context).Fits strict :=
    ⟨nofun, hctx.async, hctx.generator, hctx.staticBlock, hctx.field⟩
  rw [bindingOf?, wordOf?_word, Option.filter_some, isReserved_of_isVariable hsloppy h]
  simp [hctx.field]

end

/-! ## What follows -/

def Token.isAmong (marks : List String) : Token → Bool
  | .finish => true
  | .mark m => marks.contains m
  | _ => false

theorem Token.eq_of_isAmong {α : Type} {marks : List String} {t : Token}
    (h : t.isAmong marks = true)
    (f : Token → α) (a : α) (hf : f .finish = a ∧ ∀ m ∈ marks, f (.mark m) = a) : f t = a := by
  cases t with
  | finish => exact hf.1
  | mark m => exact hf.2 m (by simpa [isAmong] using h)
  | _ => cases h

/-- The token stands on the same line and is one of the marks or the end of the text; a question
mark starts no chain. -/
structure Lexeme.Follows (marks : List String) (m : Lexeme) : Prop where
  sameLine : m.afterLineEnd = false
  token : m.token.isAmong marks = true
  noChain : m.token = .mark "?" → (lexeme? m.rest m.stop false).any (·.token.isMark ".") = false

def valueEnds : List String :=
  [")", "]", ",", ";", ":"]

def joints : List String :=
  ["===", "!==", "==", "!=", "<=", ">=", "<", ">", "+", "-", "*", "/", "%", "**", "&&", "||"]

def operandEnds : List String :=
  valueEnds ++ ["?", "=", "+=", "-=", "*=", "/=", "%="] ++ joints

/-- The marks that can follow what calls and member accesses apply to. -/
def suffixEnds : List String :=
  operandEnds ++ ["(", "[", "++", "--"]

theorem Lexeme.Follows.mono {marks marks' : List String} {m : Lexeme} (h : m.Follows marks)
    (hmarks : ∀ t ∈ marks, t ∈ marks') : m.Follows marks' where
  sameLine := h.sameLine
  token := by
    have ht := h.token
    cases htoken : m.token with
    | mark t =>
      simp only [htoken, Token.isAmong, List.contains_iff_mem] at ht ⊢
      exact hmarks t ht
    | finish => rfl
    | _ => simp [htoken, Token.isAmong] at ht
  noChain := h.noChain

/-! ## How expressions start -/

def Token.startsValue : Token → Bool
  | .word w escaped =>
    ! escaped && ! ["let", "yield", "await"].contains w &&
      (! keywords.contains w || ["typeof", "true", "false", "null"].contains w)
  | .number _ legacy | .string _ legacy => ! legacy
  | .mark m => ["(", "[", "-", "+", "!", "++", "--"].contains m
  | _ => false

/-- Whether an expression can start with the token and with no prefix operator. -/
def Token.startsOperand (t : Token) : Bool :=
  t.startsValue && (unaryOperator? t).isNone && (updateOperator? t).isNone

/-- Whether the token makes neither a label nor a function of a word before it. -/
def Token.isSecond (t : Token) : Bool :=
  ! t.isMark ":" && ! t.isWord "function"

/-- The tokens start like an expression, the first one with the property. -/
def Starts (first : Token → Bool) (ts : List Token) : Prop :=
  ∃ t us, ts = t :: us ∧ first t = true ∧ ∀ u ∈ us.head?, u.isSecond = true

/-! ## How tightly operators bind -/

def level (precedence : Nat) : Nat :=
  if precedence < 8 then precedence - 4 else precedence - 3

/-- The level at which the right operand of an operator of the precedence is read. -/
def rightLevel (precedence : Nat) : Nat :=
  if precedence = 15 then 12 else level precedence + 1

theorem level_mono {p p' : Nat} (h : p ≤ p') : level p ≤ level p' := by
  simp only [level]
  split <;> split <;> omega

theorem level_lt_rightLevel {p p' : Nat} (h : p ≤ p') (hp : p ≠ 15) : level p < rightLevel p' := by
  simp only [level, rightLevel]
  split <;> split <;> first | omega | (split <;> omega)

theorem rightLevel_le_level {p p' : Nat} (hp : 5 < p) (h : p < p') : rightLevel p ≤ level p' := by
  simp only [level, rightLevel]
  split <;> split <;> first | omega | (split <;> omega)

theorem rightLevel_mono {p p' : Nat} (h : p ≤ p') : rightLevel p ≤ rightLevel p' := by
  simp only [level, rightLevel]
  split <;> split <;> first | omega | (split <;> first | omega | (split <;> omega))

/-- How tightly the token binds as an operator; zero if it is none. -/
def Token.tightness (t : Token) : Nat :=
  ((connective? {} t).map (·.2)).getD 0

theorem connective?_of_isAmong {marks : List String} {t : Token} (h : t.isAmong marks = true)
    (ctx : Context) : connective? ctx t = connective? {} t := by
  cases t with
  | mark m => rfl
  | finish => rfl
  | _ => cases h

theorem connective?_binary (op : BinaryOperator) (ctx : Context) :
    connective? ctx (.mark op.text) = some (.operation op, level op.precedence) := by
  cases op <;> rfl

theorem connective?_logical (op : LogicalOperator) (ctx : Context) :
    connective? ctx (.mark op.text) = some (.logical op, level op.precedence) := by
  cases op <;> rfl

/-! ## Nodes -/

section

variable {ν : Type} [Numeric ν]

theorem lowered_bind {α β : Type} {x : Lowered α} {f : α → Lowered β} {b : β} :
    x >>= f = .ok b ↔ ∃ a, x = .ok a ∧ f a = .ok b := by
  cases x with
  | ok a => simp [bind, Except.bind]
  | error r => simp [bind, Except.bind]

/-- The node stands for the expression in a place where it is written with the precedence. -/
structure Node.Shows (n : Node) (e : Expression ν) (precedence : Nat) : Prop where
  lower : n.lower = .ok e
  arrow : 3 < precedence → n.isArrow = false
  unary : 16 < precedence → n.isUnary = false

theorem Node.isOptionalChain_of_lower {n : Node} {e : Expression ν} (h : n.lower = .ok e) :
    n.isOptionalChain = false := by
  cases n with
  | unsupported => cases h
  | _ => rfl

theorem Node.shows_of_lower {n : Node} {e : Expression ν} (h : n.lower = .ok e) :
    n.Shows e e.precedence := by
  refine ⟨h, fun he => ?_, fun he => ?_⟩
  · cases n with
    | arrow s params body =>
      simp only [Node.lower, lowered_bind] at h
      obtain ⟨_, _, _, _, h⟩ := h
      cases h
      exact absurd he (Nat.lt_irrefl 3)
    | unsupported => cases h
    | _ => rfl
  · cases n with
    | unary s op argument =>
      simp only [Node.lower, lowered_bind] at h
      obtain ⟨_, _, h⟩ := h
      cases h
      exact absurd he (Nat.lt_irrefl 16)
    | unsupported => cases h
    | _ => rfl

theorem Node.shows_group {n : Node} {e : Expression ν} (h : n.lower = .ok e) (start : Nat) :
    (Node.group start n).Shows e 20 :=
  ⟨h, fun _ => rfl, fun _ => rfl⟩

end

/-! ## Goals -/

section

variable (strict : Bool) (ts : List Token)

/-- The tokens are read as an operand without operators, and suffixes are read on behind it. -/
structure AsOperand (shows : Node → Prop) : Prop where
  reads : ∀ {ctx : Context} {N : Nat} {l : Lexeme} {P : Lexeme → Prop} {Q : Node → Lexeme → Prop},
    ctx.Fits strict → 12 * ts.length ≤ N + 4 → Spells ts P l →
    (∀ m, P m → m.Follows suffixEnds) →
    (ts = [.word "async" false] → ∀ m, P m → m.token.isMark "(" = false) →
    (∀ K n m, N ≤ K + ts.length → shows n → P m →
      Ends (grammar K (.suffixes ctx true n)) m Q) →
    Ends (grammar N (.operand ctx)) l Q

/-- The tokens are read as an operand with all its prefix operators. -/
structure AsUnary (shows : Node → Prop) : Prop where
  reads : ∀ {ctx : Context} {N : Nat} {l : Lexeme} {P : Lexeme → Prop},
    ctx.Fits strict → 12 * ts.length ≤ N + 3 → Spells ts P l →
    (∀ m, P m → m.Follows operandEnds) →
    Ends (grammar N (.unary ctx)) l fun n m => shows n ∧ P m

/-- The tokens are read as operands joined by operators that bind at least as tightly as any level
up to that of the precedence, and operators are read on behind them. -/
structure AsOperands (precedence : Nat) (shows : Node → Prop) : Prop where
  reads : ∀ {ctx : Context} {L N : Nat} {l : Lexeme} {P : Lexeme → Prop} {Q : Node → Lexeme → Prop},
    ctx.Fits strict → L ≤ level precedence → 12 * ts.length ≤ N + 2 → Spells ts P l →
    (∀ m, P m → m.Follows operandEnds ∧ m.token.tightness < rightLevel precedence) →
    (∀ K n m, N ≤ K + ts.length → shows n → P m →
      Ends (grammar K (.operandsAfter ctx L n)) m Q) →
    Ends (grammar N (.operands ctx L)) l Q

/-- The tokens are read as an expression that no comma divides. -/
structure AsValue (shows : Node → Prop) : Prop where
  reads : ∀ {ctx : Context} {N : Nat} {l : Lexeme} {P : Lexeme → Prop},
    ctx.Fits strict → 12 * ts.length ≤ N + 1 → Spells ts P l →
    (∀ m, P m → m.Follows valueEnds) →
    Ends (grammar N (.assignment ctx)) l fun n m => shows n ∧ P m

end

end Source

end Waveform
