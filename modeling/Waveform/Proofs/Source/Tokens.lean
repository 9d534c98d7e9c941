import Waveform.Proofs.Source.Spelling
import Waveform.Source.Program
import Waveform.Syntax.Printer

/-!
# Tokens of trees

What the text of a tree consists of, token by token, and the trees whose text can be read: their
names are names wherever they stand, their numbers read back, and their constants have values.
`Expression.tokens` follows `Expression.text` and leaves nothing out but the spaces.
-/

namespace Waveform

open Source (Token)

/-! ## Names and numbers -/

/-- Whether the word can stand for a variable, in strict code or in other code. -/
def isVariable (strict : Bool) (name : String) : Bool :=
  ! Source.keywords.contains name && ! (strict && Source.laterKeywords.contains name) &&
    ! ["let", "yield", "await"].contains name

/-- Whether the name can stand for a variable and does not read as a literal. -/
def isPlainName (strict : Bool) (name : String) : Bool :=
  Source.isWordText name.toList && isVariable strict name &&
    ! ["undefined", "NaN", "Infinity"].contains name

/-- Whether the name can be written to. Strict code writes to neither `eval` nor `arguments`. -/
def isTarget (strict : Bool) (name : String) : Bool :=
  isPlainName strict name && ! (strict && (name == "eval" || name == "arguments"))

section

variable {ν : Type} [Numeric ν]

/-- The text of the number is one token, which reads as the number again. -/
def Numeric.ReadsBack (x : ν) : Prop :=
  Numeric.isNegative x = false ∧
    ((∃ d count, Source.token? (Numeric.text x).toList = some ⟨.number d false, [], count⟩ ∧
        Numeric.ofNumeral (.finite d) = x) ∨
      Numeric.text x = "NaN" ∧ Numeric.nan = x ∨
      Numeric.text x = "Infinity" ∧ Numeric.infinity = x)

/-! ## Tokens -/

def Literal.token : Literal ν → Token
  | .undefined => .word "undefined" false
  | .null => .word "null" false
  | .boolean true => .word "true" false
  | .boolean false => .word "false" false
  | .number x => ((Source.token? (Numeric.text x).toList).map (·.value)).getD .finish
  | .string s => .string s false

def UnaryOperator.token : UnaryOperator → Token
  | .typeOf => .word "typeof" false
  | op => .mark op.text

def wrapped (needed : Bool) (ts : List Token) : List Token :=
  if needed then .mark "(" :: ts ++ [.mark ")"] else ts

def separated : List (List Token) → List Token
  | [] => []
  | [ts] => ts
  | ts :: rest => ts ++ .mark "," :: separated rest

mutual

def Expression.tokens : Expression ν → List Token
  | .literal l => [l.token]
  | .identifier name => [.word name false]
  | .builtin b => [.word "Math" false, .mark ".", .word b.name false]
  | .array items => .mark "[" :: separated (Expression.allTokens items) ++ [.mark "]"]
  | .member object property =>
    wrapped (object.precedence < 19) object.tokens ++ .mark "[" :: property.tokens ++ [.mark "]"]
  | .unary op argument =>
    op.token :: wrapped (argument.precedence < 16 ||
      ((op == .minus || op == .plus) && argument.startsSigned)) argument.tokens
  | .binary op left right =>
    wrapped (decide (if op.isRightAssociative then left.precedence ≤ 16
        else left.precedence < op.precedence)) left.tokens ++
      .mark op.text ::
        wrapped (decide (if op.isRightAssociative then right.precedence < op.precedence
          else right.precedence ≤ op.precedence)) right.tokens
  | .logical op left right =>
    wrapped (left.precedence < op.precedence) left.tokens ++
      .mark op.text :: wrapped (right.precedence ≤ op.precedence) right.tokens
  | .conditional test consequent alternate =>
    wrapped (test.precedence ≤ 4) test.tokens ++
      .mark "?" :: consequent.tokens ++ .mark ":" :: alternate.tokens
  | .call callee arguments =>
    wrapped (callee.precedence < 19) callee.tokens ++
      .mark "(" :: separated (Expression.allTokens arguments) ++ [.mark ")"]
  | .function params body _ =>
    .mark "(" :: separated (params.map fun p => [.word p false]) ++ .mark ")" :: .mark "=>" ::
      (Statement.returnedTokens? body).getD
        (.mark "\x7b" :: Statement.allTokens body ++ [.mark "\x7d"])
  | .assignment op target value => .word target false :: .mark op.text :: value.tokens
  | .update op isBefore target =>
    if isBefore then [.mark op.text, .word target false] else [.word target false, .mark op.text]

def Expression.allTokens : List (Expression ν) → List (List Token)
  | [] => []
  | e :: es => e.tokens :: Expression.allTokens es

/-- The tokens of the value, if returning a value is all that the statements do. -/
def Statement.returnedTokens? : List (Statement ν) → Option (List Token)
  | [.result (some value)] => some value.tokens
  | _ => none

def Statement.tokens : Statement ν → List Token
  | .block body => .mark "\x7b" :: Statement.allTokens body ++ [.mark "\x7d"]
  | .expression e =>
    match e with
    | .function _ _ _ => .mark "(" :: e.tokens ++ [.mark ")", .mark ";"]
    | _ => e.tokens ++ [.mark ";"]
  | .result none => [.word "return" false, .mark ";"]
  | .result (some value) => .word "return" false :: value.tokens ++ [.mark ";"]
  | .branch test consequent alternate =>
    .word "if" false :: .mark "(" :: test.tokens ++ .mark ")" :: consequent.tokens ++
      match alternate with
      | none => []
      | some s => .word "else" false :: s.tokens
  | .loop start test update body =>
    .word "for" false :: .mark "(" :: start.tokens ++ .mark ";" :: Expression.optionTokens test ++
      .mark ";" :: Expression.optionTokens update ++ .mark ")" :: body.tokens
  | .declaration kind name init =>
    .word kind.text false :: .word name false :: Expression.initializerTokens init ++ [.mark ";"]
  | .function name params body =>
    .word "function" false :: .word name false :: .mark "(" ::
      separated (params.map fun p => [.word p false]) ++ .mark ")" :: .mark "\x7b" ::
        Statement.allTokens body ++ [.mark "\x7d"]

def Statement.allTokens : List (Statement ν) → List Token
  | [] => []
  | s :: ss => s.tokens ++ Statement.allTokens ss

def LoopStart.tokens : LoopStart ν → List Token
  | .absent => []
  | .declaration kind name init =>
    .word kind.text false :: .word name false :: Expression.initializerTokens init
  | .expression e => e.tokens

def Expression.optionTokens : Option (Expression ν) → List Token
  | none => []
  | some e => e.tokens

def Expression.initializerTokens : Option (Expression ν) → List Token
  | none => []
  | some e => .mark "=" :: e.tokens

end

theorem Expression.tokens_literal (x : Literal ν) : (Expression.literal x).tokens = [x.token] := by
  rw [Expression.tokens]

theorem Statement.tokens_expression (e : Expression ν) : ∃ needed,
    (Statement.expression e).tokens = wrapped needed e.tokens ++ [.mark ";"] := by
  by_cases hfunction : ∃ params body home, e = .function params body home
  · obtain ⟨params, body, home, rfl⟩ := hfunction
    exact ⟨true, by simp [Statement.tokens, wrapped]⟩
  · refine ⟨false, ?_⟩
    rw [Statement.tokens]
    · rfl
    · exact fun params body home he => hfunction ⟨params, body, home, he⟩

/-! ## Trees whose text can be read -/

def Literal.IsWritten : Literal ν → Prop
  | .number x => Numeric.ReadsBack x
  | _ => True

/-- Whether the expression is a string that can be written after a point as the name of a
property. -/
def Expression.isPropertyKey : Expression ν → Bool
  | .literal (.string name) => isPropertyName name
  | _ => false

/-- Whether the statements of a function ask for the rules of strict code: one of the strings that
they start with says so. -/
def Statement.askForStrict : List (Statement ν) → Bool
  | .expression (.literal (.string text)) :: rest =>
    text == "use strict" || Statement.askForStrict rest
  | _ => false

/-- The names that `let` and `const` declare among the statements. -/
def Statement.variableNames : List (Statement ν) → List String
  | [] => []
  | .declaration _ name _ :: ss => name :: Statement.variableNames ss
  | _ :: ss => Statement.variableNames ss

def Statement.functionNames : List (Statement ν) → List String
  | [] => []
  | .function name _ _ :: ss => name :: Statement.functionNames ss
  | _ :: ss => Statement.functionNames ss

/-- What `let` and `const` declare among the statements has names of its own, which neither the
parameters nor the functions that are declared beside it bear. -/
structure Statement.DeclareApart (params : List String) (body : List (Statement ν)) : Prop where
  nodup : (Statement.variableNames body).Nodup
  functions : ∀ name ∈ Statement.variableNames body, name ∉ Statement.functionNames body
  params : ∀ name ∈ Statement.variableNames body, name ∉ params

mutual

/-- Whether the text of the expression can be read in strict code or in other code: all names are
plain, numbers read back, only functions on numbers are builtins, properties are not written after
a point, branches and loops have blocks, and nothing is declared that the grammar refuses. -/
def Expression.IsWritten (strict : Bool) : Expression ν → Prop
  | .literal l => l.IsWritten
  | .identifier name => isPlainName strict name = true
  | .builtin b => b.isMath = true
  | .array items => Expression.AllWritten strict items
  | .member object property =>
    object.IsWritten strict ∧ property.IsWritten strict ∧ property.isPropertyKey = false
  | .unary _ argument => argument.IsWritten strict
  | .binary _ left right | .logical _ left right => left.IsWritten strict ∧ right.IsWritten strict
  | .conditional test consequent alternate =>
    test.IsWritten strict ∧ consequent.IsWritten strict ∧ alternate.IsWritten strict
  | .call callee arguments => callee.IsWritten strict ∧ Expression.AllWritten strict arguments
  | .function params body home =>
    (∀ p ∈ params, isTarget (strict || Statement.askForStrict body) p = true) ∧ params.Nodup ∧
      Statement.DeclareApart params body ∧
        Statement.AllWritten (strict || Statement.askForStrict body) body ∧ home = none
  | .assignment _ target value => isTarget strict target = true ∧ value.IsWritten strict
  | .update _ _ target => isTarget strict target = true

def Expression.AllWritten (strict : Bool) : List (Expression ν) → Prop
  | [] => True
  | e :: es => e.IsWritten strict ∧ Expression.AllWritten strict es

def Expression.OptionWritten (strict : Bool) : Option (Expression ν) → Prop
  | none => True
  | some e => e.IsWritten strict

def Statement.IsWritten (strict : Bool) : Statement ν → Prop
  | .block body =>
    Statement.DeclareApart [] body ∧
      (strict = true → (Statement.functionNames body).Nodup) ∧ Statement.AllWritten strict body
  | .expression e => e.IsWritten strict
  | .result value => Expression.OptionWritten strict value
  | .branch test consequent alternate =>
    test.IsWritten strict ∧ consequent.isBlock = true ∧ consequent.IsWritten strict ∧
      Statement.OptionWritten strict alternate
  | .loop start test update body =>
    start.IsWritten strict ∧ Expression.OptionWritten strict test ∧
      Expression.OptionWritten strict update ∧ body.isBlock = true ∧ body.IsWritten strict
  | .declaration kind name init =>
    isTarget strict name = true ∧ (kind = .constant → init ≠ none) ∧
      Expression.OptionWritten strict init
  | .function name params body =>
    isTarget (strict || Statement.askForStrict body) name = true ∧
      (∀ p ∈ params, isTarget (strict || Statement.askForStrict body) p = true) ∧
        ((strict || Statement.askForStrict body) = true → params.Nodup) ∧
          Statement.DeclareApart params body ∧
            Statement.AllWritten (strict || Statement.askForStrict body) body

def Statement.AllWritten (strict : Bool) : List (Statement ν) → Prop
  | [] => True
  | s :: ss => s.IsWritten strict ∧ Statement.AllWritten strict ss

def Statement.OptionWritten (strict : Bool) : Option (Statement ν) → Prop
  | none => True
  | some s => (s.isBlock = true ∨ s.isBranch = true) ∧ s.IsWritten strict

def LoopStart.IsWritten (strict : Bool) : LoopStart ν → Prop
  | .absent => True
  | .declaration kind name init =>
    isTarget strict name = true ∧ (kind = .constant → init ≠ none) ∧
      Expression.OptionWritten strict init
  | .expression e => e.IsWritten strict

end

/-! ## Strict code

What can be written in strict code can be written in other code.
-/

theorem isPlainName_of_isTarget {strict : Bool} {name : String} (h : isTarget strict name = true) :
    isPlainName strict name = true :=
  (Bool.and_eq_true_iff.1 h).1

theorem isPlainName_loosen {strict : Bool} {name : String} (h : isPlainName true name = true) :
    isPlainName strict name = true := by
  cases strict with
  | true => exact h
  | false =>
    simp only [isPlainName, isVariable, Bool.and_eq_true, Bool.not_eq_true'] at h ⊢
    exact ⟨⟨h.1.1, ⟨h.1.2.1.1, rfl⟩, h.1.2.2⟩, h.2⟩

theorem isTarget_loosen {strict : Bool} {name : String} (h : isTarget true name = true) :
    isTarget strict name = true := by
  cases strict with
  | true => exact h
  | false => simpa [isTarget] using isPlainName_loosen (isPlainName_of_isTarget h)

mutual

theorem Expression.IsWritten.loosen : ∀ {strict : Bool} {e : Expression ν}, e.IsWritten true →
    e.IsWritten strict
  | _, .literal _, h | _, .builtin _, h => h
  | _, .identifier _, h => isPlainName_loosen h
  | _, .array items, h =>
    have hitems : Expression.AllWritten true items := h
    hitems.loosen
  | _, .member _ _, h => ⟨h.1.loosen, h.2.1.loosen, h.2.2⟩
  | _, .unary _ argument, h =>
    have hargument : argument.IsWritten true := h
    hargument.loosen
  | _, .binary _ _ _, h | _, .logical _ _ _, h => ⟨h.1.loosen, h.2.loosen⟩
  | _, .conditional _ _ _, h => ⟨h.1.loosen, h.2.1.loosen, h.2.2.loosen⟩
  | _, .call _ _, h => ⟨h.1.loosen, h.2.loosen⟩
  | _, .function _ _ _, h =>
    ⟨fun p hp => isTarget_loosen (h.1 p hp), h.2.1, h.2.2.1, h.2.2.2.1.loosen, h.2.2.2.2⟩
  | _, .assignment _ _ _, h => ⟨isTarget_loosen h.1, h.2.loosen⟩
  | _, .update _ _ _, h => isTarget_loosen h

theorem Expression.AllWritten.loosen : ∀ {strict : Bool} {es : List (Expression ν)},
    Expression.AllWritten true es → Expression.AllWritten strict es
  | _, [], h => h
  | _, _ :: _, h => ⟨h.1.loosen, h.2.loosen⟩

theorem Expression.OptionWritten.loosen : ∀ {strict : Bool} {o : Option (Expression ν)},
    Expression.OptionWritten true o → Expression.OptionWritten strict o
  | _, none, h => h
  | _, some e, h =>
    have he : e.IsWritten true := h
    he.loosen

theorem Statement.IsWritten.loosen : ∀ {strict : Bool} {s : Statement ν}, s.IsWritten true →
    s.IsWritten strict
  | _, .block _, h => ⟨h.1, fun _ => h.2.1 rfl, h.2.2.loosen⟩
  | _, .expression e, h =>
    have he : e.IsWritten true := h
    he.loosen
  | _, .result value, h =>
    have hvalue : Expression.OptionWritten true value := h
    hvalue.loosen
  | _, .branch _ _ _, h => ⟨h.1.loosen, h.2.1, h.2.2.1.loosen, h.2.2.2.loosen⟩
  | _, .loop _ _ _ _, h =>
    ⟨h.1.loosen, h.2.1.loosen, h.2.2.1.loosen, h.2.2.2.1, h.2.2.2.2.loosen⟩
  | _, .declaration _ _ _, h => ⟨isTarget_loosen h.1, h.2.1, h.2.2.loosen⟩
  | _, .function _ _ _, h =>
    ⟨isTarget_loosen h.1, fun p hp => isTarget_loosen (h.2.1 p hp), fun _ => h.2.2.1 rfl,
      h.2.2.2.1, h.2.2.2.2.loosen⟩

theorem Statement.AllWritten.loosen : ∀ {strict : Bool} {ss : List (Statement ν)},
    Statement.AllWritten true ss → Statement.AllWritten strict ss
  | _, [], h => h
  | _, _ :: _, h => ⟨h.1.loosen, h.2.loosen⟩

theorem Statement.OptionWritten.loosen : ∀ {strict : Bool} {o : Option (Statement ν)},
    Statement.OptionWritten true o → Statement.OptionWritten strict o
  | _, none, h => h
  | _, some _, h => ⟨h.1, h.2.loosen⟩

theorem LoopStart.IsWritten.loosen : ∀ {strict : Bool} {start : LoopStart ν},
    start.IsWritten true → start.IsWritten strict
  | _, .absent, h => h
  | _, .declaration _ _ _, h => ⟨isTarget_loosen h.1, h.2.1, h.2.2.loosen⟩
  | _, .expression e, h =>
    have he : e.IsWritten true := h
    he.loosen

end

variable {strict asked : Bool}

theorem isPlainName_of_inner {name : String} (h : isTarget (strict || asked) name = true) :
    isPlainName strict name = true := by
  rcases Bool.eq_false_or_eq_true (strict || asked) with hinner | hinner
  · rw [hinner] at h
    exact isPlainName_loosen (isPlainName_of_isTarget h)
  · rw [hinner] at h
    obtain ⟨rfl, -⟩ := Bool.or_eq_false_iff.1 hinner
    exact isPlainName_of_isTarget h

theorem Statement.AllWritten.of_inner {ss : List (Statement ν)}
    (h : Statement.AllWritten (strict || asked) ss) : Statement.AllWritten strict ss := by
  rcases Bool.eq_false_or_eq_true (strict || asked) with hinner | hinner
  · rw [hinner] at h
    exact h.loosen
  · rw [hinner] at h
    obtain ⟨rfl, -⟩ := Bool.or_eq_false_iff.1 hinner
    exact h

/-- What a function is read from: where it stands, its parameters are names and its body can be
written. -/
theorem Expression.IsWritten.of_function {params : List String} {body : List (Statement ν)}
    {home : Option Nat} (h : (Expression.function params body home).IsWritten strict) :
    (∀ p ∈ params, isPlainName strict p = true) ∧ Statement.AllWritten strict body ∧ home = none :=
  ⟨fun p hp => isPlainName_of_inner (h.1 p hp), h.2.2.2.1.of_inner, h.2.2.2.2⟩

theorem Statement.IsWritten.of_function {name : String} {params : List String}
    {body : List (Statement ν)} (h : (Statement.function name params body).IsWritten strict) :
    isPlainName strict name = true ∧ (∀ p ∈ params, isPlainName strict p = true) ∧
      Statement.AllWritten (strict || Statement.askForStrict body) body :=
  ⟨isPlainName_of_inner h.1, fun p hp => isPlainName_of_inner (h.2.1 p hp), h.2.2.2.2⟩

end

end Waveform
