import Waveform.Number.Decimal
import Waveform.Source.Character

/-!
# Tokens

Reads the next token of a source text: names, numbers, strings and marks, after any space and
comments before it. `none` means that the text is not well formed there.

A slash is always read as a mark and a backquote as a mark of its own; the parser knows from its
place where a regular expression or a template starts, and reads on with `regularExpression?` and
`templateChunk?`. So it is with the mark `#` before a private name and with the two marks of an
optional chain.
-/

namespace Waveform

namespace Source

inductive Token
  /-- A name or keyword; `escaped` if any of its characters was written as an escape. -/
  | word (name : String) (escaped : Bool)
  /-- A number; `legacy` if it has a leading zero that strict code forbids. -/
  | number (value : Decimal) (legacy : Bool)
  | bigNumber
  /-- A string; `legacy` if it has an escape that strict code forbids. -/
  | string (value : String) (legacy : Bool)
  | mark (text : String)
  | finish
  deriving DecidableEq, Repr

/-- Words that are never names. -/
def keywords : List String :=
  ["break", "case", "catch", "class", "const", "continue", "debugger", "default", "delete", "do",
    "else", "enum", "export", "extends", "false", "finally", "for", "function", "if", "import",
    "in", "instanceof", "new", "null", "return", "super", "switch", "this", "throw", "true", "try",
    "typeof", "var", "void", "while", "with"]

namespace Token

def isWord (t : Token) (name : String) : Bool :=
  match t with
  | word n _ => n == name
  | _ => false

def isMark (t : Token) (text : String) : Bool :=
  match t with
  | mark m => m == text
  | _ => false

end Token

structure Lexeme where
  token : Token
  /-- How many characters come before the place where errors in the token are shown. -/
  start : Nat
  /-- Whether a line ends between this token and the one before. -/
  afterLineEnd : Bool
  /-- The text from the first character of the token on, and how many characters come before. -/
  text : List Char
  offset : Nat
  /-- The text after the token, and how many characters come before that. -/
  rest : List Char
  stop : Nat

/-- What a reader found, the text after it, and the count of the characters it took. -/
structure Read (α : Type) where
  value : α
  rest : List Char
  count : Nat

/-! ## Space and comments -/

inductive SkipMode
  | code
  | lineComment
  | blockComment
  deriving DecidableEq, Repr

structure Gap where
  /-- The text behind the gap, and how many characters come before that. -/
  text : List Char
  offset : Nat
  hasLineEnd : Bool
  /-- Where the first comment in the style of markup starts, which counts as part of the token. -/
  markup : Option Nat

/-- Reads space and comments. A comment in the style of markup is one that starts with `<!--`, or
with `-->` as the first thing on a line. -/
def skip : SkipMode → List Char → Nat → Bool → Option Nat → Option Gap
  | .blockComment, [], _, _, _ => none
  | _, [], n, newline, markup => some ⟨[], n, newline, markup⟩
  | .lineComment, c :: cs, n, newline, markup =>
    if isLineEnd c then skip .code cs (n + 1) true markup
    else skip .lineComment cs (n + 1) newline markup
  | .blockComment, '*' :: '/' :: cs, n, newline, markup => skip .code cs (n + 2) newline markup
  | .blockComment, c :: cs, n, newline, markup =>
    skip .blockComment cs (n + 1) (newline || isLineEnd c) markup
  | .code, '/' :: '/' :: cs, n, newline, markup => skip .lineComment cs (n + 2) newline markup
  | .code, '/' :: '*' :: cs, n, newline, markup => skip .blockComment cs (n + 2) newline markup
  | .code, '<' :: '!' :: '-' :: '-' :: cs, n, newline, markup =>
    skip .lineComment cs (n + 4) newline (markup <|> some n)
  | .code, '-' :: '-' :: '>' :: cs, n, newline, markup =>
    if newline then skip .lineComment cs (n + 3) newline (markup <|> some n)
    else some ⟨'-' :: '-' :: '>' :: cs, n, false, markup⟩
  | .code, c :: cs, n, newline, markup =>
    if isLineEnd c then skip .code cs (n + 1) true markup
    else if isSpace c then skip .code cs (n + 1) newline markup
    else some ⟨c :: cs, n, newline, markup⟩

/-! ## Escapes -/

def digits (base limit : Nat) (cs : List Char) : List Char :=
  (cs.take limit).takeWhile fun c => (digitValue? base c).isSome

def valueOfDigits (base : Nat) (ds : List Char) : Nat :=
  ds.foldl (fun n c => n * base + (digitValue? base c).getD 0) 0

/-- Reads a code point after `\u`: four hexadecimal digits, or any number of them in braces. -/
def codePoint? : List Char → Option (Read (Nat × List Char))
  | '{' :: cs =>
    let ds := cs.takeWhile fun c => (hexValue? c).isSome
    let value := valueOfDigits 16 ds
    match cs.drop ds.length with
    | '}' :: rest =>
      if ds.isEmpty || 0x10FFFF < value then none
      else some ⟨(value, '{' :: ds ++ ['}']), rest, ds.length + 2⟩
    | _ => none
  | cs =>
    let ds := digits 16 4 cs
    if ds.length == 4 then some ⟨(valueOfDigits 16 ds, ds), cs.drop 4, 4⟩ else none

def isSurrogate (n : Nat) : Bool :=
  0xD800 ≤ n && n ≤ 0xDFFF

/-- Reads what follows a backslash in a string. The value is the characters that the escape stands
for, and whether strict code forbids it. Half of a surrogate pair stands for no character, so its
escape stands for itself. -/
def escape? : List Char → Option (Read (List Char × Bool))
  | [] => none
  | 'n' :: cs => some ⟨(['\n'], false), cs, 1⟩
  | 't' :: cs => some ⟨(['\t'], false), cs, 1⟩
  | 'r' :: cs => some ⟨(['\r'], false), cs, 1⟩
  | 'b' :: cs => some ⟨(['\x08'], false), cs, 1⟩
  | 'v' :: cs => some ⟨(['\x0b'], false), cs, 1⟩
  | 'f' :: cs => some ⟨(['\x0c'], false), cs, 1⟩
  | '\r' :: '\n' :: cs => some ⟨([], false), cs, 2⟩
  | 'x' :: cs =>
    let ds := digits 16 2 cs
    if ds.length == 2 then some ⟨([Char.ofNat (valueOfDigits 16 ds)], false), cs.drop 2, 3⟩
    else none
  | 'u' :: cs =>
    (codePoint? cs).map fun r =>
      let chars :=
        if isSurrogate r.value.1 then '\\' :: 'u' :: r.value.2 else [Char.ofNat r.value.1]
      ⟨(chars, false), r.rest, r.count + 1⟩
  | c :: cs =>
    if isLineEnd c then some ⟨([], false), cs, 1⟩
    else if '0' ≤ c && c ≤ '7' then
      let ds := digits 8 (if c ≤ '3' then 3 else 2) (c :: cs)
      let isNull := c == '0' && ds.length == 1
      some ⟨([Char.ofNat (valueOfDigits 8 ds)], ! isNull), (c :: cs).drop ds.length, ds.length⟩
    else some ⟨([c], false), cs, 1⟩

/-! ## Names -/

/-- Reads the rest of a name that has escapes in it, its characters so far reversed. -/
def escapedName? : Nat → List Char → List Char → Nat → Option (Read String)
  | 0, _, _, _ => none
  | fuel + 1, '\\' :: 'u' :: cs, soFar, count =>
    match codePoint? cs with
    | none => none
    | some r =>
      let c := Char.ofNat r.value.1
      let fits := if soFar.isEmpty then isNameStart c else isNamePart c
      if isSurrogate r.value.1 || ! fits then none
      else escapedName? fuel r.rest (c :: soFar) (count + r.count + 2)
  | _, '\\' :: _, _, _ => none
  | fuel + 1, c :: cs, soFar, count =>
    if isNamePart c then escapedName? fuel cs (c :: soFar) (count + 1)
    else some ⟨String.ofList soFar.reverse, c :: cs, count⟩
  | _, [], soFar, count => some ⟨String.ofList soFar.reverse, [], count⟩

def name? (cs : List Char) : Option (Read String × Bool) :=
  let plain := cs.takeWhile isNamePart
  let rest := cs.drop plain.length
  match rest with
  | '\\' :: _ =>
    (escapedName? (rest.length + 1) rest plain.reverse plain.length).map fun r => (r, true)
  | _ => some (⟨String.ofList plain, rest, plain.length⟩, false)

/-! ## Numbers -/

/-- Reads a row of digits, in which an underscore may stand before any digit. -/
def groupedDigits? (base : Nat) (cs : List Char) : Option (Read (List Char)) :=
  let row := cs.takeWhile fun c => (digitValue? base c).isSome || c == '_'
  let isGrouped :=
    row.getLast? != some '_' && (row.zip row.tail).all fun (a, b) => ! (a == '_' && b == '_')
  if isGrouped then some ⟨row.filter (· != '_'), cs.drop row.length, row.length⟩ else none

def exponent? : List Char → Option (Read Int)
  | c :: cs =>
    if c == 'e' || c == 'E' then
      let (isNegative, ds, signs) :=
        match cs with
        | '-' :: ds => (true, ds, 1)
        | '+' :: ds => (false, ds, 1)
        | ds => (false, ds, 0)
      (groupedDigits? 10 ds).bind fun r =>
        if r.value.isEmpty then none
        else
          let n : Int := Decimal.digitsValue r.value
          some ⟨if isNegative then -n else n, r.rest, r.count + signs + 1⟩
    else some ⟨0, c :: cs, 0⟩
  | [] => some ⟨0, [], 0⟩

def numberToken (value : Option Decimal) (legacy : Bool) : Token :=
  match value with
  | some d => .number d legacy
  | none => .bigNumber

def inBase? (base : Nat) (cs : List Char) : Option (Read (Option Decimal)) :=
  (groupedDigits? base cs).bind fun r =>
    if r.value.isEmpty then none
    else
      match r.rest with
      | 'n' :: rest => some ⟨none, rest, r.count + 3⟩
      | rest => some ⟨some (.ofNat (valueOfDigits base r.value)), rest, r.count + 2⟩

def fractional? (whole : List Char) (count : Nat) (cs : List Char) :
    Option (Read (Option Decimal)) :=
  let fraction? : Option (Read (List Char)) :=
    match cs with
    | '.' :: ds => (groupedDigits? 10 ds).map fun r => ⟨r.value, r.rest, r.count + 1⟩
    | ds => some ⟨[], ds, 0⟩
  fraction?.bind fun f =>
    (exponent? f.rest).bind fun e =>
      if whole.isEmpty && f.value.isEmpty then none
      else
        some ⟨some ⟨false, Decimal.digitsValue (whole ++ f.value), e.value - f.value.length⟩,
          e.rest, count + f.count + e.count⟩

/-- Reads a number in base ten, and whether it has a leading zero before other digits. With such a
zero it is octal if all its digits are. -/
def decimal? (cs : List Char) : Option (Read (Option Decimal) × Bool) :=
  (groupedDigits? 10 cs).bind fun r =>
    let isZeroLed := 1 < r.count && cs.head? == some '0'
    match r.rest with
    | 'n' :: rest => if r.value.isEmpty then none else some (⟨none, rest, r.count + 1⟩, false)
    | rest =>
      if isZeroLed && r.value.all fun c => (digitValue? 8 c).isSome then
        some (⟨some (.ofNat (valueOfDigits 8 r.value)), rest, r.count⟩, true)
      else (fractional? r.value r.count rest).map fun f => (f, isZeroLed)

/-- Reads a number. No name may follow it at once, except behind the mark of a large one. -/
def number? (cs : List Char) : Option (Read Token) :=
  let read? : Option (Read (Option Decimal) × Bool) :=
    match cs with
    | '0' :: c :: ds =>
      if c == 'x' || c == 'X' then (inBase? 16 ds).map fun r => (r, false)
      else if c == 'o' || c == 'O' then (inBase? 8 ds).map fun r => (r, false)
      else if c == 'b' || c == 'B' then (inBase? 2 ds).map fun r => (r, false)
      else decimal? cs
    | cs => decimal? cs
  read?.bind fun (r, legacy) =>
    if r.value.isSome && r.rest.head?.any isNameStart then none
    else some ⟨numberToken r.value legacy, r.rest, r.count⟩

/-! ## Strings, templates and regular expressions -/

def string? (quote : Char) : Nat → List Char → List Char → Bool → Nat → Option (Read Token)
  | 0, _, _, _, _ => none
  | _, [], _, _, _ => none
  | fuel + 1, c :: cs, soFar, legacy, count =>
    if c == quote then some ⟨.string (String.ofList soFar.reverse) legacy, cs, count + 1⟩
    else if c == '\\' then
      match escape? cs with
      | none => none
      | some r =>
        string? quote fuel r.rest (r.value.1.reverse ++ soFar) (legacy || r.value.2)
          (count + r.count + 1)
    else if c == '\n' || c == '\r' then none
    else string? quote fuel cs (c :: soFar) legacy (count + 1)

/-- What a stretch of template text ends with, and whether all its escapes are well formed. -/
structure TemplateChunk where
  closes : Bool
  wellFormed : Bool

def templateChunk? : Nat → List Char → Bool → Nat → Option (Read TemplateChunk)
  | 0, _, _, _ => none
  | _, [], _, _ => none
  | _, '\x60' :: cs, wellFormed, count => some ⟨⟨true, wellFormed⟩, cs, count + 1⟩
  | _, '$' :: '{' :: cs, wellFormed, count => some ⟨⟨false, wellFormed⟩, cs, count + 2⟩
  | fuel + 1, '\\' :: cs, wellFormed, count =>
    match escape? cs with
    | some r => templateChunk? fuel r.rest (wellFormed && ! r.value.2) (count + r.count + 1)
    | none => templateChunk? fuel (cs.drop 1) false (count + 2)
  | fuel + 1, _ :: cs, wellFormed, count => templateChunk? fuel cs wellFormed (count + 1)

/-- The text after the closing slash of a regular expression, outside any bracketed class. -/
def expressionBody? : Bool → List Char → Nat → Option (List Char × Nat)
  | _, [], _ => none
  | inClass, '\\' :: c :: cs, n =>
    if isLineEnd c then none else expressionBody? inClass cs (n + 2)
  | inClass, c :: cs, n =>
    if isLineEnd c then none
    else if c == '/' && ! inClass then some (cs, n + 1)
    else if c == '[' then expressionBody? true cs (n + 1)
    else if c == ']' then expressionBody? false cs (n + 1)
    else expressionBody? inClass cs (n + 1)

def regularExpression? : List Char → Option (Read Unit)
  | '/' :: cs =>
    (expressionBody? false cs 1).bind fun (rest, count) =>
      let flags := rest.takeWhile isNamePart
      let known := flags.all fun c => "dgimsuvy".toList.contains c
      if known && flags.eraseDups.length == flags.length then
        some ⟨(), rest.drop flags.length, count + flags.length⟩
      else none
  | _ => none

/-! ## The next token -/

/-- The marks, longer ones before the marks that they start with. -/
def marks : List String :=
  [">>>=", "...", "===", "!==", "**=", "<<=", ">>=", ">>>", "&&=", "||=", "??=", "=>", "==", "!=",
    "<=", ">=", "&&", "||", "??", "++", "--", "+=", "-=", "*=", "/=", "%=", "&=", "|=", "^=", "<<",
    ">>", "**", "\x7b", "\x7d", "(", ")", "[", "]", ";", ",", "<", ">", "+", "-", "*", "/", "%",
    "&", "|", "^", "!", "~", "?", ":", "=", ".", "#", "\x60"]

def spelledMarks : List (List Char × String) :=
  marks.map fun m => (m.toList, m)

def mark? (cs : List Char) : Option (Read Token) :=
  (spelledMarks.find? fun m => m.1.isPrefixOf cs).map fun m =>
    ⟨.mark m.2, cs.drop m.1.length, m.1.length⟩

/-- Reads the token at the start of a text. A keyword has no escapes in it. -/
def token? (cs : List Char) : Option (Read Token) :=
  match cs with
  | [] => some ⟨.finish, [], 0⟩
  | c :: ds =>
    if isNameStart c || c == '\\' then
      (name? cs).bind fun (r, escaped) =>
        if escaped && keywords.contains r.value then none
        else some ⟨.word r.value escaped, r.rest, r.count⟩
    else if c.isDigit then number? cs
    else if c == '.' && ds.head?.any Char.isDigit then number? cs
    else if c == '"' || c == '\'' then string? c (ds.length + 1) ds [] false 1
    else mark? cs

def lexeme? (cs : List Char) (offset : Nat) (afterLineEnd : Bool) : Option Lexeme :=
  (skip .code cs offset afterLineEnd none).bind fun gap =>
    (token? gap.text).map fun r =>
      { token := r.value, start := gap.markup.getD gap.offset, afterLineEnd := gap.hasLineEnd
        text := gap.text, offset := gap.offset, rest := r.rest, stop := gap.offset + r.count }

end Source

end Waveform
