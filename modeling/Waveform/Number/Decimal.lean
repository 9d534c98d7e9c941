/-!
# Decimal numerals

A decimal is a whole number times a power of ten. `Numeral.ofText?` reads the customary written
forms: an optional sign, then digits with an optional fraction and an optional exponent, or one of
the names of the infinities and of the undefined number, whose letters may be of either case.
-/

namespace Waveform

/-- The number `mantissa · 10 ^ exponent`, negated when `negative` holds; zero keeps its sign. -/
structure Decimal where
  negative : Bool
  mantissa : Nat
  exponent : Int
  deriving DecidableEq, Repr

/-- What a written number stands for. -/
inductive Numeral
  | finite (value : Decimal)
  | infinite (negative : Bool)
  | notANumber
  deriving DecidableEq, Repr

namespace Decimal

def ofNat (n : Nat) : Decimal :=
  ⟨false, n, 0⟩

/-- The value of a row of decimal digits, the most significant first. -/
def digitsValue (digits : List Char) : Nat :=
  digits.foldl (fun n c => 10 * n + (c.toNat - '0'.toNat)) 0

def digits? (cs : List Char) : Option Nat :=
  if cs.isEmpty || cs.any (! ·.isDigit) then none else some (digitsValue cs)

/-- Reads an exponent: nothing at all, or a letter, an optional sign and digits. -/
def exponent? : List Char → Option Int
  | [] => some 0
  | c :: cs =>
    if c = 'e' || c = 'E' then
      match cs with
      | '-' :: ds => (digits? ds).map fun n => -(n : Int)
      | '+' :: ds => (digits? ds).map Int.ofNat
      | ds => (digits? ds).map Int.ofNat
    else none

/-- Reads digits, an optional point among or beside them, and an optional exponent. -/
def unsigned? (negative : Bool) (cs : List Char) : Option Decimal :=
  let whole := cs.takeWhile Char.isDigit
  let rest := cs.dropWhile Char.isDigit
  let (fraction, rest) :=
    match rest with
    | '.' :: tail => (tail.takeWhile Char.isDigit, tail.dropWhile Char.isDigit)
    | _ => ([], rest)
  if whole.isEmpty && fraction.isEmpty then none
  else (exponent? rest).map fun e =>
    ⟨negative, digitsValue (whole ++ fraction), e - fraction.length⟩

end Decimal

namespace Numeral

def unsigned? (negative : Bool) (cs : List Char) : Option Numeral :=
  let word := cs.map Char.toLower
  if word = "inf".toList || word = "infinity".toList then some (.infinite negative)
  else if word = "nan".toList then some .notANumber
  else (Decimal.unsigned? negative cs).map .finite

def ofChars? : List Char → Option Numeral
  | '-' :: cs => unsigned? true cs
  | '+' :: cs => unsigned? false cs
  | cs => unsigned? false cs

def ofText? (text : String) : Option Numeral :=
  ofChars? text.toList

end Numeral

end Waveform
