import Waveform.Number.Shortest

/-!
# Layouts of decimal digits

A layout says how given digits are written down: which magnitudes get positional notation, how an
exponent is marked, and which texts stand for zero and for the values that have no digits.
-/

namespace Waveform

/-- The decisions of one written number format. -/
structure Layout where
  /-- Whether a number `x` with `10 ^ (e - 1) ≤ x < 10 ^ e` is written without an exponent. -/
  positional : Int → Bool
  /-- Written after a whole number in positional notation. -/
  afterWhole : String
  /-- Written before an exponent that is not negative. -/
  exponentPlus : String
  zero : String
  negativeZero : String
  infinity : String
  negativeInfinity : String
  nan : String
  /-- Which of two equally near shortest decimals is written. -/
  tie : Tie

namespace Layout

/-- Digits with a point so that `whole` of them stand before it; zeros fill both sides. -/
def withPoint (afterWhole : String) (digits : List Char) (whole : Int) : String :=
  let count : Int := digits.length
  if count ≤ whole then
    String.ofList (digits ++ List.replicate (whole - count).toNat '0') ++ afterWhole
  else if 0 < whole then
    String.ofList (digits.take whole.toNat) ++ "." ++ String.ofList (digits.drop whole.toNat)
  else
    "0." ++ String.ofList (List.replicate (-whole).toNat '0' ++ digits)

/-- One digit, a point before any further ones, and the exponent that goes with them. -/
def withExponent (plus : String) (digits : List Char) (magnitude : Int) : String :=
  let e := magnitude - 1
  let mantissa :=
    match digits with
    | d :: ds@(_ :: _) => String.ofList (d :: '.' :: ds)
    | ds => String.ofList ds
  let sign := if e < 0 then "-" else plus
  mantissa ++ "e" ++ sign ++ toString e.natAbs

def write (l : Layout) (negative : Bool) (s : Scaled) : String :=
  let digits := Nat.toDigits 10 s.digits
  let magnitude := s.magnitude
  let unsigned :=
    if l.positional magnitude then withPoint l.afterWhole digits magnitude
    else withExponent l.exponentPlus digits magnitude
  if negative then "-" ++ unsigned else unsigned

/-- Numbers in the text of a program: positional from a millionth up to `10 ^ 21`, a plus sign
before an exponent, and no trace of the sign of zero. -/
def programText : Layout where
  positional e := -5 ≤ e && e ≤ 21
  afterWhole := ""
  exponentPlus := "+"
  zero := "0"
  negativeZero := "0"
  infinity := "Infinity"
  negativeInfinity := "-Infinity"
  nan := "NaN"
  tie := .up

/-- Numbers in a document: positional with at least one decimal place from `10 ^ -5` up to
`10 ^ 16`, and a bare exponent elsewhere. Values without digits become null. -/
def document : Layout where
  positional e := -4 ≤ e && e ≤ 16
  afterWhole := ".0"
  exponentPlus := ""
  zero := "0.0"
  negativeZero := "-0.0"
  infinity := "null"
  negativeInfinity := "null"
  nan := "null"
  tie := .even

def plain : Layout where
  positional _ := true
  afterWhole := ""
  exponentPlus := ""
  zero := "0"
  negativeZero := "-0"
  infinity := "inf"
  negativeInfinity := "-inf"
  nan := "NaN"
  tie := .up

end Layout

end Waveform
