import Waveform.Numeric
import Waveform.Text.Blank
import Waveform.Text.Quoted

/-!
# Literals

The primitive values of programs, their text, and their conversions to truth values, numbers and
strings.
-/

namespace Waveform

inductive Literal (ν : Type)
  | undefined
  | null
  | boolean (value : Bool)
  | number (value : ν)
  | string (value : String)
  deriving Repr

namespace Literal

variable {ν : Type}

def asNumber? : Literal ν → Option ν
  | number x => some x
  | _ => none

/-- The two literals that stand for a missing value. -/
def isNullish : Literal ν → Bool
  | undefined | null => true
  | _ => false

def typeName : Literal ν → String
  | undefined => "undefined"
  | null => "object"
  | boolean _ => "boolean"
  | number _ => "number"
  | string _ => "string"

variable [Numeric ν]

def isTruthy : Literal ν → Bool
  | undefined | null => false
  | boolean b => b
  | number x => Numeric.isTruthy x
  | string s => ! s.isEmpty

/-- Two literals are the same when they have one kind and one value; the undefined number is not
the same as itself. -/
def same : Literal ν → Literal ν → Bool
  | undefined, undefined => true
  | null, null => true
  | boolean a, boolean b => a == b
  | number x, number y => Numeric.eq x y
  | string s, string t => s == t
  | _, _ => false

/-- Reads the number written in a text without blanks at its ends. No text is zero, and of the
named numbers only a signed or unsigned `Infinity` is known. -/
def numeralOfTrimmed (cs : List Char) : Numeral :=
  if cs.isEmpty then .finite (.ofNat 0)
  else if cs = "Infinity".toList || cs = "+Infinity".toList then .infinite false
  else if cs = "-Infinity".toList then .infinite true
  else if cs.any fun c => c.isAlpha && c != 'e' && c != 'E' then .notANumber
  else (Numeral.ofChars? cs).getD .notANumber

def toNumber : Literal ν → ν
  | undefined => Numeric.nan
  | null => Numeric.zero
  | boolean true => Numeric.one
  | boolean false => Numeric.zero
  | number x => x
  | string s => Numeric.ofNumeral (numeralOfTrimmed (trimBlanks s.toList))

def text : Literal ν → String
  | undefined => "undefined"
  | null => "null"
  | boolean true => "true"
  | boolean false => "false"
  | number x => Numeric.text x
  | string s => quote s

def toText : Literal ν → String
  | string s => s
  | l => l.text

end Literal

end Waveform
