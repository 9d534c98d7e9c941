import Waveform.Text.Ranges

/-!
# Characters of source text

Which characters end a line, separate tokens, and make up names, and how many columns of a display
each one takes.
-/

namespace Waveform

namespace Source

def isLineEnd (c : Char) : Bool :=
  c == '\n' || c == '\r' || c.toNat == 0x2028 || c.toNat == 0x2029

def isSpace (c : Char) : Bool :=
  let n := c.toNat
  n == 0x20 || n == 0 || n == 0x9 || n == 0xB || n == 0xC || n == 0x85 || n == 0xA0 ||
    n == 0xFEFF || n == 0x1680 || (0x2000 ≤ n && n ≤ 0x200A) || n == 0x202F || n == 0x205F ||
    n == 0x3000

def isNameStart (c : Char) : Bool :=
  c.isAlpha || c == '_' || c == '$' || (127 < c.toNat && inRanges letterRanges c.toNat)

def isNamePart (c : Char) : Bool :=
  c.isAlphanum || c == '_' || c == '$' ||
    (127 < c.toNat && (inRanges letterRanges c.toNat || inRanges markRanges c.toNat ||
      c.toNat == 0x200C || c.toNat == 0x200D))

/-- The columns that a character takes. A tab takes four and a control character none; a character
beyond the first 65536 takes one more than its width. -/
def columns (c : Char) : Nat :=
  let n := c.toNat
  if n == 0x9 then 4
  else if n < 0x20 then 0
  else if n < 0x7F then 1
  else if n < 0xA0 then 0
  else
    let width :=
      if inRanges zeroWidthRanges n then 0 else if inRanges wideRanges n then 2 else 1
    if 0xFFFF < n then width + 1 else width

def hexValue? (c : Char) : Option Nat :=
  let n := c.toNat
  if c.isDigit then some (n - 0x30)
  else if 'a' ≤ c && c ≤ 'f' then some (n - 0x57)
  else if 'A' ≤ c && c ≤ 'F' then some (n - 0x37)
  else none

/-- The value of a digit in the given base, which is at most sixteen. -/
def digitValue? (base : Nat) (c : Char) : Option Nat :=
  (hexValue? c).filter (· < base)

end Source

end Waveform
