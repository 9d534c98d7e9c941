import Waveform.Text.Ranges

/-!
# Escaped text

A text between double quotes for display, in which every character that would not show by itself
is written by its code point.
-/

namespace Waveform

/-- Blanks, marks that need a base, and private characters; the characters of no width are in
`zeroWidthRanges`. -/
def concealedRanges : Array (Nat × Nat) :=
  #[(0x0, 0x1F), (0x7F, 0xA0), (0xAD, 0xAD), (0x9BE, 0x9BE), (0x9D7, 0x9D7), (0xB3E, 0xB3E),
    (0xB57, 0xB57), (0xBBE, 0xBBE), (0xBD7, 0xBD7), (0xCC2, 0xCC2), (0xCD5, 0xCD6),
    (0xD3E, 0xD3E), (0xD57, 0xD57), (0xDCF, 0xDCF), (0xDDF, 0xDDF), (0x1680, 0x1680),
    (0x1B35, 0x1B35), (0x2000, 0x200A), (0x2028, 0x2029), (0x202F, 0x202F), (0x205F, 0x205F),
    (0x3000, 0x3000), (0x302E, 0x302F), (0xE000, 0xF8FF), (0xFF9E, 0xFF9F), (0x1133E, 0x1133E),
    (0x11357, 0x11357), (0x114B0, 0x114B0), (0x114BD, 0x114BD), (0x115AF, 0x115AF),
    (0x11930, 0x11930), (0x1D165, 0x1D165), (0x1D16E, 0x1D172), (0xF0000, 0xFFFFD),
    (0x100000, 0x10FFFD)]

/-- Whether the character is written by its code point. The medial and final letters of Hangul
have no width of their own but show. -/
def isConcealed (c : Char) : Bool :=
  inRanges concealedRanges c.toNat ||
    (inRanges zeroWidthRanges c.toNat && ! (0x1160 ≤ c.toNat && c.toNat ≤ 0x11FF))

def escapeVisibly (c : Char) : List Char :=
  match c with
  | '"' => ['\\', '"']
  | '\\' => ['\\', '\\']
  | '\x00' => ['\\', '0']
  | '\n' => ['\\', 'n']
  | '\r' => ['\\', 'r']
  | '\t' => ['\\', 't']
  | c =>
    if isConcealed c then
      ['\\', 'u', '\x7b'] ++ Nat.toDigits 16 c.toNat ++ ['\x7d']
    else [c]

def escaped (text : String) : String :=
  String.ofList ('"' :: text.toList.flatMap escapeVisibly ++ ['"'])

end Waveform
