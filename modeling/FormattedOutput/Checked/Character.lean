/-!
# Characters of source text

The classes of characters that the lexical rules of a formatting call's source text are stated
with: blanks, the characters of names, punctuation marks and hexadecimal digits.
-/

namespace FormattedOutput.Character

/-- The blanks: the white space of Unicode, and the two marks of writing direction. -/
def isBlank (character : Char) : Bool :=
  character ∈ ['\t', '\n', '\x0b', '\x0c', '\r', ' ', '\u0085', '\u00a0', '\u1680', '\u200e',
    '\u200f', '\u2028', '\u2029', '\u202f', '\u205f', '\u3000'] ||
  '\u2000' ≤ character && character ≤ '\u200a'

/-- The first character of a name: an ASCII letter, an underscore, or any character beyond ASCII
    that is no blank. -/
def isNameStart (character : Char) : Bool :=
  character.isAlpha || character = '_' || 128 ≤ character.toNat && !isBlank character

/-- A later character of a name. -/
def isNamePart (character : Char) : Bool := isNameStart character || character.isDigit

/-- The punctuation marks. -/
def isMark (character : Char) : Bool := character ∈ "~!@#$%^&*-=+|;:,<.>/?\x27".toList

/-- The value of a hexadecimal digit. -/
def hexValue? (character : Char) : Option Nat :=
  if character.isDigit then some (character.toNat - '0'.toNat)
  else if 'a' ≤ character ∧ character ≤ 'f' then some (character.toNat - 'a'.toNat + 10)
  else if 'A' ≤ character ∧ character ≤ 'F' then some (character.toNat - 'A'.toNat + 10)
  else none

/-- The character with a given number, which has to be one of Unicode's. -/
def ofNumber? (number : Nat) : Option Char :=
  if number.isValidChar then some (Char.ofNat number) else none

/-- Whether a character lies in one of some ranges, which include their ends. -/
def isWithin (ranges : List (Nat × Nat)) (character : Char) : Bool :=
  ranges.any fun (first, last) => first ≤ character.toNat && character.toNat ≤ last

/-- Ranges of characters that show nothing by themselves: controls, format characters, combining
    marks, variation selectors and characters for private use. -/
def invisibleRanges : List (Nat × Nat) :=
  [(0x00, 0x1f), (0x7f, 0x9f), (0xad, 0xad), (0x300, 0x36f), (0x483, 0x489), (0x591, 0x5bd),
    (0x600, 0x605), (0x610, 0x61a), (0x61c, 0x61c), (0x64b, 0x65f), (0x6dd, 0x6dd),
    (0x70f, 0x70f), (0x180b, 0x180f), (0x1ab0, 0x1ace), (0x1dc0, 0x1dff), (0x200b, 0x200f),
    (0x2028, 0x202e), (0x2060, 0x206f), (0x20d0, 0x20f0), (0xd800, 0xf8ff), (0xfe00, 0xfe0f),
    (0xfe20, 0xfe2f), (0xfeff, 0xfeff), (0xfff0, 0xfffb), (0xfffe, 0xffff),
    (0xe0000, 0x10ffff)]

/-- Whether a character can stand in a literal as it is: a space, or a character that shows. -/
def isVisible (character : Char) : Bool :=
  character = ' ' || !(isBlank character || isWithin invisibleRanges character)

end FormattedOutput.Character
