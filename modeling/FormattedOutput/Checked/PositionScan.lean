import FormattedOutput.Checked.Piece
import FormattedOutput.WordMachine

/-!
# Checking a format literal by positions

The check of a format literal once more, on the bytes of its encoding and with a position in them. A
directive that is refused is quoted as the part of the literal between two positions. Such a part is
a text only if each of the two lies between two characters; if one does not, or lies outside of the
literal, there is no result, and then there is none of the whole check.
-/

namespace FormattedOutput.PositionScan

open WordMachine (slice?)

/-- Whether a position lies between two characters of an encoded text: in front of the first byte of
    one, or at the end of the text. -/
def isBoundary (text : Bytes) (position : Nat) : Bool :=
  match text[position]? with
  | some byte => decide byte.IsUTF8FirstByte
  | none => decide (position = text.length)

/-- The text from one position to another, if both of them lie between two characters. -/
def quote? (text : Bytes) (start stop : Nat) : Option String :=
  if isBoundary text start ∧ isBoundary text stop then
    (slice? text start stop).bind fun part => String.fromUTF8? part.toByteArray
  else none

/-- The first position from `position` on that lies between two characters. -/
def nextBoundary (text : Bytes) (position : Nat) : Nat :=
  ((List.range' position (text.length + 1 - position)).find? (isBoundary text)).getD text.length

/-- The position behind an optional character. -/
def skip (text : Bytes) (wanted : Char) (position : Nat) : Nat :=
  if text[position]? = some wanted.toUInt8 then position + 1 else position

/-- The position behind a run of digits. -/
def skipDigits (text : Bytes) (position : Nat) : Nat :=
  match _h : text[position]? with
  | some byte => if Bytes.isDigit byte then skipDigits text (position + 1) else position
  | none => position
termination_by text.length - position
decreasing_by
  have inside := (List.getElem?_eq_some_iff.mp _h).1
  omega

/-- Where the conversion stands in the text behind a percent sign, and whether the marker `l` stands
    in front of it. -/
def findConversion (spec : Bytes) : Nat × Bool :=
  let marker := skipDigits spec (skip spec '0' (skip spec '-' 0))
  (skip spec 'l' marker, spec[marker]? = some 'l'.toUInt8)

/-- The pieces of an encoded literal without NUL from a position on. -/
def scanFrom? (text : Bytes) (position : Nat) : Option (Except FormatError (List Piece)) :=
  match _h : text[position]? with
  | none => some (.ok [])
  | some byte =>
    if byte = '%'.toUInt8 then do
      let spec ← slice? text (position + 1) text.length
      let (index, long) := findConversion spec
      match spec[index]? with
      | none =>
        let quoted ← quote? text position text.length
        return .error (.incomplete quoted)
      | some conversion =>
        match Piece.ofConversion? long (Char.ofUInt8 conversion) with
        | none =>
          let stop := nextBoundary text (position + 1 + index + 1)
          let quoted ← quote? text position stop
          return .error (.unsupported quoted)
        | some pieces =>
          let later ← scanFrom? text (position + 1 + (index + 1))
          return later.map (pieces ++ ·)
    else scanFrom? text (position + 1)
termination_by text.length - position
decreasing_by
  all_goals
    have inside := (List.getElem?_eq_some_iff.mp _h).1
    omega

/-- The pieces of an encoded literal. -/
def check? (text : Bytes) : Option (Except FormatError (List Piece)) :=
  if 0 ∈ text then some (.error .nul) else scanFrom? text 0

end FormattedOutput.PositionScan
