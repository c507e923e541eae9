import FormattedOutput.Bytes
import FormattedOutput.Features

/-!
# Directives

A directive follows a percent sign and has, in this order and each part but the last optional, the
flag `-`, the flag `0`, a width in decimal digits, the marker `l` and a conversion byte. Each part
is taken greedily, and the width is the value of its digits as far as 31 bits hold it.
-/

namespace FormattedOutput

/-- The byte that fills a right-justified field. -/
inductive Pad where
  | space
  | zero
  deriving DecidableEq, Repr

/-- The fill byte itself. -/
def Pad.byte : Pad → UInt8
  | space => ' '.toUInt8
  | zero => '0'.toUInt8

/-- What a directive converts, and into what. -/
inductive Conversion where
  | unsigned
  | signed
  | lowerHex
  | upperHex
  | char
  | str
  | percent
  | count
  | float
  deriving DecidableEq, Repr

namespace Conversion

/-- The conversion that a byte stands for. -/
def ofByte? (features : Features) (byte : UInt8) : Option Conversion :=
  match Char.ofUInt8 byte with
  | 'u' => some unsigned
  | 'd' => some signed
  | 'i' => some signed
  | 'x' => some lowerHex
  | 'X' => some upperHex
  | 'c' => some char
  | 's' => some str
  | '%' => some percent
  | 'n' => some count
  | 'f' => if features.float then some float else none
  | _ => none

/-- The name under which a conversion is reported. -/
def name : Conversion → String
  | unsigned => "Unsigned"
  | signed => "Signed"
  | lowerHex => "LowerHex"
  | upperHex => "UpperHex"
  | char => "Char"
  | str => "Str"
  | percent => "Percent"
  | count => "Count"
  | float => "Float"

end Conversion

/-- The largest width and the largest value of a count slot, both signed words of 32 bits. -/
def maxCount : Nat := 0x7fffffff

/-- One complete directive. The width is negative in a left-justified field. -/
structure Directive where
  pad : Pad
  width : Int
  long : Bool
  conversion : Conversion
  deriving DecidableEq, Repr

/-- What stands after a percent sign. -/
inductive Parsed where
  /-- A complete directive and how many bytes it takes up. -/
  | directive (directive : Directive) (length : Nat)
  /-- The byte in the place of the conversion is none. -/
  | unsupported (byte : UInt8)
  /-- The format ends before the conversion. -/
  | truncated
  deriving DecidableEq, Repr

namespace Directive

/-- The width after one more digit; it never passes `maxCount`. -/
def widen (width : Nat) (digit : UInt8) : Nat :=
  min (min (width * 10) maxCount + Bytes.digitValue digit) maxCount

/-- The width that a run of digits spells, `maxCount` if it spells more. -/
def widthOf (digits : Bytes) : Nat := digits.foldl widen 0

/-- Reads the directive at the start of `spec`, the text after a percent sign. A NUL byte ends the
    text. -/
def read (features : Features) (spec : Bytes) : Parsed :=
  let (left, afterMinus) := takeOptional '-'.toUInt8 spec
  let (zero, afterZero) := takeOptional '0'.toUInt8 afterMinus
  let digits := afterZero.takeWhile Bytes.isDigit
  let afterWidth := afterZero.dropWhile Bytes.isDigit
  let (long, conversionOn) :=
    if features.long then takeOptional 'l'.toUInt8 afterWidth else (false, afterWidth)
  match conversionOn with
  | [] => .truncated
  | byte :: rest =>
    if byte = 0 then .truncated
    else match Conversion.ofByte? features byte with
      | none => .unsupported byte
      | some conversion =>
        let width : Int := widthOf digits
        .directive
          { pad := if zero then .zero else .space
            width := if left then -width else width
            long
            conversion }
          (spec.length - rest.length)

end Directive

end FormattedOutput
