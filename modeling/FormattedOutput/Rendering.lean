import FormattedOutput.Argument
import FormattedOutput.Binary64.Text
import FormattedOutput.Directive

/-!
# What a directive makes of its argument

A directive and its argument determine what is written, or that the two do not fit: one byte, a
value in a field, or nothing but the count of what was written so far.
-/

namespace FormattedOutput

/-- What is done for one directive. -/
inductive Rendering where
  /-- One byte is written, without a field. -/
  | byte (byte : UInt8)
  /-- A value is written in a field. -/
  | field (value : Bytes) (width : Int) (pad : Pad)
  /-- The length written so far is stored in the slot. -/
  | count
  deriving DecidableEq, Repr

namespace Directive

/-- The numeral of an integer argument in the word that the directive asks for. -/
def integerText? (directive : Directive) (arg : Arg) : Option Bytes :=
  match directive.conversion, directive.long with
  | .signed, true => arg.toInt64?.map fun word => Numeral.ofInt word.toInt
  | .signed, false => arg.toInt32?.map fun word => Numeral.ofInt word.toInt
  | .lowerHex, true => arg.toUInt64?.map fun word => Numeral.ofNat .lowerHex word.toNat
  | .lowerHex, false => arg.toUInt32?.map fun word => Numeral.ofNat .lowerHex word.toNat
  | .upperHex, true => arg.toUInt64?.map fun word => Numeral.ofNat .upperHex word.toNat
  | .upperHex, false => arg.toUInt32?.map fun word => Numeral.ofNat .upperHex word.toNat
  | _, true => arg.toUInt64?.map fun word => Numeral.ofNat .decimal word.toNat
  | _, false => arg.toUInt32?.map fun word => Numeral.ofNat .decimal word.toNat

/-- What a directive that takes an argument makes of it; nothing if the two do not fit. A string
    ends at its first NUL and is never filled with zeros. -/
def render? (directive : Directive) (arg : Arg) : Option Rendering :=
  match directive.conversion, arg with
  | .percent, _ => none
  | .char, arg => arg.toByte?.map .byte
  | .count, .count _ => some .count
  | .count, _ => none
  | .str, .str bytes => some (.field bytes.untilNul directive.width .space)
  | .str, _ => none
  | .float, .float value => some (.field value.text directive.width directive.pad)
  | .float, _ => none
  | _, arg => (directive.integerText? arg).map (.field · directive.width directive.pad)

end Directive

end FormattedOutput
