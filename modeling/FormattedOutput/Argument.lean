import FormattedOutput.Binary64.Basic
import FormattedOutput.Bytes

/-!
# Arguments

A format is applied to a list of typed arguments. Integers of every width and signedness are
accepted by every integer conversion: they are first taken as signed 64-bit words and then reduced
to the word that the directive asks for.
-/

namespace FormattedOutput

/-- One argument. A count slot holds what was last stored in it. -/
inductive Arg where
  | int (value : Int32)
  | uint (value : UInt32)
  | long (value : Int64)
  | ulong (value : UInt64)
  | char (value : UInt8)
  | str (bytes : Bytes)
  | float (value : Binary64)
  | count (slot : Int32)
  deriving DecidableEq, Repr

namespace Arg

/-- The signed 64-bit word of an integer argument: sign-extended if it is signed, zero-extended if
    it is shorter and unsigned, and taken bit by bit if it is an unsigned 64-bit word. -/
def toInt64? : Arg → Option Int64
  | int value => some value.toInt64
  | uint value => some value.toUInt64.toInt64
  | long value => some value
  | ulong value => some value.toInt64
  | char value => some value.toUInt64.toInt64
  | str _ => none
  | float _ => none
  | count _ => none

/-- The low 32 bits as a signed word. -/
def toInt32? (arg : Arg) : Option Int32 := arg.toInt64?.map (·.toInt32)

/-- The 64 bits as an unsigned word. -/
def toUInt64? (arg : Arg) : Option UInt64 := arg.toInt64?.map (·.toUInt64)

/-- The low 32 bits as an unsigned word. -/
def toUInt32? (arg : Arg) : Option UInt32 := arg.toInt64?.map (·.toUInt64.toUInt32)

/-- The low 8 bits. -/
def toByte? (arg : Arg) : Option UInt8 := arg.toInt64?.map (·.toUInt64.toUInt8)

/-- The content of a count slot. -/
def slot? : Arg → Option Int32
  | count slot => some slot
  | _ => none

end Arg

end FormattedOutput
