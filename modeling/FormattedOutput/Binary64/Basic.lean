/-!
# Binary64 values

A double-precision value is its 64-bit pattern: a sign bit, an 11-bit exponent field and a 52-bit
fraction field. Every finite magnitude is a whole number of quanta, one quantum being `2 ^ -1074`,
the least positive magnitude; so a finite magnitude is held exactly as a natural number of quanta.
-/

namespace FormattedOutput

/-- A double-precision value, given by its bit pattern. -/
structure Binary64 where
  bits : UInt64
  deriving DecidableEq, Repr

namespace Binary64

/-- The weight of the sign bit in a bit pattern. -/
def signWeight : Nat := 0x8000000000000000

/-- The number of fractions, and the weight of the exponent field in a bit pattern. -/
def fractionCount : Nat := 0x10000000000000

/-- The number of exponents. -/
def exponentCount : Nat := 2048

/-- The sign bit is set; this tells the two zeros apart. -/
def isNegative (x : Binary64) : Bool := signWeight ≤ x.bits.toNat

/-- The 11 bits below the sign. -/
def exponentField (x : Binary64) : Nat := x.bits.toNat / fractionCount % exponentCount

/-- The low 52 bits. -/
def fractionField (x : Binary64) : Nat := x.bits.toNat % fractionCount

/-- All exponent bits set, and a fraction: not a number. -/
def isNaN (x : Binary64) : Bool := x.exponentField + 1 = exponentCount && x.fractionField ≠ 0

/-- All exponent bits set, and no fraction: an infinity. -/
def isInfinite (x : Binary64) : Bool := x.exponentField + 1 = exponentCount && x.fractionField = 0

/-- The magnitude of a finite value in quanta. An exponent field of zero leaves out the leading
    bit; the fields one and zero share one scale. -/
def quanta (x : Binary64) : Nat :=
  if x.exponentField = 0 then x.fractionField
  else (fractionCount + x.fractionField) * Nat.pow 2 (x.exponentField - 1)

/-- One quantum is two to the minus this. -/
def quantumExponent : Nat := 1074

/-- The number one in quanta. -/
def one : Nat := Nat.pow 2 quantumExponent

/-- One half in quanta. -/
def half : Nat := Nat.pow 2 (quantumExponent - 1)

theorem pow_two_pos (n : Nat) : 0 < Nat.pow 2 n := Nat.two_pow_pos n

theorem one_pos : 0 < one := by
  unfold one
  generalize quantumExponent = n
  exact pow_two_pos n

end Binary64

end FormattedOutput
