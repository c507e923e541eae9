import FormattedOutput.Bytes

/-!
# Numerals

Whole numbers as text in base 10 or 16, most significant digit first and without leading zeros,
and the last digits of a number at a fixed length.
-/

namespace FormattedOutput

/-- The base of a numeral and the letter case of its digits from ten on. -/
inductive Radix where
  | decimal
  | lowerHex
  | upperHex
  deriving DecidableEq, Repr

namespace Radix

/-- How many digits there are. -/
def base : Radix → Nat
  | decimal => 10
  | lowerHex => 16
  | upperHex => 16

/-- The letter for the digit ten, where the base has one. -/
def letterForTen : Radix → Char
  | upperHex => 'A'
  | _ => 'a'

/-- The ASCII digit of a value below the base. -/
def digit (radix : Radix) (value : Nat) : UInt8 :=
  if value < 10 then ('0'.toNat + value).toUInt8
  else (radix.letterForTen.toNat + (value - 10)).toUInt8

theorem two_le_base (radix : Radix) : 2 ≤ radix.base := by
  cases radix <;> decide

end Radix

namespace Numeral

/-- The numeral of a natural number, without leading zeros; zero is the single digit `0`. -/
def ofNat (radix : Radix) (n : Nat) : Bytes :=
  if n < radix.base then [radix.digit n]
  else ofNat radix (n / radix.base) ++ [radix.digit (n % radix.base)]
termination_by n
decreasing_by
  have := radix.two_le_base
  exact Nat.div_lt_self (by omega) (by omega)

/-- The decimal numeral of an integer: a minus sign for a negative one, then its magnitude. -/
def ofInt (n : Int) : Bytes :=
  if n < 0 then '-'.toUInt8 :: ofNat .decimal n.natAbs else ofNat .decimal n.natAbs

/-- The last `count` decimal digits of a number, zeros in front where it has fewer. -/
def lastDigits : Nat → Nat → Bytes
  | 0, _ => []
  | count + 1, n => lastDigits count (n / 10) ++ [Radix.decimal.digit (n % 10)]

theorem length_lastDigits (count n : Nat) : (lastDigits count n).length = count := by
  induction count generalizing n with
  | zero => rfl
  | succ count ih => simp [lastDigits, ih]

theorem ofNat_ne_nil (radix : Radix) (n : Nat) : ofNat radix n ≠ [] := by
  rw [ofNat]
  split <;> simp

end Numeral

end FormattedOutput
