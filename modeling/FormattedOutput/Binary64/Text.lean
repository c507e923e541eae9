import FormattedOutput.Binary64.Rounding
import FormattedOutput.Numeral

/-!
# The text of a binary64 value

A magnitude below `2 ^ 64` is written in fixed point with six decimals. A larger one is divided by
ten until one digit stands before the point, and the number of divisions follows as an exponent.
All steps are binary64 arithmetic, each rounded to nearest even, so the text is that of the
arithmetic and not of the exact value.
-/

namespace FormattedOutput.Binary64

/-- How many decimals are written. -/
def fractionDigits : Nat := 6

/-- The number of fractions that the decimals can tell apart. -/
def fractionScale : Nat := Nat.pow 10 fractionDigits

/-- An integer part, and a fraction in millionths. -/
structure Decimal where
  whole : Nat
  fraction : Nat
  deriving DecidableEq, Repr

/-- The integer part of a magnitude and its fraction in millionths. The fraction is scaled, one
    half is added, and the sum is cut to an integer; a fraction of a whole million is carried. -/
def split (magnitude : Nat) : Decimal :=
  let whole := toWord magnitude
  let fraction := nearest (magnitude - ofNat whole) 1
  let scaled := nearest (fraction * fractionScale) 1
  let rounded := toWord (nearest (scaled + half) 1)
  if fractionScale ≤ rounded then ⟨min (whole + 1) (UInt64.size - 1), rounded - fractionScale⟩
  else ⟨whole, rounded⟩

/-- A magnitude divided by ten until it is below ten, and the number of divisions added to
    `exponent`. -/
def normalize (magnitude exponent : Nat) : Nat × Nat :=
  if magnitude < 10 * one then (magnitude, exponent)
  else normalize (nearest magnitude 10) (exponent + 1)
termination_by magnitude
decreasing_by
  have := one_pos
  exact nearest_lt_self (by omega)

/-- The one digit before the point with the millionths, and the exponent, of a large magnitude. A
    leading digit that was rounded up to ten becomes one, and the exponent grows. -/
def scientific (magnitude : Nat) : Decimal × Nat :=
  let normal := normalize magnitude 0
  let decimal := split normal.1
  if decimal.whole = 10 then (⟨1, decimal.fraction⟩, normal.2 + 1) else (decimal, normal.2)

/-- An integer part, the point and the decimals. -/
def fixedText (decimal : Decimal) : Bytes :=
  Numeral.ofNat .decimal decimal.whole
    ++ '.'.toUInt8 :: Numeral.lastDigits fractionDigits decimal.fraction

/-- The text of a finite magnitude. -/
def magnitudeText (magnitude : Nat) : Bytes :=
  if magnitude < UInt64.size * one then fixedText (split magnitude)
  else
    fixedText (scientific magnitude).1 ++ Bytes.ofString "e+"
      ++ Numeral.ofNat .decimal (scientific magnitude).2

/-- The text of a value. A set sign bit gives a minus sign, also on zero and infinity; a value that
    is not a number has no sign. -/
def text (x : Binary64) : Bytes :=
  if x.isNaN then Bytes.ofString "nan"
  else
    let unsigned := if x.isInfinite then Bytes.ofString "inf" else magnitudeText x.quanta
    if x.isNegative then '-'.toUInt8 :: unsigned else unsigned

end FormattedOutput.Binary64
