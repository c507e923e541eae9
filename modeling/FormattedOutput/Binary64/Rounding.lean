import FormattedOutput.Binary64.Basic

/-!
# Rounding to binary64

The magnitudes that binary64 can hold are the numbers of quanta with at most 53 significant bits.
An arithmetic result that is a quotient of natural numbers of quanta is rounded to the nearest of
them, and a tie goes to the one whose last significant bit is zero. `nearest_lt_self` says that a
division by ten makes a magnitude smaller.
-/

namespace FormattedOutput.Binary64

/-- The integer nearest to `num / den`; a tie goes to the even neighbour. -/
def divToEven (num den : Nat) : Nat :=
  let below := num / den
  let twice := 2 * (num % den)
  if twice < den ∨ twice = den ∧ below % 2 = 0 then below else below + 1

/-- The binary64 magnitude nearest to `num / den` quanta: the quotient is cut to 53 significant
    bits and rounded at the last of them. -/
def nearest (num den : Nat) : Nat :=
  let scale := Nat.pow 2 ((num / den).log2 - 52)
  divToEven num (den * scale) * scale

/-- The binary64 magnitude nearest to a natural number. -/
def ofNat (n : Nat) : Nat := nearest (n * one) 1

/-- The integer part of a magnitude as a 64-bit word; a magnitude out of range gives the largest
    word. -/
def toWord (magnitude : Nat) : Nat := min (magnitude / one) (UInt64.size - 1)

theorem divToEven_le (num den : Nat) : divToEven num den ≤ num / den + 1 := by
  simp only [divToEven]
  split <;> omega

theorem pow_log2_sub_le {n : Nat} (h : n ≠ 0) (k : Nat) : Nat.pow 2 (n.log2 - k) ≤ n :=
  Nat.le_trans (Nat.pow_le_pow_right (by decide) (Nat.sub_le _ _)) (Nat.log2_self_le h)

/-- Rounding a quotient that is not below one at most doubles it. -/
theorem nearest_le_two_mul (num den : Nat) (h : num / den ≠ 0) :
    nearest num den ≤ 2 * (num / den) := by
  simp only [nearest]
  generalize hs : Nat.pow 2 ((num / den).log2 - 52) = scale
  have hscale : scale ≤ num / den := hs ▸ pow_log2_sub_le h 52
  calc divToEven num (den * scale) * scale
      ≤ (num / (den * scale) + 1) * scale := Nat.mul_le_mul_right _ (divToEven_le _ _)
    _ = num / den / scale * scale + scale := by
      rw [Nat.add_mul, Nat.one_mul, Nat.div_div_eq_div_mul]
    _ ≤ num / den + num / den := Nat.add_le_add (Nat.div_mul_le_self _ _) hscale
    _ = 2 * (num / den) := by omega

theorem nearest_lt_self {magnitude : Nat} (h : 10 ≤ magnitude) :
    nearest magnitude 10 < magnitude := by
  have := nearest_le_two_mul magnitude 10 (by omega)
  omega

end FormattedOutput.Binary64
