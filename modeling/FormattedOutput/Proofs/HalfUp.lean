import FormattedOutput.Proofs.FloatRendering
import Mathlib.Algebra.Order.Floor.Semifield
import Mathlib.Data.Rat.Floor
import Mathlib.Tactic.FieldSimp
import Mathlib.Tactic.Linarith
import Mathlib.Tactic.NormNum

/-!
# Ties between millionths

The millionths of a fraction come from a product and a sum that are each rounded to binary64, and a
cut. Away from the ties this is rounding half up. Close below a tie the product can be rounded to
the tie itself, or the sum to the next integer, and then the tie is taken for reached. How close is
exact here: less than three units of `2 ^ -55` below the first tie, and at most one unit of the last
place of the product below any other.
-/

namespace FormattedOutput

namespace Numeral

variable {radix : Radix}

theorem value_append (front back : Bytes) :
    value radix (front ++ back) =
      value radix front * radix.base ^ back.length + value radix back := by
  induction back using List.reverseRecOn with
  | nil => simp [value]
  | append_singleton back digit ih =>
    rw [← List.append_assoc, value_append_singleton, value_append_singleton, ih,
      List.length_append, List.length_singleton]
    ring

/-- What a text denotes as a decimal number: the digits in front of the point and behind it. -/
def decimalValue (text : Bytes) : ℚ :=
  let whole := text.takeWhile (· ≠ '.'.toUInt8)
  let decimals := (text.dropWhile (· ≠ '.'.toUInt8)).tail
  value .decimal (whole ++ decimals) / 10 ^ decimals.length

theorem decimalValue_append {whole : Bytes} (digits : ∀ digit ∈ whole, digit ∈ Radix.decimal.digits)
    (decimals : Bytes) :
    decimalValue (whole ++ '.'.toUInt8 :: decimals) =
      (value .decimal whole * 10 ^ decimals.length + value .decimal decimals : ℕ)
        / 10 ^ decimals.length := by
  have point : ∀ digit ∈ whole, decide (digit ≠ '.'.toUInt8) = true := by
    have none : '.'.toUInt8 ∉ Radix.decimal.digits := by decide +kernel
    intro digit member
    rw [decide_eq_true_iff]
    rintro rfl
    exact none (digits _ member)
  have front : (whole ++ '.'.toUInt8 :: decimals).takeWhile (· ≠ '.'.toUInt8) = whole := by
    rw [List.takeWhile_append_of_pos point]
    simp
  have back : (whole ++ '.'.toUInt8 :: decimals).dropWhile (· ≠ '.'.toUInt8) =
      '.'.toUInt8 :: decimals := by
    rw [List.dropWhile_append_of_pos point]
    simp
  rw [decimalValue, front, back, List.tail_cons, value_append]
  rfl

end Numeral

namespace Binary64

variable {magnitude fraction product count : Nat}

attribute [local irreducible] one half

theorem half_lt_one : half < one := by
  have positive := half_pos
  rw [one_eq_two_mul_half]
  omega

theorem exists_half_eq_mul_pow {shift : Nat} (small : shift < quantumExponent) :
    ∃ e, half = 2 ^ shift * 2 ^ e := by
  refine ⟨quantumExponent - 1 - shift, ?_⟩
  rw [half_eq_pow, ← Nat.pow_add]
  congr 1
  omega

/-- The sum that is cut to an integer, for a product before its rounding. -/
def roundedSum (product : Nat) : Nat := nearest (nearest product 1 + half) 1

theorem mul_one_le_roundedSum (small : count < 2 ^ 51) (above : count * one ≤ product + half) :
    count * one ≤ roundedSum product := by
  apply le_nearest Nat.one_pos (representable_mul_one (by omega))
  rw [Nat.mul_one]
  cases count with
  | zero => omega
  | succ before =>
    have tie : (before + 1) * one = (2 * before + 1) * half + half := by
      rw [one_eq_two_mul_half]
      ring
    have product_le : (2 * before + 1) * half ≤ nearest product 1 := by
      apply le_nearest Nat.one_pos (representable_mul_half (by omega))
      omega
    omega

theorem roundedSum_le (small : count < 2 ^ 51) (below : product ≤ (2 * count + 1) * half) :
    roundedSum product ≤ (count + 1) * one := by
  have tie : (count + 1) * one = (2 * count + 1) * half + half := by
    rw [one_eq_two_mul_half]
    ring
  have product_le : nearest product 1 ≤ (2 * count + 1) * half := by
    apply nearest_le Nat.one_pos (representable_mul_half (by omega))
    omega
  apply nearest_le Nat.one_pos (representable_mul_one (by omega))
  omega

/-- Below the first tie the product keeps more bits than the sum, so there are two roundings in
    which it can be carried over the tie. -/
theorem one_le_roundedSum_iff :
    one ≤ roundedSum product ↔ 2 ^ 54 * half < 2 ^ 54 * product + 3 * half := by
  obtain ⟨e, unit⟩ := exists_half_eq_mul_pow (by decide : 53 < quantumExponent)
  obtain ⟨n, all⟩ : ∃ n, n + 2 = 2 ^ 53 := ⟨2 ^ 53 - 2, rfl⟩
  have whole : one = (n + 1 + 1) * 2 ^ (e + 1) := by
    rw [one_eq_two_mul_half, unit, ← all]
    ring
  have sum : one ≤ roundedSum product ↔ (n + 1) * 2 ^ e ≤ nearest product 1 := by
    rw [whole, roundedSum, succ_mul_pow_le_nearest_iff Nat.one_pos (by omega) (by omega), unit,
      ← all]
    have odd : (n + 1) % 2 = 1 := by omega
    have middle : (2 * (n + 1) + 1) * (1 * 2 ^ (e + 1)) =
        2 * ((n + 1) * 2 ^ e + (n + 2) * 2 ^ e) := by
      ring
    rw [middle]
    generalize (n + 1) * 2 ^ e = below
    omega
  have twice : 2 * 2 ^ 53 = 2 * n + 4 := by omega
  have left : 2 ^ 54 * half = 2 ^ 53 * ((2 * n + 1) * (1 * 2 ^ e) + 3 * 2 ^ e) := by
    calc 2 ^ 54 * half = 2 ^ 53 * (2 * 2 ^ 53 * 2 ^ e) := by
          rw [unit]
          ring
      _ = 2 ^ 53 * ((2 * n + 1) * (1 * 2 ^ e) + 3 * 2 ^ e) := by
          rw [twice]
          ring
  have right : 2 ^ 54 * product + 3 * half = 2 ^ 53 * (2 * product + 3 * 2 ^ e) := by
    rw [unit]
    ring
  have even : n % 2 = 0 := by omega
  rw [sum, succ_mul_pow_le_nearest_iff Nat.one_pos (by omega) (by omega), left, right,
    Nat.mul_lt_mul_left (by decide), Nat.add_lt_add_iff_right, even]
  simp only [Nat.zero_ne_one, and_false, or_false]

/-- One half in units of the last place of a product whose integer part is `count`. -/
theorem exists_half_eq_of_log2 (positive : 0 < count) (small : count < 2 ^ 50) :
    ∃ p e, 2 ^ count.log2 * p = 2 ^ 50 ∧ half = 2 * p * 2 ^ e := by
  have bits : count.log2 < 50 := (Nat.log2_lt positive.ne').mpr small
  obtain ⟨e, unit⟩ := exists_half_eq_mul_pow
    (Nat.lt_of_le_of_lt (Nat.sub_le 51 count.log2) (by decide))
  refine ⟨2 ^ (50 - count.log2), e, ?_, ?_⟩
  · rw [← Nat.pow_add, Nat.add_sub_cancel' bits.le]
  · rw [unit, ← Nat.pow_succ', Nat.succ_sub bits.le]

/-- The tie behind an integer needs all the bits of a significand, and so does the next integer. -/
theorem tie_mem {leading p : Nat} (lower : leading ≤ count) (upper : count < 2 * leading)
    (spread : leading * p = 2 ^ 50) :
    2 ^ 52 < (2 * count + 1) * (2 * p) ∧ (2 * count + 1 + 1) * (2 * p) ≤ 2 ^ 53 := by
  have nonzero : 0 < p := by
    rw [Nat.pos_iff_ne_zero]
    rintro rfl
    omega
  constructor
  · calc 2 ^ 52 < (2 * leading + 1) * (2 * p) := by
          have : (2 * leading + 1) * (2 * p) = 4 * (leading * p) + 2 * p := by ring
          omega
      _ ≤ (2 * count + 1) * (2 * p) := Nat.mul_le_mul_right _ (by omega)
  · calc (2 * count + 1 + 1) * (2 * p) ≤ 4 * leading * (2 * p) :=
          Nat.mul_le_mul_right _ (by omega)
      _ = 8 * (leading * p) := by ring
      _ ≤ 2 ^ 53 := by omega

/-- The sum reaches the next integer only if the product was rounded to the tie: the sum is in
    larger units than the product, but a product short of the tie is short of it by such a unit. -/
theorem next_le_roundedSum_iff {n p e : Nat} (full : 2 ^ 52 ≤ n) (most : n + 1 + 2 * p ≤ 2 ^ 53)
    (unit : half = 2 * p * 2 ^ e) :
    (n + 1 + 2 * p) * 2 ^ e ≤ roundedSum product ↔ (n + 1) * 2 ^ e ≤ nearest product 1 := by
  constructor
  · intro reached
    by_contra short
    have kept : nearest product 1 ≤ n * 2 ^ e :=
      (nearest_representable _ Nat.one_pos).le_mul_pow (Or.inl full) (Nat.lt_of_not_le short)
    have less : roundedSum product ≤ (n + 2 * p) * 2 ^ e := by
      apply nearest_le Nat.one_pos (representable_mul_pow (by omega) e)
      rw [Nat.mul_one, unit, Nat.add_mul]
      exact Nat.add_le_add_right kept _
    have apart : (n + 2 * p) * 2 ^ e < (n + 1 + 2 * p) * 2 ^ e :=
      Nat.mul_lt_mul_of_pos_right (by omega) (Nat.two_pow_pos e)
    exact absurd (Nat.le_trans reached less) (Nat.not_le_of_lt apart)
  · intro rounded
    apply le_nearest Nat.one_pos (representable_mul_pow_of_le most e)
    rw [Nat.mul_one, unit, Nat.add_mul]
    exact Nat.add_le_add_right rounded _

/-- Below any other tie the sum is rounded up only if the product was. -/
theorem succ_mul_one_le_roundedSum_iff (positive : 0 < count) (small : count < 2 ^ 50) :
    (count + 1) * one ≤ roundedSum product ↔
      2 ^ 52 * ((2 * count + 1) * half) ≤ 2 ^ 52 * product + 2 ^ count.log2 * half := by
  obtain ⟨p, e, spread, unit⟩ := exists_half_eq_of_log2 positive small
  have upper : count < 2 * 2 ^ count.log2 := by
    rw [← Nat.pow_succ']
    exact Nat.lt_log2_self
  obtain ⟨least, most⟩ := tie_mem (Nat.log2_self_le positive.ne') upper spread
  obtain ⟨n, tie⟩ : ∃ n, n + 1 = (2 * count + 1) * (2 * p) := ⟨_, Nat.sub_add_cancel (by omega)⟩
  have odd : n % 2 = 1 := by
    have even : (2 * count + 1) * (2 * p) = 2 * ((2 * count + 1) * p) := by ring
    omega
  rw [Nat.add_mul, Nat.one_mul, ← tie] at most
  have next : (count + 1) * one = (n + 1 + 2 * p) * 2 ^ e := by
    rw [tie, one_eq_two_mul_half, unit]
    ring
  have middle : 2 ^ 52 * ((2 * count + 1) * half) =
      2 ^ 51 * ((2 * n + 1) * (1 * 2 ^ e)) + 2 ^ 51 * 2 ^ e := by
    calc 2 ^ 52 * ((2 * count + 1) * half) = 2 ^ 52 * ((2 * count + 1) * (2 * p) * 2 ^ e) := by
          rw [unit]
          ring
      _ = 2 ^ 51 * ((2 * n + 1) * (1 * 2 ^ e)) + 2 ^ 51 * 2 ^ e := by
          rw [← tie]
          ring
  have quarter : 2 ^ count.log2 * half = 2 ^ 51 * 2 ^ e := by
    calc 2 ^ count.log2 * half = 2 ^ count.log2 * p * (2 * 2 ^ e) := by
          rw [unit]
          ring
      _ = 2 ^ 51 * 2 ^ e := by
          rw [spread]
          ring
  have twice : 2 ^ 52 * product = 2 ^ 51 * (2 * product) := by ring
  rw [next, next_le_roundedSum_iff (by omega) most unit,
    succ_mul_pow_le_nearest_iff Nat.one_pos (by omega) (Or.inl (by omega)), middle, quarter, twice,
    Nat.add_le_add_iff_right, Nat.mul_le_mul_left_iff (by decide), Nat.le_iff_lt_or_eq]
  simp only [odd, and_true]

/-- A product is so close below the tie behind `count` that it is rounded to `count + 1`. -/
def Overshoots (count product : Nat) : Prop :=
  if count = 0 then 2 ^ 54 * half < 2 ^ 54 * product + 3 * half
  else 2 ^ 52 * ((2 * count + 1) * half) ≤ 2 ^ 52 * product + 2 ^ count.log2 * half

theorem succ_le_roundedSum_iff (small : count < 2 ^ 50) :
    (count + 1) * one ≤ roundedSum product ↔ Overshoots count product := by
  rw [Overshoots]
  split
  next none => rw [none, Nat.zero_add, Nat.one_mul, one_le_roundedSum_iff]
  next some => exact succ_mul_one_le_roundedSum_iff (Nat.pos_of_ne_zero some) small

/-- The millionths of a fraction are those of the exact product rounded half up, unless the product
    overshoots. -/
theorem millionths_eq (proper : fraction < one)
    (exact : (fraction * fractionScale + half) / one = count) :
    (¬ Overshoots count (fraction * fractionScale) → millionths fraction = count) ∧
      (Overshoots count (fraction * fractionScale) → millionths fraction = count + 1) := by
  have product_lt : fraction * fractionScale < fractionScale * one := by
    rw [Nat.mul_comm]
    exact Nat.mul_lt_mul_of_pos_left proper (by decide)
  have quotient : count * one ≤ fraction * fractionScale + half := by
    rw [← exact]
    exact Nat.div_mul_le_self _ _
  have rest : fraction * fractionScale + half < (count + 1) * one := by
    rw [← Nat.div_lt_iff_lt_mul one_pos, exact]
    exact Nat.lt_succ_self count
  have tie : (count + 1) * one = (2 * count + 1) * half + half := by
    rw [one_eq_two_mul_half]
    ring
  have small : count < 2 ^ 50 := by
    have order : count < fractionScale + 1 := by
      apply Nat.lt_of_mul_lt_mul_right (a := one)
      rw [Nat.add_mul, Nat.one_mul]
      exact Nat.lt_of_le_of_lt quotient (Nat.add_lt_add product_lt half_lt_one)
    exact Nat.lt_of_lt_of_le order (by decide)
  have lower := mul_one_le_roundedSum (by omega) quotient
  have upper := roundedSum_le (by omega)
    (Nat.le_of_lt (Nat.lt_of_add_lt_add_right (tie ▸ rest)))
  rw [← succ_le_roundedSum_iff small]
  constructor
  · intro short
    exact Nat.div_eq_of_lt_le lower (Nat.lt_of_not_le short)
  · intro reached
    rw [millionths, ← roundedSum, Nat.le_antisymm upper reached, Nat.mul_div_cancel _ one_pos]

/-- Both parts of a split magnitude together: the carry is not lost, as only a magnitude with a
    small integer part has a fraction. -/
theorem whole_mul_add_fraction (held : Representable magnitude)
    (below : magnitude < UInt64.size * one) :
    (split magnitude).whole * fractionScale + (split magnitude).fraction =
      magnitude / one * fractionScale + millionths (magnitude % one) := by
  rw [split_eq held below]
  split
  next carry =>
    obtain ⟨-, -, none | short⟩ := held.parts
    · have zero : millionths 0 = 0 := by
        rw [millionths, Nat.zero_mul, nearest_eq_self representable_zero, Nat.zero_add,
          ← Nat.one_mul half, nearest_eq_self (representable_mul_half (by decide)), Nat.one_mul]
        exact Nat.div_eq_of_lt half_lt_one
      rw [none, zero] at carry
      exact absurd carry (by decide)
    · have word : 2 ^ 53 < UInt64.size := by decide
      have whole : min (magnitude / one + 1) (UInt64.size - 1) = magnitude / one + 1 :=
        Nat.min_eq_left (by omega)
      simp only [whole]
      rw [Nat.add_mul, Nat.one_mul, Nat.add_assoc, Nat.add_sub_cancel' carry]
  next => rfl

theorem decimalValue_fixedText {decimal : Decimal} (proper : decimal.fraction < fractionScale) :
    Numeral.decimalValue (fixedText decimal) =
      (decimal.whole * fractionScale + decimal.fraction : ℕ) / (10 ^ 6 : ℚ) := by
  have canonical := Numeral.canonical_ofNat .decimal decimal.whole
  have scale : 10 ^ fractionDigits = fractionScale := rfl
  rw [fixedText, Numeral.decimalValue_append canonical.digits, canonical.spells,
    Numeral.value_lastDigits, Numeral.length_lastDigits, scale, Nat.mod_eq_of_lt proper]
  rfl

/-- The exact magnitude of a finite value. -/
def exactMagnitude (x : Binary64) : ℚ := x.quanta / one

/-- A magnitude rounded to millionths, half up. -/
def halfUp (q : ℚ) : ℚ := (⌊q * 10 ^ 6 + 1 / 2⌋ : ℤ) / (10 ^ 6 : ℚ)

/-- A magnitude is so close below a tie between two millionths that it is rounded up: it has less
    than one half of a millionth behind the point and is below the first tie by less than three
    units of `2 ^ -55` millionths, or it is below another tie by at most one unit of the last of the
    53 bits that its millionths have. -/
def CrossesTie (q : ℚ) : Prop :=
  let scaled : ℚ := Int.fract q * 10 ^ 6
  let rounded : ℕ := ⌊scaled + 1 / 2⌋₊
  let gap : ℚ := rounded + 1 / 2 - scaled
  if rounded = 0 then gap < 3 / 2 ^ 55 else gap ≤ 2 ^ rounded.log2 / 2 ^ 53

section Scaled

-- what is said of quanta here holds of any even number of units, and is proved without its size
variable {unit middle : Nat} (double : unit = 2 * middle) (positive : 0 < middle)

theorem div_mul_scale (n unit : Nat) :
    (n : ℚ) / unit * 10 ^ 6 = (n * fractionScale : ℕ) / unit := by
  have scale : fractionScale = 10 ^ 6 := rfl
  rw [scale]
  push_cast
  ring

theorem div_lt_word_iff (n : Nat) (some : 0 < unit) :
    (n : ℚ) / unit < 2 ^ 64 ↔ n < UInt64.size * unit := by
  have size : UInt64.size = 2 ^ 64 := rfl
  rw [div_lt_iff₀ (Nat.cast_pos.mpr some), size, ← @Nat.cast_lt ℚ]
  push_cast
  rfl

include double positive

theorem div_add_half (n : Nat) : (n : ℚ) / unit + 1 / 2 = (n + middle : ℕ) / unit := by
  have nonzero : (middle : ℚ) ≠ 0 := Nat.cast_ne_zero.mpr positive.ne'
  rw [double]
  push_cast
  field_simp

theorem add_half_sub_div (count product : Nat) :
    (count : ℚ) + 1 / 2 - product / unit = ((2 * count + 1) * middle - product) / (2 * middle) := by
  have nonzero : (middle : ℚ) ≠ 0 := Nat.cast_ne_zero.mpr positive.ne'
  rw [double]
  push_cast
  field_simp

theorem halfUp_div (n : Nat) :
    halfUp ((n : ℚ) / unit) = ((n * fractionScale + middle) / unit : ℕ) / (10 ^ 6 : ℚ) := by
  rw [halfUp, div_mul_scale, div_add_half double positive, Rat.floor_natCast_div_natCast,
    ← Int.natCast_ediv, Int.cast_natCast]

theorem crossesTie_div_iff (n : Nat) :
    CrossesTie ((n : ℚ) / unit) ↔
      if (n % unit * fractionScale + middle) / unit = 0 then
        2 ^ 54 * middle < 2 ^ 54 * (n % unit * fractionScale) + 3 * middle
      else
        2 ^ 52 * ((2 * ((n % unit * fractionScale + middle) / unit) + 1) * middle) ≤
          2 ^ 52 * (n % unit * fractionScale) +
            2 ^ ((n % unit * fractionScale + middle) / unit).log2 * middle := by
  have above : (0 : ℚ) < 2 * middle := by
    have : (0 : ℚ) < middle := Nat.cast_pos.mpr positive
    linarith
  simp only [CrossesTie]
  rw [Int.fract_div_natCast_eq_div_natCast_mod, div_mul_scale, div_add_half double positive,
    Nat.floor_div_eq_div, add_half_sub_div double positive]
  generalize (n % unit * fractionScale + middle) / unit = count
  generalize n % unit * fractionScale = product
  split
  next none =>
    subst none
    rw [div_lt_iff₀ above, ← @Nat.cast_lt ℚ]
    push_cast
    constructor <;> intro h <;> linarith
  next =>
    rw [div_le_iff₀ above, ← @Nat.cast_le ℚ]
    push_cast
    constructor <;> intro h <;> linarith

end Scaled

theorem crossesTie_iff (x : Binary64) :
    CrossesTie x.exactMagnitude ↔ Overshoots ((x.quanta % one * fractionScale + half) / one)
      (x.quanta % one * fractionScale) := by
  rw [exactMagnitude, crossesTie_div_iff one_eq_two_mul_half half_pos, Overshoots]

/-- The integer part of a magnitude has no influence on its millionths. -/
theorem scaled_add_half_div_one (magnitude : Nat) :
    (magnitude * fractionScale + half) / one =
      magnitude / one * fractionScale + (magnitude % one * fractionScale + half) / one := by
  have parts : magnitude * fractionScale =
      one * (magnitude / one * fractionScale) + magnitude % one * fractionScale := by
    rw [← Nat.mul_assoc, ← Nat.add_mul, Nat.div_add_mod]
  rw [parts, Nat.add_assoc, Nat.mul_add_div one_pos]

/-- Without its sign the text of a magnitude below `2 ^ 64` is the magnitude in fixed point. -/
theorem snd_takeOptional_text {x : Binary64} (finite : x.exponentField + 1 ≠ exponentCount)
    (small : x.quanta < UInt64.size * one) :
    (takeOptional '-'.toUInt8 x.text).2 = fixedText (split x.quanta) := by
  have number : x.isNaN = false := by simp [isNaN, finite]
  have unsigned : x.unsignedText = fixedText (split x.quanta) := by
    rw [unsignedText, magnitudeText_of_lt small, if_neg]
    simp [isInfinite, finite]
  rw [text_of_number number, unsigned]
  cases x.isNegative with
  | true => rfl
  | false =>
    generalize split x.quanta = decimal
    have canonical := Numeral.canonical_ofNat .decimal decimal.whole
    obtain ⟨digit, rest, digits⟩ := List.exists_cons_of_ne_nil canonical.nonempty
    have other : digit ≠ '-'.toUInt8 := by
      rintro rfl
      exact Numeral.minus_notMem_digits _ (canonical.digits _ (by simp [digits]))
    rw [if_neg Bool.false_ne_true, fixedText, digits, List.cons_append, takeOptional, if_neg other]

/-- A magnitude below `2 ^ 64` is rounded half up to millionths, unless it is so close below a tie
    that the arithmetic takes it across; then it is rounded up. -/
theorem decimalValue_text {x : Binary64} (finite : x.exponentField + 1 ≠ exponentCount)
    (small : x.exactMagnitude < 2 ^ 64) :
    (¬ CrossesTie x.exactMagnitude → Numeral.decimalValue (takeOptional '-'.toUInt8 x.text).2 =
        halfUp x.exactMagnitude) ∧
      (CrossesTie x.exactMagnitude → Numeral.decimalValue (takeOptional '-'.toUInt8 x.text).2 =
        halfUp x.exactMagnitude + 1 / 10 ^ 6) := by
  have held := x.quanta_representable
  have below : x.quanta < UInt64.size * one := (div_lt_word_iff x.quanta one_pos).mp small
  obtain ⟨away, across⟩ := millionths_eq (Nat.mod_lt x.quanta one_pos) rfl
  rw [snd_takeOptional_text finite below, decimalValue_fixedText (fraction_split_lt held below),
    whole_mul_add_fraction held below, crossesTie_iff, exactMagnitude,
    halfUp_div one_eq_two_mul_half half_pos, scaled_add_half_div_one x.quanta]
  constructor
  · intro apart
    rw [away apart]
  · intro close
    rw [across close, ← Nat.add_assoc, Nat.cast_succ, add_div]

end Binary64

namespace Scratch

/-- Finite values below `2 ^ 64` in magnitude are rounded half up except close below a tie. Into any
    work area such a value is rendered as one text, which without its sign denotes the exact
    magnitude rounded half up to millionths. A magnitude that is too close to the tie above is
    rounded up, so it denotes one millionth more. -/
theorem fixed_point_half_up_off_ties (x : Binary64)
    (finite : x.exponentField + 1 ≠ Binary64.exponentCount) (small : x.exactMagnitude < 2 ^ 64) :
    ∃ text, (∀ bytes, ((ofBytes bytes).ofBinary64? x).map Scratch.text = some text) ∧
      (¬ Binary64.CrossesTie x.exactMagnitude →
        Numeral.decimalValue (takeOptional '-'.toUInt8 text).2 =
          Binary64.halfUp x.exactMagnitude) ∧
      (Binary64.CrossesTie x.exactMagnitude →
        Numeral.decimalValue (takeOptional '-'.toUInt8 text).2 =
          Binary64.halfUp x.exactMagnitude + 1 / 10 ^ 6) :=
  ⟨x.text, fun bytes => map_text_ofBinary64? bytes x, Binary64.decimalValue_text finite small⟩

/-- The largest value below 0.0000005 is taken across the first tie. -/
theorem fixed_point_half_up_off_ties_first :
    ((⟨0x3ea0c6f7a0b5ed8d⟩ : Binary64).exponentField + 1 ≠ Binary64.exponentCount ∧
      (⟨0x3ea0c6f7a0b5ed8d⟩ : Binary64).exactMagnitude < 2 ^ 64 ∧
      Binary64.CrossesTie (⟨0x3ea0c6f7a0b5ed8d⟩ : Binary64).exactMagnitude) ∧
    ∃ text,
      (∀ bytes, ((ofBytes bytes).ofBinary64? ⟨0x3ea0c6f7a0b5ed8d⟩).map Scratch.text = some text) ∧
      Numeral.decimalValue (takeOptional '-'.toUInt8 text).2 =
        Binary64.halfUp (⟨0x3ea0c6f7a0b5ed8d⟩ : Binary64).exactMagnitude + 1 / 10 ^ 6 := by
  have finite : (⟨0x3ea0c6f7a0b5ed8d⟩ : Binary64).exponentField + 1 ≠ Binary64.exponentCount := by
    decide
  have small : (⟨0x3ea0c6f7a0b5ed8d⟩ : Binary64).exactMagnitude < 2 ^ 64 :=
    (Binary64.div_lt_word_iff _ Binary64.one_pos).mpr (by decide +kernel)
  have close : Binary64.CrossesTie (⟨0x3ea0c6f7a0b5ed8d⟩ : Binary64).exactMagnitude := by
    rw [Binary64.crossesTie_iff, Binary64.Overshoots]
    decide +kernel
  obtain ⟨text, rendered, -, across⟩ :=
    fixed_point_half_up_off_ties ⟨0x3ea0c6f7a0b5ed8d⟩ finite small
  exact ⟨⟨finite, small, close⟩, text, rendered, across close⟩

/-- The same value denotes less than half of a millionth, but its text is that of one millionth. -/
theorem fixed_point_not_half_up :
    ((⟨0x3ea0c6f7a0b5ed8d⟩ : Binary64).exponentField + 1 ≠ Binary64.exponentCount ∧
      (⟨0x3ea0c6f7a0b5ed8d⟩ : Binary64).exactMagnitude < 2 ^ 64) ∧
    (∀ bytes, ((ofBytes bytes).ofBinary64? ⟨0x3ea0c6f7a0b5ed8d⟩).map Scratch.text =
      some (Bytes.ofString "0.000001")) ∧
    Numeral.decimalValue (takeOptional '-'.toUInt8 (Bytes.ofString "0.000001")).2 ≠
      Binary64.halfUp (⟨0x3ea0c6f7a0b5ed8d⟩ : Binary64).exactMagnitude := by
  have small : (⟨0x3ea0c6f7a0b5ed8d⟩ : Binary64).quanta < UInt64.size * Binary64.one := by
    decide +kernel
  refine ⟨⟨by decide, (Binary64.div_lt_word_iff _ Binary64.one_pos).mpr small⟩, ?_, ?_⟩
  · intro bytes
    rw [map_text_ofBinary64?, Option.some.injEq]
    decide +kernel
  · have none : ((⟨0x3ea0c6f7a0b5ed8d⟩ : Binary64).quanta * Binary64.fractionScale + Binary64.half)
        / Binary64.one = 0 := by
      decide +kernel
    have millionth : Numeral.decimalValue
        (takeOptional '-'.toUInt8 (Bytes.ofString "0.000001")).2 = 1 / 10 ^ 6 := by
      decide +kernel
    rw [millionth, Binary64.exactMagnitude,
      Binary64.halfUp_div Binary64.one_eq_two_mul_half Binary64.half_pos, none]
    norm_num

end Scratch

end FormattedOutput
