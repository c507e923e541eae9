import FormattedOutput.Binary64.Text
import FormattedOutput.Proofs.Rounding
import Mathlib.Logic.Function.Iterate

/-!
# Magnitudes in base ten

A magnitude is split into its integer part and the millionths of what is left, and a large one is
divided by ten before, until one digit is left in front of the point. The millionths are less than a
million once the carry is taken off, and the divisions end in range: with a leading digit from one
to nine, and after at least 19 and at most 308 of them.
-/

namespace FormattedOutput.Binary64

variable {magnitude fraction count exponent : Nat}

theorem one_eq_two_mul_half : one = 2 * half := by decide +kernel

theorem half_pos : 0 < half := by
  have := one_pos
  rw [one_eq_two_mul_half] at this
  omega

theorem one_eq_pow : one = 2 ^ quantumExponent := by
  unfold one
  generalize quantumExponent = exponent
  rfl

theorem half_eq_pow : half = 2 ^ (quantumExponent - 1) := by
  unfold half
  generalize quantumExponent - 1 = exponent
  rfl

theorem two_pow_le_one : 2 ^ 52 ≤ one := by decide +kernel

-- Both are numbers of more than a thousand bits, which nothing behind this line has to look at.
attribute [local irreducible] one half

theorem one_eq_mul_pow (small : exponent ≤ quantumExponent) :
    one = 2 ^ (quantumExponent - exponent) * 2 ^ exponent := by
  rw [one_eq_pow, ← Nat.pow_add, Nat.sub_add_cancel small]

theorem representable_mul_one {n : Nat} (small : n < 2 ^ 53) : Representable (n * one) := by
  rw [one_eq_pow]
  exact representable_mul_pow small quantumExponent

theorem representable_mul_half {n : Nat} (small : n < 2 ^ 53) : Representable (n * half) := by
  rw [half_eq_pow]
  exact representable_mul_pow small (quantumExponent - 1)

theorem quanta_representable (x : Binary64) : Representable x.quanta := by
  have field : x.fractionField < fractionCount := Nat.mod_lt _ (by decide)
  have bits : fractionCount = 2 ^ 52 := rfl
  rw [quanta]
  split
  · exact ⟨x.fractionField, 0, by omega, by simp⟩
  · exact representable_mul_pow (by omega) _

/-- The integer part and the fraction of a magnitude need no more bits than the magnitude, and only
    a magnitude with a small integer part has a fraction. -/
theorem Representable.parts (h : Representable magnitude) :
    Representable (magnitude % one) ∧ Representable (magnitude / one * one) ∧
      (magnitude % one = 0 ∨ magnitude / one < 2 ^ 53) := by
  obtain ⟨significand, exponent, small, rfl⟩ := h
  have positive := Nat.two_pow_pos exponent
  rcases Nat.le_total quantumExponent exponent with coarser | finer
  · obtain ⟨more, rfl⟩ := Nat.exists_eq_add_of_le coarser
    have whole : significand * 2 ^ (quantumExponent + more) = significand * 2 ^ more * one := by
      rw [one_eq_pow, Nat.pow_add]
      ring
    have none : significand * 2 ^ (quantumExponent + more) % one = 0 := by
      rw [whole]
      exact Nat.mul_mod_left _ _
    rw [none, whole, Nat.mul_div_cancel _ one_pos, ← whole]
    exact ⟨representable_zero, representable_mul_pow small _, Or.inl rfl⟩
  · have unit := one_eq_mul_pow finer
    have rest : significand * 2 ^ exponent % one =
        significand % 2 ^ (quantumExponent - exponent) * 2 ^ exponent := by
      rw [unit, Nat.mul_mod_mul_right]
    have quotient : significand * 2 ^ exponent / one =
        significand / 2 ^ (quantumExponent - exponent) := by
      rw [unit, Nat.mul_div_mul_right _ _ positive]
    have below : significand / 2 ^ (quantumExponent - exponent) < 2 ^ 53 :=
      Nat.lt_of_le_of_lt (Nat.div_le_self _ _) small
    rw [rest, quotient]
    exact ⟨representable_mul_pow (Nat.lt_of_le_of_lt (Nat.mod_le _ _) small) _,
      representable_mul_one below, Or.inr below⟩

/-- The millionths that a fraction is rounded to, one million if it is rounded up to one. -/
def millionths (fraction : Nat) : Nat :=
  nearest (nearest (fraction * fractionScale) 1 + half) 1 / one

theorem millionths_le (proper : fraction < one) : millionths fraction ≤ fractionScale := by
  have scaled : nearest (fraction * fractionScale) 1 ≤ fractionScale * one := by
    apply nearest_le Nat.one_pos (representable_mul_one (by decide))
    rw [Nat.mul_one, Nat.mul_comm]
    exact Nat.mul_le_mul_left _ proper.le
  have sum : nearest (nearest (fraction * fractionScale) 1 + half) 1 ≤
      (2 * fractionScale + 1) * half := by
    apply nearest_le Nat.one_pos (representable_mul_half (by decide))
    rw [one_eq_two_mul_half] at scaled
    rw [Nat.mul_one, Nat.add_mul, Nat.one_mul, Nat.mul_comm 2, Nat.mul_assoc]
    exact Nat.add_le_add_right scaled half
  have positive := half_pos
  have next : (fractionScale + 1) * one = (2 * fractionScale + 1) * half + half := by
    rw [one_eq_two_mul_half]
    ring
  have below : millionths fraction < fractionScale + 1 := by
    rw [millionths, Nat.div_lt_iff_lt_mul one_pos]
    omega
  exact Nat.le_of_lt_succ below

theorem toWord_eq_millionths (proper : fraction < one) :
    toWord (nearest (nearest (fraction * fractionScale) 1 + half) 1) = millionths fraction := by
  have small := millionths_le proper
  have scale : fractionScale ≤ UInt64.size - 1 := by decide
  rw [toWord, ← millionths]
  omega

/-- What is split off a magnitude: the subtraction of the integer part is exact, so only the
    millionths are rounded. -/
theorem split_eq (h : Representable magnitude) (below : magnitude < UInt64.size * one) :
    split magnitude =
      if fractionScale ≤ millionths (magnitude % one) then
        ⟨min (magnitude / one + 1) (UInt64.size - 1),
          millionths (magnitude % one) - fractionScale⟩
      else ⟨magnitude / one, millionths (magnitude % one)⟩ := by
  obtain ⟨rest, whole, -⟩ := h.parts
  have fits : magnitude / one < UInt64.size := (Nat.div_lt_iff_lt_mul one_pos).mpr below
  have word : toWord magnitude = magnitude / one := by
    rw [toWord]
    omega
  have exact : magnitude - ofNat (magnitude / one) = magnitude % one := by
    rw [ofNat, nearest_eq_self whole, Nat.mul_comm]
    have := Nat.div_add_mod magnitude one
    omega
  have rounded := toWord_eq_millionths (Nat.mod_lt magnitude one_pos)
  simp only [split, word, exact, nearest_eq_self rest, rounded]

/-- The millionths that are kept after the carry are fewer than a million. -/
theorem fraction_split_lt (h : Representable magnitude) (below : magnitude < UInt64.size * one) :
    (split magnitude).fraction < fractionScale := by
  have small := millionths_le (Nat.mod_lt magnitude one_pos)
  have positive : 0 < fractionScale := by decide
  rw [split_eq h below]
  split
  next => exact Nat.lt_of_le_of_lt (Nat.sub_le_sub_right small _) (by omega)
  next kept => exact Nat.lt_of_not_le kept

theorem whole_split_lt (h : Representable magnitude) (below : magnitude < UInt64.size * one) :
    (split magnitude).whole < UInt64.size := by
  have fits : magnitude / one < UInt64.size := (Nat.div_lt_iff_lt_mul one_pos).mpr below
  have positive : 0 < UInt64.size := by decide
  rw [split_eq h below]
  split
  next => exact Nat.lt_of_le_of_lt (Nat.min_le_right _ _) (Nat.sub_lt positive Nat.one_pos)
  next => exact fits

/-- A carry adds at most one to the integer part. -/
theorem whole_split_mem (h : Representable magnitude) (below : magnitude < UInt64.size * one) :
    magnitude / one ≤ (split magnitude).whole ∧ (split magnitude).whole ≤ magnitude / one + 1 := by
  have fits : magnitude / one < UInt64.size := (Nat.div_lt_iff_lt_mul one_pos).mpr below
  rw [split_eq h below]
  split <;> simp only <;> omega

/-- A magnitude after so many rounded divisions by ten. -/
def divided (count magnitude : Nat) : Nat := (nearest · 10)^[count] magnitude

theorem divided_succ (count magnitude : Nat) :
    divided (count + 1) magnitude = nearest (divided count magnitude) 10 :=
  Function.iterate_succ_apply' ..

/-- Normalizing divides by ten as often as the magnitude is not below ten. -/
theorem exists_normalize_eq (magnitude exponent : Nat) :
    ∃ count, normalize magnitude exponent = (divided count magnitude, exponent + count) ∧
      divided count magnitude < 10 * one ∧
        ∀ before < count, 10 * one ≤ divided before magnitude := by
  fun_induction normalize magnitude exponent with
  | case1 magnitude exponent small =>
    exact ⟨0, rfl, small, fun before impossible => absurd impossible (Nat.not_lt_zero before)⟩
  | case2 magnitude exponent large ih =>
    obtain ⟨count, normal, small, earlier⟩ := ih
    refine ⟨count + 1, ?_, small, ?_⟩
    · rw [normal, Nat.add_assoc, Nat.add_comm 1]
      rfl
    · intro before order
      cases before with
      | zero => exact Nat.le_of_not_lt large
      | succ before => exact earlier before (Nat.lt_of_succ_lt_succ order)

/-- A power of ten up to the 22nd is held exactly, so dividing does not get below it too early. -/
theorem pow_ten_le_divided {power : Nat} (small : power + count ≤ 22)
    (large : 10 ^ (power + count) * one ≤ magnitude) :
    10 ^ power * one ≤ divided count magnitude := by
  induction count generalizing power with
  | zero => exact large
  | succ count ih =>
    have before : 10 ^ (power + 1) * one ≤ divided count magnitude := by
      apply ih (by omega)
      rwa [Nat.add_right_comm, Nat.add_assoc]
    have held : Representable (10 ^ power * one) := by
      have bits : 5 ^ power < 2 ^ 53 := by
        calc 5 ^ power ≤ 5 ^ 22 := Nat.pow_le_pow_right (by decide) (by omega)
          _ < 2 ^ 53 := by decide
      refine ⟨5 ^ power, power + quantumExponent, bits, ?_⟩
      rw [one_eq_pow, Nat.pow_add, ← Nat.mul_assoc, ← Nat.mul_pow]
    rw [divided_succ]
    apply le_nearest (by decide) held
    rwa [Nat.mul_right_comm, ← Nat.pow_succ]

/-- Rounding adds less than one part in `2 ^ 52` to a quotient with so many bits. -/
theorem nearest_mul_le {num den : Nat} (positive : 0 < den) (large : 2 ^ 52 ≤ num / den) :
    nearest num den * (den * 2 ^ 52) ≤ num * (2 ^ 52 + 1) := by
  obtain ⟨e, small, full⟩ := exists_scale num den
  have unit : 0 < den * 2 ^ e := Nat.mul_pos positive (Nat.two_pow_pos e)
  have units : 2 ^ 52 * (den * 2 ^ e) ≤ num := by
    have enough : 2 ^ 52 * 2 ^ e ≤ num / den := by
      rcases full with full | rfl
      · exact full
      · simpa using large
    have := (Nat.le_div_iff_mul_le positive).mp enough
    calc 2 ^ 52 * (den * 2 ^ e) = 2 ^ 52 * 2 ^ e * den := by ring
      _ ≤ num := this
  have rounded : divToEven num (den * 2 ^ e) * (den * 2 ^ e) ≤ num + den * 2 ^ e := by
    have cut := divToEven_le num (den * 2 ^ e)
    calc divToEven num (den * 2 ^ e) * (den * 2 ^ e)
        ≤ (num / (den * 2 ^ e) + 1) * (den * 2 ^ e) := Nat.mul_le_mul_right _ cut
      _ = num / (den * 2 ^ e) * (den * 2 ^ e) + den * 2 ^ e := by ring
      _ ≤ num + den * 2 ^ e := Nat.add_le_add_right (Nat.div_mul_le_self _ _) _
  calc nearest num den * (den * 2 ^ 52)
      = divToEven num (den * 2 ^ e) * (den * 2 ^ e) * 2 ^ 52 := by
        rw [nearest_eq_of_scale small full]
        ring
    _ ≤ (num + den * 2 ^ e) * 2 ^ 52 := Nat.mul_le_mul_right _ rounded
    _ = num * 2 ^ 52 + 2 ^ 52 * (den * 2 ^ e) := by ring
    _ ≤ num * 2 ^ 52 + num := Nat.add_le_add_left units _
    _ = num * (2 ^ 52 + 1) := by ring

/-- The rounding errors of many divisions together. -/
theorem divided_mul_le (large : ∀ before < count, 10 * one ≤ divided before magnitude) :
    divided count magnitude * (10 * 2 ^ 52) ^ count ≤ magnitude * (2 ^ 52 + 1) ^ count := by
  induction count with
  | zero => exact Nat.le_refl _
  | succ count ih =>
    have here := large count (Nat.lt_succ_self count)
    have quotient : 2 ^ 52 ≤ divided count magnitude / 10 := by
      have unit := two_pow_le_one
      omega
    have step := nearest_mul_le (by decide) quotient
    have before := ih fun earlier order => large earlier (Nat.lt_succ_of_lt order)
    calc divided (count + 1) magnitude * (10 * 2 ^ 52) ^ (count + 1)
        = nearest (divided count magnitude) 10 * (10 * 2 ^ 52) * (10 * 2 ^ 52) ^ count := by
          rw [divided_succ, pow_succ]
          ring
      _ ≤ divided count magnitude * (2 ^ 52 + 1) * (10 * 2 ^ 52) ^ count :=
          Nat.mul_le_mul_right _ step
      _ = divided count magnitude * (10 * 2 ^ 52) ^ count * (2 ^ 52 + 1) := by ring
      _ ≤ magnitude * (2 ^ 52 + 1) ^ count * (2 ^ 52 + 1) := Nat.mul_le_mul_right _ before
      _ = magnitude * (2 ^ 52 + 1) ^ (count + 1) := by
          rw [pow_succ]
          ring

theorem divided_lt {limit bound : Nat}
    (errors : limit * (2 ^ 52 + 1) ^ count ≤ bound * (10 * 2 ^ 52) ^ count)
    (below : magnitude < limit * one)
    (large : ∀ before < count, 10 * one ≤ divided before magnitude) :
    divided count magnitude < bound * one := by
  apply Nat.lt_of_mul_lt_mul_right (a := (10 * 2 ^ 52) ^ count)
  calc divided count magnitude * (10 * 2 ^ 52) ^ count
      ≤ magnitude * (2 ^ 52 + 1) ^ count := divided_mul_le large
    _ < limit * one * (2 ^ 52 + 1) ^ count :=
        Nat.mul_lt_mul_of_pos_right below (Nat.pow_pos (by decide))
    _ = limit * (2 ^ 52 + 1) ^ count * one := by ring
    _ ≤ bound * (10 * 2 ^ 52) ^ count * one := Nat.mul_le_mul_right _ errors
    _ = bound * one * (10 * 2 ^ 52) ^ count := by ring

/-- After 308 divisions less than two is left of any finite magnitude. -/
theorem divided_lt_of_finite (finite : magnitude < 2 ^ 1024 * one)
    (large : ∀ before < 308, 10 * one ≤ divided before magnitude) :
    divided 308 magnitude < 2 * one :=
  divided_lt (by decide +kernel) finite large

/-- A finite magnitude is below `2 ^ 1024`. -/
theorem quanta_lt_of_finite (x : Binary64) (finite : x.exponentField + 1 ≠ exponentCount) :
    x.quanta < 2 ^ 1024 * one := by
  have field : x.exponentField < exponentCount := Nat.mod_lt _ (by decide)
  have count : exponentCount = 2048 := rfl
  have bits : fractionCount = 2 ^ 52 := rfl
  have fraction : x.fractionField < fractionCount := Nat.mod_lt _ (by decide)
  have scale : x.exponentField - 1 ≤ 971 + quantumExponent := by
    have : quantumExponent = 1074 := rfl
    omega
  have largest : 2 ^ 53 * 2 ^ (971 + quantumExponent) = 2 ^ 1024 * one := by
    rw [one_eq_pow, ← Nat.pow_add, ← Nat.pow_add, ← Nat.add_assoc]
  rw [← largest, quanta]
  split
  · calc x.fractionField < 2 ^ 53 * 1 := by omega
      _ ≤ 2 ^ 53 * 2 ^ (971 + quantumExponent) := Nat.mul_le_mul_left _ (Nat.two_pow_pos _)
  · calc (fractionCount + x.fractionField) * 2 ^ (x.exponentField - 1)
        < 2 ^ 53 * 2 ^ (x.exponentField - 1) :=
          Nat.mul_lt_mul_of_pos_right (by omega) (Nat.two_pow_pos _)
      _ ≤ 2 ^ 53 * 2 ^ (971 + quantumExponent) :=
          Nat.mul_le_mul_left _ (Nat.pow_le_pow_right (by decide) scale)

/-- A large magnitude is divided at least 19 times. -/
theorem nineteen_le_of_divided_lt (large : 10 ^ 19 * one ≤ magnitude)
    (small : divided count magnitude < 10 * one) : 19 ≤ count := by
  by_contra few
  have order : count < 19 := Nat.lt_of_not_le few
  clear few
  have begins : 10 ^ (19 - count + count) * one ≤ magnitude := by
    rwa [Nat.sub_add_cancel order.le]
  have left := pow_ten_le_divided (by omega) begins
  have ten : 10 ^ 1 ≤ 10 ^ (19 - count) := Nat.pow_le_pow_right (by decide) (by omega)
  exact absurd (Nat.le_trans (Nat.mul_le_mul_right one ten) left) (Nat.not_le_of_lt small)

/-- A finite magnitude is divided at most 308 times. -/
theorem le_308_of_le_divided (finite : magnitude < 2 ^ 1024 * one)
    (large : ∀ before < count, 10 * one ≤ divided before magnitude) : count ≤ 308 := by
  by_contra many
  have order : 308 < count := Nat.lt_of_not_le many
  have left := divided_lt_of_finite finite fun before earlier =>
    large before (Nat.lt_trans earlier order)
  have further := large 308 order
  clear finite large
  omega

theorem pow_ten_le_word : 10 ^ 19 ≤ UInt64.size := by decide

/-- What is left of a large magnitude is held exactly and not less than one. -/
theorem one_le_divided (positive : 0 < count)
    (large : ∀ before < count, 10 * one ≤ divided before magnitude) :
    Representable (divided count magnitude) ∧ 1 * one ≤ divided count magnitude := by
  obtain ⟨before, rfl⟩ := Nat.exists_eq_add_of_le' positive
  rw [divided_succ]
  refine ⟨nearest_representable _ (by decide), ?_⟩
  apply le_nearest (by decide) (representable_mul_one (by decide))
  rw [Nat.one_mul, Nat.mul_comm]
  exact large before (Nat.lt_succ_self before)

/-- The carry out of the leading digit: ten becomes one, and the exponent grows. -/
def carried (decimal : Decimal) (exponent : Nat) : Decimal × Nat :=
  if decimal.whole = 10 then (⟨1, decimal.fraction⟩, exponent + 1) else (decimal, exponent)

theorem scientific_eq {scaled : Nat} (normal : normalize magnitude 0 = (scaled, exponent)) :
    scientific magnitude = carried (split scaled) exponent := by
  rw [scientific, normal, carried]

/-- The exponent has room for the carry unless the digit is one, which is not rounded up to ten. -/
theorem carried_mem {decimal : Decimal} {whole : Nat} (first : 1 ≤ whole) (most : whole < 10)
    (lead : whole ≤ decimal.whole ∧ decimal.whole ≤ whole + 1)
    (bounded : exponent ≤ 308) (last : exponent = 308 → whole < 2) :
    (1 ≤ (carried decimal exponent).1.whole ∧ (carried decimal exponent).1.whole ≤ 9) ∧
      (carried decimal exponent).1.fraction = decimal.fraction ∧
      exponent ≤ (carried decimal exponent).2 ∧ (carried decimal exponent).2 ≤ 308 := by
  rw [carried]
  split
  next =>
    dsimp only
    omega
  next =>
    dsimp only
    omega

/-- A large magnitude has a leading digit from one to nine and an exponent from 19 to 308, also if
    the leading digit was rounded up to ten. -/
theorem scientific_mem (large : UInt64.size * one ≤ magnitude)
    (finite : magnitude < 2 ^ 1024 * one) :
    (1 ≤ (scientific magnitude).1.whole ∧ (scientific magnitude).1.whole ≤ 9) ∧
      (scientific magnitude).1.fraction < fractionScale ∧
      19 ≤ (scientific magnitude).2 ∧ (scientific magnitude).2 ≤ 308 := by
  obtain ⟨count, normal, small, earlier⟩ := exists_normalize_eq magnitude 0
  rw [Nat.zero_add] at normal
  have enough : 19 ≤ count :=
    nineteen_le_of_divided_lt (Nat.le_trans (Nat.mul_le_mul_right one pow_ten_le_word) large) small
  have bounded : count ≤ 308 := le_308_of_le_divided finite earlier
  obtain ⟨held, least⟩ := one_le_divided (Nat.lt_of_lt_of_le (by decide) enough) earlier
  have last : count = 308 → divided count magnitude / one < 2 := by
    rintro rfl
    exact (Nat.div_lt_iff_lt_mul one_pos).mpr (divided_lt_of_finite finite earlier)
  have first : 1 ≤ divided count magnitude / one := (Nat.le_div_iff_mul_le one_pos).mpr least
  have most : divided count magnitude / one < 10 := (Nat.div_lt_iff_lt_mul one_pos).mpr small
  have below : divided count magnitude < UInt64.size * one :=
    Nat.lt_of_lt_of_le small (Nat.mul_le_mul_right one (by decide))
  obtain ⟨digit, fraction, least, greatest⟩ :=
    carried_mem first most (whole_split_mem held below) bounded last
  rw [scientific_eq normal, fraction]
  exact ⟨digit, fraction_split_lt held below, Nat.le_trans enough least, greatest⟩

end FormattedOutput.Binary64
