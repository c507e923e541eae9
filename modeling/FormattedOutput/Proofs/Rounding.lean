import FormattedOutput.Binary64.Rounding
import Mathlib.Tactic.Ring

/-!
# Rounding to nearest

Rounding a quotient never carries it across a magnitude that binary64 can hold, and leaves such a
magnitude as it is. Between two neighbours the middle decides, and in the middle the one whose last
significant bit is zero. These two facts are all that is used of rounding elsewhere.
-/

namespace FormattedOutput.Binary64

variable {num den n e magnitude : Nat}

/-- A magnitude that binary64 can hold: it has at most 53 significant bits. -/
def Representable (magnitude : Nat) : Prop :=
  ∃ significand exponent, significand < 2 ^ 53 ∧ magnitude = significand * 2 ^ exponent

theorem representable_mul_pow (small : n < 2 ^ 53) (e : Nat) : Representable (n * 2 ^ e) :=
  ⟨n, e, small, rfl⟩

/-- The magnitude behind the largest significand has the smallest one at the next scale. -/
theorem representable_mul_pow_of_le (small : n ≤ 2 ^ 53) (e : Nat) :
    Representable (n * 2 ^ e) := by
  rcases Nat.lt_or_eq_of_le small with below | rfl
  · exact representable_mul_pow below e
  · exact ⟨2 ^ 52, e + 1, by decide, by ring⟩

theorem representable_zero : Representable 0 := ⟨0, 0, by decide, rfl⟩

/-- Between `n` and `n + 1` units of a scale there is nothing else that binary64 can hold, if `n`
    needs all its bits at that scale or the units are quanta. -/
theorem Representable.le_mul_pow (h : Representable magnitude) (full : 2 ^ 52 ≤ n ∨ e = 0)
    (below : magnitude < (n + 1) * 2 ^ e) : magnitude ≤ n * 2 ^ e := by
  obtain ⟨significand, exponent, small, rfl⟩ := h
  rcases Nat.lt_or_ge exponent e with finer | coarser
  · have large : 2 ^ 52 ≤ n := by omega
    calc significand * 2 ^ exponent
        ≤ 2 ^ 53 * 2 ^ exponent := Nat.mul_le_mul_right _ small.le
      _ = 2 ^ 52 * 2 ^ (exponent + 1) := by ring
      _ ≤ n * 2 ^ e := Nat.mul_le_mul large (Nat.pow_le_pow_right (by decide) finer)
  · obtain ⟨more, rfl⟩ := Nat.exists_eq_add_of_le coarser
    have whole : significand * 2 ^ (e + more) = significand * 2 ^ more * 2 ^ e := by ring
    rw [whole] at below ⊢
    exact Nat.mul_le_mul_right _ (Nat.le_of_lt_succ (Nat.lt_of_mul_lt_mul_right below))

/-- An integer is below the rounded quotient if the quotient is past the middle behind it, or in the
    middle and the integer is odd. -/
theorem lt_divToEven_iff (positive : 0 < den) :
    n < divToEven num den ↔
      (2 * n + 1) * den < 2 * num ∨ (2 * n + 1) * den = 2 * num ∧ n % 2 = 1 := by
  have whole := Nat.div_add_mod num den
  have rest := Nat.mod_lt num positive
  have middle : (2 * n + 1) * den = 2 * (den * n) + den := by ring
  simp only [divToEven]
  rw [middle]
  generalize num % den = remainder at whole rest ⊢
  rcases Nat.lt_trichotomy n (num / den) with before | same | behind
  · have next : den * n + den ≤ den * (num / den) := by
      rw [← Nat.mul_succ]
      exact Nat.mul_le_mul_left den before
    split <;> omega
  · rw [same]
    split <;> omega
  · have next : den * (num / den) + den ≤ den * n := by
      rw [← Nat.mul_succ]
      exact Nat.mul_le_mul_left den behind
    split <;> omega

theorem divToEven_le_of_le (positive : 0 < den) (below : num ≤ n * den) :
    divToEven num den ≤ n := by
  have middle : (2 * n + 1) * den = 2 * (n * den) + den := by ring
  by_contra above
  rcases (lt_divToEven_iff positive).mp (Nat.lt_of_not_le above) with past | ⟨same, -⟩ <;> omega

theorem div_le_divToEven (num den : Nat) : num / den ≤ divToEven num den := by
  simp only [divToEven]
  split <;> omega

/-- At the scale of a quotient, rounding is rounding to an integer. -/
theorem nearest_eq_of_scale (below : num / den < 2 ^ 53 * 2 ^ e)
    (full : 2 ^ 52 * 2 ^ e ≤ num / den ∨ e = 0) :
    nearest num den = divToEven num (den * 2 ^ e) * 2 ^ e := by
  have scale : (num / den).log2 - 52 = e := by
    rw [← Nat.pow_add] at below full
    rcases full with large | rfl
    · have positive : num / den ≠ 0 := by
        have := Nat.two_pow_pos (52 + e)
        omega
      have log : (num / den).log2 = 52 + e := by
        rw [Nat.log2_eq_iff positive]
        exact ⟨large, by rwa [show 52 + e + 1 = 53 + e by omega]⟩
      omega
    · rcases Nat.eq_zero_or_pos (num / den) with zero | positive
      · rw [zero]
        rfl
      · have log := (Nat.log2_lt positive.ne').mpr below
        omega
  simp only [nearest, scale]
  rfl

theorem exists_scale (num den : Nat) :
    ∃ e, num / den < 2 ^ 53 * 2 ^ e ∧ (2 ^ 52 * 2 ^ e ≤ num / den ∨ e = 0) := by
  rcases Nat.lt_or_ge (num / den) (2 ^ 53) with small | large
  · exact ⟨0, by simpa using small, Or.inr rfl⟩
  · have positive : num / den ≠ 0 := by omega
    have log : 53 ≤ (num / den).log2 := (Nat.le_log2 positive).mpr large
    refine ⟨(num / den).log2 - 52, ?_, Or.inl ?_⟩
    · rw [← Nat.pow_add, show 53 + ((num / den).log2 - 52) = (num / den).log2 + 1 by omega]
      exact Nat.lt_log2_self
    · rw [← Nat.pow_add, show 52 + ((num / den).log2 - 52) = (num / den).log2 by omega]
      exact Nat.log2_self_le positive

theorem nearest_representable (num : Nat) (positive : 0 < den) :
    Representable (nearest num den) := by
  obtain ⟨e, below, full⟩ := exists_scale num den
  rw [nearest_eq_of_scale below full]
  apply representable_mul_pow_of_le
  apply divToEven_le_of_le (Nat.mul_pos positive (Nat.two_pow_pos e))
  rw [Nat.div_lt_iff_lt_mul positive] at below
  calc num ≤ 2 ^ 53 * 2 ^ e * den := below.le
    _ = 2 ^ 53 * (den * 2 ^ e) := by ring

/-- Rounding does not pass a magnitude from below. -/
theorem nearest_le (positive : 0 < den) (h : Representable magnitude)
    (below : num ≤ magnitude * den) : nearest num den ≤ magnitude := by
  obtain ⟨e, small, full⟩ := exists_scale num den
  obtain ⟨significand, exponent, bits, rfl⟩ := h
  rw [nearest_eq_of_scale small full]
  rcases Nat.lt_or_ge exponent e with finer | coarser
  · -- then the quotient has more bits than the magnitude and is larger
    have large : 2 ^ 52 * 2 ^ e ≤ num / den := full.resolve_right (by omega)
    have quotient : num / den ≤ significand * 2 ^ exponent := by
      have := Nat.div_le_div_right (c := den) below
      rwa [Nat.mul_div_cancel _ positive] at this
    have short : significand * 2 ^ exponent < 2 ^ 52 * 2 ^ (exponent + 1) := by
      calc significand * 2 ^ exponent
          < 2 ^ 53 * 2 ^ exponent := Nat.mul_lt_mul_of_pos_right bits (Nat.two_pow_pos _)
        _ = 2 ^ 52 * 2 ^ (exponent + 1) := by ring
    have order : 2 ^ 52 * 2 ^ (exponent + 1) ≤ 2 ^ 52 * 2 ^ e :=
      Nat.mul_le_mul_left _ (Nat.pow_le_pow_right (by decide) finer)
    omega
  · obtain ⟨more, rfl⟩ := Nat.exists_eq_add_of_le coarser
    have whole : significand * 2 ^ (e + more) = significand * 2 ^ more * 2 ^ e := by ring
    rw [whole] at below ⊢
    apply Nat.mul_le_mul_right
    apply divToEven_le_of_le (Nat.mul_pos positive (Nat.two_pow_pos e))
    calc num ≤ significand * 2 ^ more * 2 ^ e * den := below
      _ = significand * 2 ^ more * (den * 2 ^ e) := by ring

/-- Rounding does not pass a magnitude from above. -/
theorem le_nearest (positive : 0 < den) (h : Representable magnitude)
    (above : magnitude * den ≤ num) : magnitude ≤ nearest num den := by
  obtain ⟨e, small, full⟩ := exists_scale num den
  have quotient : magnitude ≤ num / den := (Nat.le_div_iff_mul_le positive).mpr above
  rw [nearest_eq_of_scale small full]
  have cut : num / den / 2 ^ e ≤ divToEven num (den * 2 ^ e) := by
    rw [Nat.div_div_eq_div_mul]
    exact div_le_divToEven num _
  refine Nat.le_trans ?_ (Nat.mul_le_mul_right _ cut)
  -- nothing that binary64 can hold lies between the quotient and its last full unit
  apply h.le_mul_pow
  · rcases full with large | zero
    · exact Or.inl ((Nat.le_div_iff_mul_le (Nat.two_pow_pos e)).mpr large)
    · exact Or.inr zero
  · exact Nat.lt_of_le_of_lt quotient
      (Nat.lt_mul_of_div_lt (Nat.lt_succ_self _) (Nat.two_pow_pos e))

theorem nearest_eq_self (h : Representable magnitude) : nearest magnitude 1 = magnitude :=
  Nat.le_antisymm (nearest_le Nat.one_pos h (Nat.mul_one _).ge)
    (le_nearest Nat.one_pos h (Nat.mul_one _).le)

/-- A quotient is rounded to `n + 1` units of a scale or beyond if it is past the middle behind `n`
    units, or in the middle and `n` is odd. -/
theorem succ_mul_pow_le_nearest_iff (positive : 0 < den) (small : n < 2 ^ 53)
    (full : 2 ^ 52 ≤ n ∨ e = 0) :
    (n + 1) * 2 ^ e ≤ nearest num den ↔ (2 * n + 1) * (den * 2 ^ e) < 2 * num ∨
      (2 * n + 1) * (den * 2 ^ e) = 2 * num ∧ n % 2 = 1 := by
  have unit : 0 < den * 2 ^ e := Nat.mul_pos positive (Nat.two_pow_pos e)
  have middle : (2 * n + 1) * (den * 2 ^ e) = 2 * (n * (den * 2 ^ e)) + den * 2 ^ e := by ring
  have next : (n + 1) * 2 ^ e * den = n * (den * 2 ^ e) + den * 2 ^ e := by ring
  have here : n * 2 ^ e * den = n * (den * 2 ^ e) := by ring
  by_cases before : num < n * 2 ^ e * den
  · have rounded := nearest_le positive (representable_mul_pow small e) before.le
    have apart : n * 2 ^ e < (n + 1) * 2 ^ e :=
      Nat.mul_lt_mul_of_pos_right (Nat.lt_succ_self n) (Nat.two_pow_pos e)
    constructor <;> omega
  by_cases behind : (n + 1) * 2 ^ e * den ≤ num
  · have rounded : (n + 1) * 2 ^ e ≤ nearest num den :=
      le_nearest positive (representable_mul_pow_of_le small e) behind
    constructor <;> omega
  have lower : n * 2 ^ e ≤ num / den := (Nat.le_div_iff_mul_le positive).mpr (by omega)
  have upper : num / den < (n + 1) * 2 ^ e :=
    (Nat.div_lt_iff_lt_mul positive).mpr (Nat.lt_of_not_le behind)
  have scale : nearest num den = divToEven num (den * 2 ^ e) * 2 ^ e := by
    apply nearest_eq_of_scale
    · exact Nat.lt_of_lt_of_le upper (Nat.mul_le_mul_right _ small)
    · rcases full with large | zero
      · exact Or.inl (Nat.le_trans (Nat.mul_le_mul_right _ large) lower)
      · exact Or.inr zero
  rw [scale, Nat.mul_le_mul_right_iff (Nat.two_pow_pos e), Nat.succ_le_iff, lt_divToEven_iff unit]

end FormattedOutput.Binary64
