import FormattedOutput.Numeral
import Mathlib.Data.List.Basic
import Mathlib.Data.List.Induction
import Mathlib.Tactic.Common

/-!
# Canonical numerals

A numeral is canonical if it consists of digits, at least one of them, and has no zero in front of
other digits. Each number has exactly one canonical numeral in each base, and it is the one that is
rendered. An integer that is negative has a minus sign in front of the numeral of its magnitude.
-/

namespace FormattedOutput

namespace Radix

variable {radix : Radix} {byte : UInt8} {value : Nat}

/-- The digits of a base, each of them at the place of its value. -/
def digits : Radix → Bytes
  | decimal => Bytes.ofString "0123456789"
  | lowerHex => Bytes.ofString "0123456789abcdef"
  | upperHex => Bytes.ofString "0123456789ABCDEF"

/-- The value of a digit. -/
def digitValue (radix : Radix) (byte : UInt8) : Nat := radix.digits.idxOf byte

theorem digit_zero (radix : Radix) : radix.digit 0 = '0'.toUInt8 := rfl

theorem digit_spells (small : value < radix.base) :
    radix.digit value ∈ radix.digits ∧ radix.digitValue (radix.digit value) = value := by
  have all : ∀ value < radix.base,
      radix.digit value ∈ radix.digits ∧ radix.digitValue (radix.digit value) = value := by
    cases radix <;> decide +kernel
  exact all value small

theorem digitValue_lt (member : byte ∈ radix.digits) : radix.digitValue byte < radix.base := by
  have all : ∀ byte ∈ radix.digits, radix.digitValue byte < radix.base := by
    cases radix <;> decide +kernel
  exact all byte member

theorem digit_digitValue (member : byte ∈ radix.digits) :
    radix.digit (radix.digitValue byte) = byte := by
  have all : ∀ byte ∈ radix.digits, radix.digit (radix.digitValue byte) = byte := by
    cases radix <;> decide +kernel
  exact all byte member

end Radix

namespace Numeral

variable {radix : Radix} {n : Nat} {text : Bytes}

/-- The number that digits spell, the most significant one first. -/
def value (radix : Radix) (text : Bytes) : Nat :=
  text.foldl (fun value digit => value * radix.base + radix.digitValue digit) 0

theorem value_append_singleton (radix : Radix) (text : Bytes) (digit : UInt8) :
    value radix (text ++ [digit]) = value radix text * radix.base + radix.digitValue digit := by
  rw [value, List.foldl_append]
  rfl

/-- A text is the canonical numeral of a number. -/
structure Canonical (radix : Radix) (n : Nat) (text : Bytes) : Prop where
  nonempty : text ≠ []
  digits : ∀ digit ∈ text, digit ∈ radix.digits
  no_leading_zero : text.head? = some '0'.toUInt8 → text.length = 1
  spells : value radix text = n

theorem head?_ofNat (positive : 0 < n) : (ofNat radix n).head? ≠ some '0'.toUInt8 := by
  fun_induction ofNat radix n with
  | case1 n small =>
    intro zero
    have same := (Radix.digit_spells small).2
    have none : radix.digitValue (radix.digit 0) = 0 := (Radix.digit_spells (by omega)).2
    rw [Radix.digit_zero] at none
    rw [Option.some.inj zero, none] at same
    omega
  | case2 n large ih =>
    have base := radix.two_le_base
    rw [List.head?_append_of_ne_nil _ (ofNat_ne_nil _ _)]
    exact ih (Nat.div_pos (by omega) (by omega))

theorem canonical_ofNat (radix : Radix) (n : Nat) : Canonical radix n (ofNat radix n) := by
  have base := radix.two_le_base
  refine ⟨ofNat_ne_nil radix n, ?_, ?_, ?_⟩
  · fun_induction ofNat radix n with
    | case1 n small => simpa using (Radix.digit_spells small).1
    | case2 n large ih =>
      intro digit found
      rcases List.mem_append.mp found with front | back
      · exact ih digit front
      · rw [List.mem_singleton.mp back]
        exact (Radix.digit_spells (Nat.mod_lt n (by omega))).1
  · intro zero
    have none : n = 0 := by
      by_contra positive
      exact head?_ofNat (Nat.pos_of_ne_zero positive) zero
    rw [none, ofNat, if_pos (by omega), List.length_singleton]
  · fun_induction ofNat radix n with
    | case1 n small => simpa [value] using (Radix.digit_spells small).2
    | case2 n large ih =>
      rw [value_append_singleton, ih, (Radix.digit_spells (Nat.mod_lt n (by omega))).2]
      exact Nat.div_add_mod' n radix.base

/-- A number has no other canonical numeral than the one that is rendered. -/
theorem Canonical.eq_ofNat (h : Canonical radix n text) : text = ofNat radix n := by
  -- the last digit is the remainder, and without it the text is canonical for the quotient
  induction text using List.reverseRecOn generalizing n with
  | nil => exact absurd rfl h.nonempty
  | append_singleton front digit ih =>
    have member : digit ∈ radix.digits := h.digits digit (by simp)
    have small := Radix.digitValue_lt member
    have whole := h.spells
    rw [value_append_singleton] at whole
    by_cases single : front = []
    · subst single
      have same : n = radix.digitValue digit := by simpa [value] using whole.symm
      rw [ofNat, if_pos (same ▸ small), same, Radix.digit_digitValue member]
      rfl
    · have begins : (front ++ [digit]).head? = front.head? :=
        List.head?_append_of_ne_nil _ single
      have longer : (front ++ [digit]).length ≠ 1 := by simpa using single
      have noZero : front.head? ≠ some '0'.toUInt8 := fun zero =>
        longer (h.no_leading_zero (begins.trans zero))
      have canonical : Canonical radix (value radix front) front :=
        ⟨single, fun other found => h.digits other (List.mem_append_left _ found),
          fun zero => absurd zero noZero, rfl⟩
      have spelled := ih canonical
      have positive : 0 < value radix front := by
        rw [Nat.pos_iff_ne_zero]
        intro zero
        rw [zero, ofNat, if_pos (by have := radix.two_le_base; omega)] at spelled
        exact noZero (by rw [spelled]; rfl)
      have quotient : n / radix.base = value radix front := by
        rw [← whole, Nat.add_comm, Nat.add_mul_div_right _ _ (by omega), Nat.div_eq_of_lt small,
          Nat.zero_add]
      have remainder : n % radix.base = radix.digitValue digit := by
        rw [← whole, Nat.add_comm, Nat.add_mul_mod_self_right, Nat.mod_eq_of_lt small]
      have large : ¬ n < radix.base := by
        intro below
        rw [Nat.div_eq_of_lt below] at quotient
        omega
      rw [ofNat, if_neg large, quotient, remainder, ← spelled, Radix.digit_digitValue member]

theorem canonical_iff : Canonical radix n text ↔ text = ofNat radix n := by
  constructor
  · exact Canonical.eq_ofNat
  · rintro rfl
    exact canonical_ofNat radix n

/-- A text is the canonical numeral of an integer. -/
def Denotes (radix : Radix) (n : Int) (text : Bytes) : Prop :=
  if n < 0 then ∃ digits, text = '-'.toUInt8 :: digits ∧ Canonical radix n.natAbs digits
  else Canonical radix n.natAbs text

theorem denotes_iff_ofInt {n : Int} : Denotes .decimal n text ↔ text = ofInt n := by
  rw [Denotes, ofInt]
  split
  next =>
    constructor
    · rintro ⟨digits, rfl, canonical⟩
      rw [canonical.eq_ofNat]
    · rintro rfl
      exact ⟨_, rfl, canonical_ofNat _ _⟩
  next => exact canonical_iff

theorem denotes_iff_ofNat {n : Int} (nonnegative : 0 ≤ n) :
    Denotes radix n text ↔ text = ofNat radix n.toNat := by
  have same : n.natAbs = n.toNat := by omega
  rw [Denotes, if_neg (by omega), canonical_iff, same]

end Numeral

end FormattedOutput
