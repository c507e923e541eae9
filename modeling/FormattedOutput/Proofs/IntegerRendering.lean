import FormattedOutput.Proofs.CanonicalNumeral
import FormattedOutput.Scratch
import Mathlib.Algebra.Group.Nat.Defs

/-!
# Integers in a work area

Rendering an integer into a work area stores its digits from the last one on, each in front of what
is in use already. Whatever the area held before, there is always room, and what is in use in the
end is the canonical numeral of the integer.
-/

namespace FormattedOutput

/-- The text with its letters in upper case, as far as they are ASCII. -/
def Bytes.toUpper (text : Bytes) : Bytes :=
  text.map fun byte => (Char.ofUInt8 byte).toUpper.toUInt8

/-- How many digits a word of 64 bits needs at most. -/
def Radix.wordDigits : Radix → Nat
  | decimal => 20
  | lowerHex => 16
  | upperHex => 16

namespace Numeral

variable {radix : Radix} {n : Nat}

theorem ofNat_of_lt (small : n < radix.base) : ofNat radix n = [radix.digit n] := by
  rw [ofNat, if_pos small]

theorem ofNat_of_not_lt (large : ¬ n < radix.base) :
    ofNat radix n = ofNat radix (n / radix.base) ++ [radix.digit (n % radix.base)] := by
  rw [ofNat, if_neg large]

/-- A number below a power of the base has at most as many digits as the exponent says. -/
theorem length_ofNat_le {count : Nat} (positive : 0 < count) (small : n < radix.base ^ count) :
    (ofNat radix n).length ≤ count := by
  fun_induction ofNat radix n generalizing count with
  | case1 n single => exact positive
  | case2 n large ih =>
    obtain ⟨more, rfl⟩ : ∃ more, count = more + 1 := ⟨count - 1, by omega⟩
    have quotient : n / radix.base < radix.base ^ more := by
      apply Nat.div_lt_of_lt_mul
      rwa [Nat.pow_succ, Nat.mul_comm] at small
    have left : 0 < more := by
      rw [Nat.pos_iff_ne_zero]
      rintro rfl
      exact large (by simpa using small)
    have shorter := ih left quotient
    rw [List.length_append, List.length_singleton]
    omega

theorem digit_upperHex {value : Nat} (small : value < 16) :
    Radix.upperHex.digit value = (Char.ofUInt8 (Radix.lowerHex.digit value)).toUpper.toUInt8 := by
  have all : ∀ value < 16, Radix.upperHex.digit value =
      (Char.ofUInt8 (Radix.lowerHex.digit value)).toUpper.toUInt8 := by
    decide +kernel
  exact all value small

/-- The two numerals in base 16 differ only in the case of their letters. -/
theorem ofNat_upperHex (n : Nat) : ofNat .upperHex n = (ofNat .lowerHex n).toUpper := by
  -- both bases are 16, so the recursion of the one numeral is that of the other
  fun_induction ofNat .upperHex n with
  | case1 n single =>
    have lower : ofNat .lowerHex n = [_] := ofNat_of_lt single
    rw [lower, digit_upperHex single]
    rfl
  | case2 n large ih =>
    have lower : ofNat .lowerHex n = ofNat .lowerHex (n / 16) ++ [_] :=
      ofNat_of_not_lt large
    have last := digit_upperHex (Nat.mod_lt n (by omega : 0 < 16))
    rw [ih, lower, Bytes.toUpper, Bytes.toUpper, List.map_append]
    exact congrArg (_ ++ [·]) last

/-- The text that denotes an integer is the only one that does. -/
theorem Denotes.eq_text {n : Int} {text other : Bytes} (h : Denotes radix n text)
    (h' : Denotes radix n other) : text = other := by
  rw [Denotes] at h h'
  split at h
  next negative =>
    rw [if_pos negative] at h'
    obtain ⟨digits, rfl, canonical⟩ := h
    obtain ⟨others, rfl, canonical'⟩ := h'
    rw [canonical.eq_ofNat, canonical'.eq_ofNat]
  next nonnegative =>
    rw [if_neg nonnegative] at h'
    rw [h.eq_ofNat, h'.eq_ofNat]

theorem minus_notMem_digits (radix : Radix) : '-'.toUInt8 ∉ radix.digits := by
  cases radix <;> decide +kernel

/-- A minus sign stands in front of a negative integer, and of no other. -/
theorem Denotes.head?_eq_minus_iff {n : Int} {text : Bytes} (h : Denotes radix n text) :
    text.head? = some '-'.toUInt8 ↔ n < 0 := by
  rw [Denotes] at h
  split at h
  next negative =>
    obtain ⟨digits, rfl, -⟩ := h
    exact iff_of_true rfl negative
  next nonnegative =>
    refine iff_of_false ?_ nonnegative
    intro first
    exact minus_notMem_digits radix (h.digits _ (List.mem_of_mem_head? first))

/-- A text denotes only one integer. -/
theorem Denotes.eq_of_text {n m : Int} {text : Bytes} (h : Denotes radix n text)
    (h' : Denotes radix m text) : n = m := by
  have signs : n < 0 ↔ m < 0 := h.head?_eq_minus_iff.symm.trans h'.head?_eq_minus_iff
  rw [Denotes] at h h'
  by_cases negative : n < 0
  · rw [if_pos negative] at h
    rw [if_pos (signs.mp negative)] at h'
    obtain ⟨digits, rfl, canonical⟩ := h
    obtain ⟨others, same, canonical'⟩ := h'
    cases same
    have magnitudes : n.natAbs = m.natAbs := canonical.spells.symm.trans canonical'.spells
    omega
  · rw [if_neg negative] at h
    rw [if_neg (mt signs.mpr negative)] at h'
    have magnitudes : n.natAbs = m.natAbs := h.spells.symm.trans h'.spells
    omega

end Numeral

namespace Scratch

variable {area middle result : Scratch} {front back : Bytes} {radix : Radix}

/-- A text was stored in front of what was in use, and nothing further in front has changed. -/
structure Prepends (area : Scratch) (front : Bytes) (result : Scratch) : Prop where
  text : result.text = front ++ area.text
  start : result.start + front.length = area.start
  untouched : result.bytes.toList.take result.start = area.bytes.toList.take result.start

/-- Two texts stored one after the other are one text, the later one in front. -/
theorem Prepends.trans (h : area.Prepends back middle) (h' : middle.Prepends front result) :
    area.Prepends (front ++ back) result := by
  have order := h'.start
  refine ⟨?_, ?_, ?_⟩
  · rw [h'.text, h.text, List.append_assoc]
  · rw [← h.start, ← h'.start, List.length_append, Nat.add_assoc]
  · have shorter := congrArg (List.take result.start) h.untouched
    rw [List.take_take, List.take_take, Nat.min_eq_left (by omega)] at shorter
    rw [h'.untouched, shorter]

/-- There is room for a byte unless the area is in use as a whole. -/
theorem exists_store? (room : 0 < area.start) (byte : UInt8) :
    ∃ result, area.store? byte = some result ∧ area.Prepends [byte] result := by
  have bound := area.start_le
  have inside : area.start - 1 < capacity := by omega
  have stored : (area.bytes.set (area.start - 1) byte inside).toList =
      area.bytes.toList.set (area.start - 1) byte := Vector.toList_set inside
  refine ⟨⟨area.bytes.set (area.start - 1) byte inside, area.start - 1, by omega⟩, ?_, ?_, ?_, ?_⟩
  · rw [store?, dif_pos room]
  · have length : area.start - 1 < (area.bytes.toList.set (area.start - 1) byte).length := by
      simpa using inside
    have next : area.start - 1 + 1 = area.start := by omega
    rw [text, stored, List.drop_eq_getElem_cons length, List.getElem_set_self, next,
      List.drop_set_of_lt (by omega)]
    rfl
  · exact Nat.sub_add_cancel room
  · rw [stored]
    exact List.take_set_of_le (Nat.le_refl _)

/-- There is room for the digits of a number if the area has as many bytes left. -/
theorem exists_storeDigits? {n : Nat} (room : (Numeral.ofNat radix n).length ≤ area.start) :
    ∃ result, area.storeDigits? radix n = some result ∧
      area.Prepends (Numeral.ofNat radix n) result := by
  -- the recursion of the numeral: the last digit is stored first, and the others in front of it
  fun_induction Numeral.ofNat radix n generalizing area with
  | case1 n single =>
    obtain ⟨stored, found, last⟩ := exists_store? room (radix.digit n)
    refine ⟨stored, ?_, last⟩
    rw [storeDigits?, Nat.mod_eq_of_lt single, Nat.div_eq_of_lt single]
    simp only [found, if_true]
  | case2 n large ih =>
    rw [List.length_append, List.length_singleton] at room
    obtain ⟨stored, found, last⟩ := exists_store? (by omega : 0 < area.start)
      (radix.digit (n % radix.base))
    have left := last.start
    rw [List.length_singleton] at left
    obtain ⟨result, others, front⟩ := ih (by omega : _ ≤ stored.start)
    have positive : n / radix.base ≠ 0 := by
      have base := radix.two_le_base
      have quotient := Nat.div_pos (Nat.not_lt.mp large) (by omega)
      omega
    refine ⟨result, ?_, last.trans front⟩
    rw [storeDigits?]
    simp only [found, positive, if_false, others]

/-- Rendering an integer succeeds whatever a work area holds, and stores one and the same text at its
    end: the numeral that denotes the integer, of at most `limit` bytes. -/
def Renders (render : Scratch → Option Scratch) (radix : Radix) (n : Int) (limit : Nat) : Prop :=
  ∃ text, Numeral.Denotes radix n text ∧ text.length ≤ limit ∧
    ∀ bytes, ∃ result, render (ofBytes bytes) = some result ∧ result.text = text ∧
      (ofBytes bytes).Prepends text result

theorem text_ofBytes (bytes : Vector UInt8 capacity) : (ofBytes bytes).text = [] := by
  simp [text, ofBytes]

/-- A numeral that fits in a work area is rendered as soon as it is stored in an empty one. -/
theorem renders_of_exists {render : Scratch → Option Scratch} {n : Int} {limit : Nat}
    {text : Bytes} (denotes : Numeral.Denotes radix n text) (short : text.length ≤ limit)
    (succeeds : ∀ bytes, ∃ result, render (ofBytes bytes) = some result ∧
      (ofBytes bytes).Prepends text result) : Renders render radix n limit := by
  refine ⟨text, denotes, short, ?_⟩
  intro bytes
  obtain ⟨result, found, prepends⟩ := succeeds bytes
  refine ⟨result, found, ?_, prepends⟩
  rw [prepends.text, text_ofBytes, List.append_nil]

theorem renders_ofUInt64? (radix : Radix) (value : UInt64) :
    Renders (·.ofUInt64? radix value) radix value.toNat radix.wordDigits := by
  have small : value.toNat < radix.base ^ radix.wordDigits :=
    Nat.lt_of_lt_of_le value.toNat_lt (by cases radix <;> decide)
  have short : (Numeral.ofNat radix value.toNat).length ≤ radix.wordDigits :=
    Numeral.length_ofNat_le (by cases radix <;> decide) small
  have fits : radix.wordDigits ≤ capacity := by cases radix <;> decide
  have denotes : Numeral.Denotes radix value.toNat (Numeral.ofNat radix value.toNat) :=
    (Numeral.denotes_iff_ofNat (Int.natCast_nonneg _)).mpr rfl
  exact renders_of_exists denotes short fun bytes => exists_storeDigits? (Nat.le_trans short fits)

theorem renders_ofInt64? (value : Int64) :
    Renders (·.ofInt64? value) .decimal value.toInt 20 := by
  -- the smallest word has no positive counterpart, but its magnitude is a number all the same
  have magnitude : value.toInt.natAbs < 10 ^ 19 := by
    have least := value.minValue_le_toInt
    have largest := value.toInt_le
    have bounds : Int64.minValue.toInt = -2 ^ 63 ∧ Int64.maxValue.toInt = 2 ^ 63 - 1 := ⟨rfl, rfl⟩
    omega
  have short : (Numeral.ofNat .decimal value.toInt.natAbs).length ≤ 19 :=
    Numeral.length_ofNat_le (by decide) magnitude
  have denotes : Numeral.Denotes .decimal value.toInt (Numeral.ofInt value.toInt) :=
    Numeral.denotes_iff_ofInt.mpr rfl
  have sign : value < 0 ↔ value.toInt < 0 := Int64.lt_iff_toInt_lt
  refine renders_of_exists denotes ?_ ?_
  · rw [Numeral.ofInt]
    split
    next => exact Nat.succ_le_succ short
    next => exact Nat.le_succ_of_le short
  intro bytes
  have room : (Numeral.ofNat .decimal value.toInt.natAbs).length ≤ (ofBytes bytes).start :=
    Nat.le_trans short (by simp [ofBytes, capacity])
  obtain ⟨stored, found, digits⟩ := exists_storeDigits? room
  by_cases negative : value.toInt < 0
  · have left : stored.start + _ = capacity := digits.start
    have capacity_eq : capacity = 32 := rfl
    obtain ⟨result, minus, front⟩ := exists_store? (by omega : 0 < stored.start) '-'.toUInt8
    refine ⟨result, ?_, ?_⟩
    · simp only [ofInt64?, found, Option.bind_some, storeSign?, sign, negative, decide_true,
        if_true, minus]
    · rw [Numeral.ofInt, if_pos negative]
      exact digits.trans front
  · refine ⟨stored, ?_, ?_⟩
    · simp only [ofInt64?, found, Option.bind_some, storeSign?, sign, negative, decide_false,
        Bool.false_eq_true, if_false]
    · rwa [Numeral.ofInt, if_neg negative]

/-- Two renderings leave the same text if and only if they are of the same integer. -/
theorem Renders.map_text_eq_iff {render other : Scratch → Option Scratch} {n m : Int}
    {limit bound : Nat} (h : Renders render radix n limit) (h' : Renders other radix m bound)
    (bytes before : Vector UInt8 capacity) :
    (render (ofBytes bytes)).map text = (other (ofBytes before)).map text ↔ n = m := by
  obtain ⟨numeral, denotes, -, succeeds⟩ := h
  obtain ⟨numeral', denotes', -, succeeds'⟩ := h'
  obtain ⟨result, found, holds, -⟩ := succeeds bytes
  obtain ⟨result', found', holds', -⟩ := succeeds' before
  rw [found, found', Option.map_some, Option.map_some, Option.some.injEq, holds, holds']
  constructor
  · rintro rfl
    exact denotes.eq_of_text denotes'
  · rintro rfl
    exact denotes.eq_text denotes'

/-- A word of 32 bits is rendered as what it is widened to. -/
theorem renders_ofUInt32? (radix : Radix) (value : UInt32) :
    Renders (·.ofUInt32? radix value) radix value.toNat radix.wordDigits := by
  have widened := renders_ofUInt64? radix value.toUInt64
  rwa [UInt32.toNat_toUInt64] at widened

theorem renders_ofInt32? (value : Int32) :
    Renders (·.ofInt32? value) .decimal value.toInt 20 := by
  have widened := renders_ofInt64? value.toInt64
  rwa [Int32.toInt_toInt64] at widened

theorem map_text_ofUInt64? (radix : Radix) (value : UInt64) (bytes : Vector UInt8 capacity) :
    ((ofBytes bytes).ofUInt64? radix value).map text =
      some (Numeral.ofNat radix value.toNat) := by
  obtain ⟨numeral, denotes, -, succeeds⟩ := renders_ofUInt64? radix value
  obtain ⟨result, found, holds, -⟩ := succeeds bytes
  have spelled : numeral = Numeral.ofNat radix value.toNat :=
    (Numeral.denotes_iff_ofNat (Int.natCast_nonneg _)).mp denotes
  have rendered : (ofBytes bytes).ofUInt64? radix value = some result := found
  rw [rendered, Option.map_some, holds, spelled]

/-- Integers are rendered as canonical numerals. Into any work area every word is rendered without
    running out of room, as the one text that denotes its value, of at most 20 bytes in base 10 and
    16 in base 16; what the area held before has no influence on it. A word of 32 bits gives the
    text of the widened word. In base 16 the two texts of a word differ in the case of the letters
    only, and values that are rendered in the same base have the same text only if they are the
    same. -/
theorem integers_render_canonically :
    (∀ radix value, Renders (·.ofUInt64? radix value) radix value.toNat radix.wordDigits) ∧
      (∀ value, Renders (·.ofInt64? value) .decimal value.toInt 20) ∧
      (∀ radix value, Renders (·.ofUInt32? radix value) radix value.toNat radix.wordDigits ∧
        ∀ bytes before, ((ofBytes bytes).ofUInt32? radix value).map text =
          ((ofBytes before).ofUInt64? radix value.toUInt64).map text) ∧
      (∀ value, Renders (·.ofInt32? value) .decimal value.toInt 20 ∧
        ∀ bytes before, ((ofBytes bytes).ofInt32? value).map text =
          ((ofBytes before).ofInt64? value.toInt64).map text) ∧
      ∀ bytes before,
        (∀ value, ((ofBytes bytes).ofUInt64? .upperHex value).map text =
          (((ofBytes before).ofUInt64? .lowerHex value).map text).map Bytes.toUpper) ∧
        (∀ radix value other, ((ofBytes bytes).ofUInt64? radix value).map text =
          ((ofBytes before).ofUInt64? radix other).map text ↔ value = other) ∧
        (∀ value other, ((ofBytes bytes).ofInt64? value).map text =
          ((ofBytes before).ofInt64? other).map text ↔ value = other) ∧
        ∀ (value : UInt64) (other : Int64), ((ofBytes bytes).ofUInt64? .decimal value).map text =
          ((ofBytes before).ofInt64? other).map text ↔ (value.toNat : Int) = other.toInt := by
  refine ⟨renders_ofUInt64?, renders_ofInt64?, ?_, ?_, ?_⟩
  · intro radix value
    refine ⟨renders_ofUInt32? radix value, ?_⟩
    intro bytes before
    have same := (renders_ofUInt32? radix value).map_text_eq_iff
      (renders_ofUInt64? radix value.toUInt64) bytes before
    exact same.mpr (by rw [UInt32.toNat_toUInt64])
  · intro value
    refine ⟨renders_ofInt32? value, ?_⟩
    intro bytes before
    have same := (renders_ofInt32? value).map_text_eq_iff (renders_ofInt64? value.toInt64) bytes
      before
    exact same.mpr (by rw [Int32.toInt_toInt64])
  · intro bytes before
    refine ⟨?_, ?_, ?_, ?_⟩
    · intro value
      rw [map_text_ofUInt64?, map_text_ofUInt64?, Option.map_some, Numeral.ofNat_upperHex]
    · intro radix value other
      have same := (renders_ofUInt64? radix value).map_text_eq_iff
        (renders_ofUInt64? radix other) bytes before
      rwa [Int.natCast_inj, UInt64.toNat_inj] at same
    · intro value other
      have same := (renders_ofInt64? value).map_text_eq_iff (renders_ofInt64? other) bytes before
      rwa [Int64.toInt_inj] at same
    · intro value other
      exact (renders_ofUInt64? .decimal value).map_text_eq_iff (renders_ofInt64? other) bytes
        before

end Scratch

end FormattedOutput
