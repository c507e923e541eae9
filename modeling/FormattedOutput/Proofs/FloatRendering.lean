import FormattedOutput.Proofs.DecimalSplit
import FormattedOutput.Proofs.IntegerRendering

/-!
# Binary64 values in a work area

Rendering a binary64 value stores the millionths, the point and the integer part from the last digit
on, behind them the exponent of a large magnitude and in front of them the sign. Whatever the area
held before, there is always room, and what is in use in the end has one of three shapes: a word, a
decimal in fixed point, or such a decimal with one leading digit and an exponent.
-/

namespace FormattedOutput

namespace Numeral

theorem mem_lastDigits {digit : UInt8} (count n : Nat) (member : digit ∈ lastDigits count n) :
    digit ∈ Radix.decimal.digits := by
  induction count generalizing n with
  | zero => cases member
  | succ count ih =>
    rcases List.mem_append.mp member with front | last
    · exact ih (n / 10) front
    · rw [List.mem_singleton.mp last]
      exact (Radix.digit_spells (Nat.mod_lt n (by decide))).1

/-- So many last digits spell the remainder by that power of ten. -/
theorem value_lastDigits (count n : Nat) :
    value .decimal (lastDigits count n) = n % 10 ^ count := by
  induction count generalizing n with
  | zero => exact (Nat.mod_one n).symm
  | succ count ih =>
    have last : Radix.decimal.digitValue (Radix.decimal.digit (n % 10)) = n % 10 :=
      (Radix.digit_spells (Nat.mod_lt n (by decide))).2
    calc value .decimal (lastDigits (count + 1) n)
        = n / 10 % 10 ^ count * 10 + n % 10 := by
          rw [lastDigits, value_append_singleton, ih, last]
          rfl
      _ = n % 10 ^ (count + 1) := by
          rw [Nat.pow_succ', Nat.mod_mul]
          omega

end Numeral

namespace Binary64

variable {x : Binary64} {magnitude : Nat} {decimal : Decimal} {negative : Bool}

attribute [local irreducible] one half

/-- The value with its sign bit set or cleared. -/
def withSign (negative : Bool) (x : Binary64) : Binary64 :=
  ⟨UInt64.ofNat (x.bits.toNat % signWeight + if negative then signWeight else 0)⟩

theorem toNat_bits_withSign (negative : Bool) (x : Binary64) :
    (x.withSign negative).bits.toNat =
      x.bits.toNat % signWeight + if negative then signWeight else 0 := by
  have weight : signWeight = 2 ^ 63 := rfl
  have rest : x.bits.toNat % signWeight < signWeight := Nat.mod_lt _ (by decide)
  rw [withSign, UInt64.toNat_ofNat']
  apply Nat.mod_eq_of_lt
  split <;> omega

@[simp]
theorem isNegative_withSign : (x.withSign negative).isNegative = negative := by
  have rest : x.bits.toNat % signWeight < signWeight := Nat.mod_lt _ (by decide)
  rw [isNegative, toNat_bits_withSign]
  cases negative <;> simp [rest]

@[simp]
theorem fractionField_withSign : (x.withSign negative).fractionField = x.fractionField := by
  rw [fractionField, fractionField, toNat_bits_withSign, fractionCount, signWeight]
  split <;> omega

@[simp]
theorem exponentField_withSign : (x.withSign negative).exponentField = x.exponentField := by
  rw [exponentField, exponentField, toNat_bits_withSign, fractionCount, signWeight, exponentCount]
  split <;> omega

@[simp]
theorem withSign_isNegative (x : Binary64) : x.withSign x.isNegative = x := by
  have bits := x.bits.toNat_lt
  have same : (x.withSign x.isNegative).bits.toNat = x.bits.toNat := by
    rw [toNat_bits_withSign]
    by_cases set : signWeight ≤ x.bits.toNat
    · rw [isNegative, decide_eq_true set, if_pos rfl]
      rw [signWeight] at set ⊢
      omega
    · rw [isNegative, decide_eq_false set, if_neg Bool.false_ne_true]
      rw [signWeight] at set ⊢
      omega
  cases x
  exact congrArg mk (UInt64.toNat_inj.mp same)

/-- The text of the magnitude of a number. -/
def unsignedText (x : Binary64) : Bytes :=
  if x.isInfinite then Bytes.ofString "inf" else magnitudeText x.quanta

theorem text_withSign (number : x.isNaN = false) (negative : Bool) :
    (x.withSign negative).text =
      if negative then '-'.toUInt8 :: x.unsignedText else x.unsignedText := by
  have number' : (x.withSign negative).isNaN = false := by
    rw [← number, isNaN, isNaN, exponentField_withSign, fractionField_withSign]
  have infinite : (x.withSign negative).isInfinite = x.isInfinite := by
    rw [isInfinite, isInfinite, exponentField_withSign, fractionField_withSign]
  have quanta_eq : (x.withSign negative).quanta = x.quanta := by
    rw [quanta, quanta, exponentField_withSign, fractionField_withSign]
  rw [text, number', isNegative_withSign, infinite, quanta_eq, if_neg Bool.false_ne_true]
  rfl

/-- A text is a decimal in fixed point: the canonical numeral of its integer part, of at most
    `limit` digits, the point, and six digits that spell its millionths. -/
def IsFixedPoint (limit : Nat) (decimal : Decimal) (text : Bytes) : Prop :=
  ∃ whole fraction, text = whole ++ '.'.toUInt8 :: fraction ∧
    Numeral.Canonical .decimal decimal.whole whole ∧ whole.length ≤ limit ∧
    fraction.length = 6 ∧ (∀ digit ∈ fraction, digit ∈ Radix.decimal.digits) ∧
    Numeral.value .decimal fraction = decimal.fraction

theorem isFixedPoint_fixedText {limit : Nat} (positive : 0 < limit)
    (small : decimal.whole < 10 ^ limit) (proper : decimal.fraction < fractionScale) :
    IsFixedPoint limit decimal (fixedText decimal) := by
  refine ⟨_, _, rfl, Numeral.canonical_ofNat _ _, Numeral.length_ofNat_le positive small,
    Numeral.length_lastDigits _ _, fun digit => Numeral.mem_lastDigits _ _, ?_⟩
  rw [Numeral.value_lastDigits]
  exact Nat.mod_eq_of_lt proper

theorem IsFixedPoint.length_le {limit : Nat} {text : Bytes} (h : IsFixedPoint limit decimal text) :
    text.length ≤ limit + 7 := by
  obtain ⟨whole, fraction, rfl, -, short, six, -⟩ := h
  rw [List.length_append, List.length_cons, six]
  omega

/-- A text is the magnitude of a number as it is written: infinity as a word, a magnitude below
    `2 ^ 64` in fixed point, and any other in fixed point with one digit from one to nine in front
    of the point, and with the canonical numeral of an exponent from 19 to 308. In either case the
    six decimals are enough for the fraction that the rounding has left. -/
def WritesMagnitude (x : Binary64) (text : Bytes) : Prop :=
  if x.isInfinite then text = Bytes.ofString "inf"
  else if x.quanta < UInt64.size * one then
    (split x.quanta).fraction < 10 ^ 6 ∧ IsFixedPoint 20 (split x.quanta) text
  else
    (1 ≤ (scientific x.quanta).1.whole ∧ (scientific x.quanta).1.whole ≤ 9) ∧
      (scientific x.quanta).1.fraction < 10 ^ 6 ∧
      (19 ≤ (scientific x.quanta).2 ∧ (scientific x.quanta).2 ≤ 308) ∧
      ∃ mantissa exponent, text = mantissa ++ Bytes.ofString "e+" ++ exponent ∧
        IsFixedPoint 1 (scientific x.quanta).1 mantissa ∧
        Numeral.Canonical .decimal (scientific x.quanta).2 exponent

theorem finite_of_isNaN_eq_false (number : x.isNaN = false) (finite : ¬ x.isInfinite) :
    x.exponentField + 1 ≠ exponentCount := by
  intro full
  by_cases fraction : x.fractionField = 0
  · exact finite (by simp [isInfinite, full, fraction])
  · simp [isNaN, full, fraction] at number

theorem magnitudeText_of_lt (small : magnitude < UInt64.size * one) :
    magnitudeText magnitude = fixedText (split magnitude) :=
  if_pos small

theorem magnitudeText_of_not_lt (large : ¬ magnitude < UInt64.size * one) :
    magnitudeText magnitude = fixedText (scientific magnitude).1 ++ Bytes.ofString "e+"
      ++ Numeral.ofNat .decimal (scientific magnitude).2 :=
  if_neg large

theorem writesMagnitude_unsignedText (number : x.isNaN = false) :
    x.WritesMagnitude x.unsignedText := by
  rw [WritesMagnitude, unsignedText]
  split
  next => rfl
  next finite =>
    have held := x.quanta_representable
    have bound := x.quanta_lt_of_finite (finite_of_isNaN_eq_false number finite)
    generalize x.quanta = magnitude at held bound
    split
    next small =>
      have proper := fraction_split_lt held small
      have digits : (split magnitude).whole < 10 ^ 20 :=
        Nat.lt_trans (whole_split_lt held small) (by decide)
      rw [magnitudeText_of_lt small]
      exact ⟨proper, isFixedPoint_fixedText (by decide) digits proper⟩
    next large =>
      obtain ⟨lead, proper, exponent⟩ := scientific_mem (Nat.le_of_not_lt large) bound
      have digit : (scientific magnitude).1.whole < 10 ^ 1 := Nat.lt_succ_of_le lead.2
      rw [magnitudeText_of_not_lt large]
      exact ⟨lead, proper, exponent, _, _, rfl, isFixedPoint_fixedText (by decide) digit proper,
        Numeral.canonical_ofNat _ _⟩

/-- Without its sign the text of a number has at most 27 bytes. -/
theorem WritesMagnitude.length_le {text : Bytes} (h : x.WritesMagnitude text) :
    text.length ≤ 27 := by
  rw [WritesMagnitude] at h
  split at h
  next => rw [h]; decide
  next =>
    split at h
    next => exact h.2.length_le
    next =>
      obtain ⟨-, -, ⟨-, greatest⟩, mantissa, exponent, rfl, fixed, canonical⟩ := h
      have front := fixed.length_le
      have back : exponent.length ≤ 3 := by
        rw [canonical.eq_ofNat]
        exact Numeral.length_ofNat_le (by decide) (Nat.lt_of_le_of_lt greatest (by decide))
      have middle : (Bytes.ofString "e+").length = 2 := by decide
      rw [List.length_append, List.length_append, middle]
      omega

/-- The text of a number is that of its magnitude, with a minus sign if the sign bit is set. -/
theorem text_of_number (number : x.isNaN = false) :
    x.text = if x.isNegative then '-'.toUInt8 :: x.unsignedText else x.unsignedText := by
  have whole := text_withSign number x.isNegative
  rwa [withSign_isNegative] at whole

theorem length_text_le (x : Binary64) : x.text.length ≤ 28 := by
  cases number : x.isNaN with
  | true =>
    rw [text, if_pos number]
    decide
  | false =>
    have short := (writesMagnitude_unsignedText number).length_le
    rw [text_of_number number]
    split
    next => exact Nat.succ_le_succ short
    next => exact Nat.le_succ_of_le short

end Binary64

namespace Scratch

variable {area : Scratch} {decimal : Binary64.Decimal} {text : Bytes}

theorem exists_storeAll? (room : text.length ≤ area.start) :
    ∃ result, area.storeAll? text = some result ∧ area.Prepends text result := by
  induction text with
  | nil => exact ⟨area, rfl, rfl, rfl, rfl⟩
  | cons byte rest ih =>
    rw [List.length_cons] at room
    obtain ⟨stored, found, back⟩ := ih (Nat.le_of_succ_le room)
    have left := back.start
    obtain ⟨result, first, front⟩ := exists_store? (by omega : 0 < stored.start) byte
    refine ⟨result, ?_, back.trans front⟩
    rw [storeAll?, found, Option.bind_some, first]

theorem exists_storeLastDigits? {count : Nat} (room : count ≤ area.start) (n : Nat) :
    ∃ result, area.storeLastDigits? count n = some result ∧
      area.Prepends (Numeral.lastDigits count n) result := by
  induction count generalizing area n with
  | zero => exact ⟨area, rfl, rfl, rfl, rfl⟩
  | succ count ih =>
    obtain ⟨stored, found, last⟩ := exists_store? (Nat.lt_of_lt_of_le (Nat.succ_pos count) room)
      (Radix.decimal.digit (n % 10))
    have left := last.start
    rw [List.length_singleton] at left
    obtain ⟨result, others, front⟩ := ih (by omega : count ≤ stored.start) (n / 10)
    refine ⟨result, ?_, last.trans front⟩
    rw [storeLastDigits?, found, Option.bind_some, others]

theorem exists_storeFixed? (room : (Binary64.fixedText decimal).length ≤ area.start) :
    ∃ result, area.storeFixed? decimal = some result ∧
      area.Prepends (Binary64.fixedText decimal) result := by
  rw [Binary64.fixedText, List.length_append, List.length_cons, Numeral.length_lastDigits] at room
  obtain ⟨decimals, found, back⟩ := exists_storeLastDigits?
    (by omega : Binary64.fractionDigits ≤ area.start) decimal.fraction
  have behind := back.start
  rw [Numeral.length_lastDigits] at behind
  obtain ⟨pointed, point, middle⟩ := exists_store? (by omega : 0 < decimals.start) '.'.toUInt8
  have left := middle.start
  rw [List.length_singleton] at left
  obtain ⟨result, digits, front⟩ := exists_storeDigits?
    (by omega : (Numeral.ofNat .decimal decimal.whole).length ≤ pointed.start)
  refine ⟨result, ?_, (back.trans middle).trans front⟩
  simp only [storeFixed?, found, point, digits, Option.bind_eq_bind, Option.bind_some]

/-- The exponent is stored first, then its mark, and the decimal in front of both. -/
theorem exists_storeExponent? {exponent : Nat}
    (room : (Binary64.fixedText decimal ++ Bytes.ofString "e+"
      ++ Numeral.ofNat .decimal exponent).length ≤ area.start) :
    ∃ result, ((area.storeDigits? .decimal exponent).bind fun area =>
        (area.storeAll? (Bytes.ofString "e+")).bind (·.storeFixed? decimal)) = some result ∧
      area.Prepends (Binary64.fixedText decimal ++ Bytes.ofString "e+"
        ++ Numeral.ofNat .decimal exponent) result := by
  rw [List.length_append, List.length_append] at room
  obtain ⟨digits, found, back⟩ := exists_storeDigits?
    (by omega : (Numeral.ofNat .decimal exponent).length ≤ area.start)
  have behind := back.start
  obtain ⟨marked, mark, middle⟩ := exists_storeAll?
    (by omega : (Bytes.ofString "e+").length ≤ digits.start)
  have left := middle.start
  obtain ⟨result, fixed, front⟩ := exists_storeFixed?
    (by omega : (Binary64.fixedText decimal).length ≤ marked.start)
  refine ⟨result, ?_, ?_⟩
  · rw [found, Option.bind_some, mark, Option.bind_some, fixed]
  · rw [List.append_assoc]
    exact (back.trans middle).trans front

theorem exists_storeMagnitude? {magnitude : Nat}
    (room : (Binary64.magnitudeText magnitude).length ≤ area.start) :
    ∃ result, area.storeMagnitude? magnitude = some result ∧
      area.Prepends (Binary64.magnitudeText magnitude) result := by
  rw [storeMagnitude?]
  split
  next small =>
    rw [Binary64.magnitudeText_of_lt small] at room ⊢
    exact exists_storeFixed? room
  next large =>
    rw [Binary64.magnitudeText_of_not_lt large] at room ⊢
    exact exists_storeExponent? room

/-- There is room for the magnitude of a number in front of what is left of the area. -/
theorem exists_storeUnsigned? {x : Binary64} (number : x.isNaN = false)
    (room : 27 ≤ area.start) :
    ∃ result, (if x.isInfinite then area.storeAll? (Bytes.ofString "inf")
        else area.storeMagnitude? x.quanta) = some result ∧
      area.Prepends x.unsignedText result := by
  have fits := Nat.le_trans (Binary64.writesMagnitude_unsignedText number).length_le room
  rw [Binary64.unsignedText] at fits ⊢
  split at fits
  next infinite =>
    rw [if_pos infinite, if_pos infinite]
    exact exists_storeAll? fits
  next finite =>
    rw [if_neg finite, if_neg finite]
    exact exists_storeMagnitude? fits

theorem ofBinary64?_of_number {x : Binary64} (number : x.isNaN = false) (area : Scratch) :
    area.ofBinary64? x = (if x.isInfinite then area.storeAll? (Bytes.ofString "inf")
      else area.storeMagnitude? x.quanta).bind (·.storeSign? x.isNegative) := by
  rw [ofBinary64?, number, if_neg Bool.false_ne_true]
  split <;> rfl

theorem exists_storeSign? (room : 0 < area.start) (negative : Bool) :
    ∃ result, area.storeSign? negative = some result ∧
      area.Prepends (if negative then ['-'.toUInt8] else []) result := by
  cases negative with
  | true => exact exists_store? room _
  | false => exact ⟨area, rfl, rfl, rfl, rfl⟩

/-- Rendering a value into any work area succeeds and leaves the text of the value. -/
theorem map_text_ofBinary64? (bytes : Vector UInt8 capacity) (x : Binary64) :
    ((ofBytes bytes).ofBinary64? x).map Scratch.text = some x.text := by
  cases number : x.isNaN with
  | true =>
    have room : (Bytes.ofString "nan").length ≤ (ofBytes bytes).start :=
      (by decide : (Bytes.ofString "nan").length ≤ capacity)
    obtain ⟨result, found, prepends⟩ := exists_storeAll? room
    rw [ofBinary64?, Binary64.text, if_pos number, if_pos number, found, Option.map_some,
      prepends.text, text_ofBytes, List.append_nil]
  | false =>
    have room : 27 ≤ (ofBytes bytes).start := (by decide : 27 ≤ capacity)
    obtain ⟨stored, found, unsigned⟩ := exists_storeUnsigned? number room
    have short := (Binary64.writesMagnitude_unsignedText number).length_le
    have left : stored.start + x.unsignedText.length = 32 := unsigned.start
    obtain ⟨result, signed, front⟩ :=
      exists_storeSign? (by omega : 0 < stored.start) x.isNegative
    rw [ofBinary64?_of_number number, found, Option.bind_some, signed, Option.map_some,
      (unsigned.trans front).text, text_ofBytes, List.append_nil, Binary64.text_of_number number]
    generalize x.unsignedText = magnitude
    cases x.isNegative with
    | true => rfl
    | false => rfl

/-- Binary64 values are rendered in a well-formed way. Into any work area every value is rendered
    without running out of room, as a text that does not depend on what the area held before. It is
    one word for all values that are not a number. The text of any other has at most 28 bytes: the
    magnitude as it is written, with a minus sign in front if and only if the sign bit is set, also
    on zero. -/
theorem floats_render_well_formed :
    (∀ x : Binary64, ∃ text : Bytes,
      (∀ bytes, ((ofBytes bytes).ofBinary64? x).map Scratch.text = some text) ∧
        if x.isNaN then text = Bytes.ofString "nan"
        else text.length ≤ 28 ∧ ∃ unsigned, x.WritesMagnitude unsigned ∧
          text = (if x.isNegative then '-'.toUInt8 :: unsigned else unsigned) ∧
          ∀ bytes, ((ofBytes bytes).ofBinary64? (x.withSign false)).map Scratch.text =
              some unsigned ∧
            ((ofBytes bytes).ofBinary64? (x.withSign true)).map Scratch.text =
              some ('-'.toUInt8 :: unsigned)) ∧
      ∀ bytes, ((ofBytes bytes).ofBinary64? ⟨0x8000000000000000⟩).map Scratch.text =
        some (Bytes.ofString "-0.000000") := by
  refine ⟨?_, ?_⟩
  · intro x
    refine ⟨x.text, fun bytes => map_text_ofBinary64? bytes x, ?_⟩
    split
    next nan => rw [Binary64.text, if_pos nan]
    next number =>
      have number := Bool.not_eq_true _ ▸ number
      refine ⟨x.length_text_le, x.unsignedText, Binary64.writesMagnitude_unsignedText number,
        Binary64.text_of_number number, ?_⟩
      intro bytes
      rw [map_text_ofBinary64?, map_text_ofBinary64?, Binary64.text_withSign number,
        Binary64.text_withSign number, if_neg Bool.false_ne_true, if_pos rfl]
      exact ⟨rfl, rfl⟩
  · intro bytes
    rw [map_text_ofBinary64?, Option.some.injEq]
    decide +kernel

end Scratch

end FormattedOutput
