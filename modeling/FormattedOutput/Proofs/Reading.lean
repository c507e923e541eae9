import FormattedOutput.Proofs.Modifiers

/-!
# What reading a directive recognises

Reading a directive finds exactly what the grammar has: greedy modifiers, as far as the format goes
on without a NUL, and the byte of a conversion behind them. The bytes behind that one are not looked
at, so a directive that is complete stays what it is, whatever follows it.
-/

namespace FormattedOutput

/-- The bytes that spell a conversion. -/
def Conversion.spellings : Conversion → Bytes
  | unsigned => ['u'.toUInt8]
  | signed => ['d'.toUInt8, 'i'.toUInt8]
  | lowerHex => ['x'.toUInt8]
  | upperHex => ['X'.toUInt8]
  | char => ['c'.toUInt8]
  | str => ['s'.toUInt8]
  | percent => ['%'.toUInt8]
  | count => ['n'.toUInt8]
  | float => ['f'.toUInt8]

/-- The bytes that may stand in the place of a conversion. -/
def Features.conversionBytes (features : Features) : Bytes :=
  ['u', 'd', 'i', 'x', 'X', 'c', 's', '%', 'n'].map Char.toUInt8 ++
    optionally 'f'.toUInt8 features.float

variable {features : Features}

namespace Conversion

variable {byte : UInt8} {conversion : Conversion}

theorem ofByte?_zero (features : Features) : ofByte? features 0 = none := rfl

theorem mem_of_ofByte?_eq_some (found : ofByte? features byte = some conversion) :
    byte ∈ conversion.spellings ∧ byte ∈ features.conversionBytes := by
  have spelled : byte = (Char.ofUInt8 byte).toUInt8 := (UInt8.toUInt8_toUInt32 byte).symm
  simp only [ofByte?] at found
  split at found
  case h_10 =>
    rename_i character
    cases float : features.float with
    | false => simp [float] at found
    | true =>
      rw [float, if_pos rfl] at found
      cases found
      rw [spelled, character]
      simp [spellings, Features.conversionBytes, float]
  case h_11 => cases found
  all_goals
    rename_i character
    cases found
    rw [spelled, character]
    simp [spellings, Features.conversionBytes]

theorem ofByte?_eq_none_iff : ofByte? features byte = none ↔ byte ∉ features.conversionBytes := by
  constructor
  · intro unknown member
    have known : ∀ byte ∈ features.conversionBytes, ofByte? features byte ≠ none := by
      obtain ⟨long, float⟩ := features
      cases long <;> cases float <;> decide +kernel
    exact known byte member unknown
  · intro absent
    cases found : ofByte? features byte with
    | none => rfl
    | some conversion => exact absurd (mem_of_ofByte?_eq_some found).2 absent

end Conversion

namespace Directive

variable {modifiers : Modifiers} {rest spec : Bytes}

/-- A NUL behind the rest, and what follows it, changes nothing. -/
theorem read_of_untilNul (greedy : modifiers.GreedyBefore features rest)
    (spelled : modifiers.text ++ rest = spec.untilNul) :
    read features spec = modifiers.conclude features rest := by
  obtain ⟨tail, whole, ends⟩ := spec.exists_eq_untilNul_append
  rw [whole, ← spelled, List.append_assoc, read_text_append (greedy.append_of_ends ends),
    Modifiers.conclude_append_of_ends ends]

theorem conclude_eq_truncated_iff (nulFree : 0 ∉ rest) :
    modifiers.conclude features rest = .truncated ↔ rest = [] := by
  cases rest with
  | nil => simp [Modifiers.conclude]
  | cons byte after =>
    have nonzero : byte ≠ 0 := fun nul => nulFree (nul ▸ List.mem_cons_self)
    simp only [Modifiers.conclude, nonzero, if_false, reduceCtorEq, iff_false]
    split <;> simp

section Complete

variable {byte : UInt8} {conversion : Conversion}

/-- Modifiers and the byte of a conversion are a directive, whatever follows them. -/
theorem read_of_conversion (greedy : modifiers.GreedyBefore features [byte])
    (supported : Conversion.ofByte? features byte = some conversion) (after : Bytes) :
    read features (modifiers.text ++ byte :: after) =
      .directive (modifiers.directive conversion) (modifiers.text.length + 1) := by
  have nonzero : byte ≠ 0 := by
    rintro rfl
    rw [Conversion.ofByte?_zero] at supported
    cases supported
  have behind : modifiers.GreedyBefore features (byte :: after) := greedy.congr rfl
  rw [read_text_append behind]
  simp only [Modifiers.conclude, nonzero, if_false, supported]

/-- What is read as a directive consists of modifiers and the byte of a conversion. -/
theorem exists_of_read_eq_directive {directive : Directive} {length : Nat}
    (found : read features spec = .directive directive length) :
    ∃ (modifiers : Modifiers) (byte : UInt8) (conversion : Conversion) (after : Bytes),
      spec = modifiers.text ++ byte :: after ∧ modifiers.GreedyBefore features [byte] ∧
      Conversion.ofByte? features byte = some conversion ∧
      directive = modifiers.directive conversion ∧ length = modifiers.text.length + 1 := by
  have whole := Modifiers.text_split features spec
  have greedy := Modifiers.split_greedyBefore features spec
  rw [read_eq_conclude] at found
  generalize (Modifiers.split features spec).1 = modifiers at whole greedy found
  cases behind : (Modifiers.split features spec).2 with
  | nil =>
    rw [behind] at found
    cases found
  | cons byte after =>
    rw [behind] at whole greedy found
    simp only [Modifiers.conclude] at found
    split at found
    next => cases found
    next =>
      split at found
      next => cases found
      next conversion supported =>
        cases found
        exact ⟨modifiers, byte, conversion, after, whole.symm, greedy.congr rfl, supported, rfl,
          rfl⟩

/-- A directive is complete with its last byte: what follows it is not looked at. -/
theorem read_of_take_eq {directive : Directive} {length : Nat} {other : Bytes}
    (found : read features spec = .directive directive length)
    (same : other.take length = spec.take length) :
    read features other = .directive directive length := by
  obtain ⟨modifiers, byte, conversion, after, whole, greedy, supported, rfl, rfl⟩ :=
    exists_of_read_eq_directive found
  have begins : spec.take (modifiers.text.length + 1) = modifiers.text ++ [byte] := by
    rw [whole, ← List.singleton_append, ← List.append_assoc]
    exact List.take_left' (by simp)
  have spelled : other =
      modifiers.text ++ byte :: other.drop (modifiers.text.length + 1) := by
    calc other = other.take (modifiers.text.length + 1) ++
          other.drop (modifiers.text.length + 1) := (List.take_append_drop _ other).symm
      _ = modifiers.text ++ byte :: other.drop (modifiers.text.length + 1) := by
          rw [same, begins, List.append_assoc, List.singleton_append]
  rw [spelled]
  exact read_of_conversion greedy supported _

end Complete

theorem width_directive (modifiers : Modifiers) (conversion : Conversion) :
    (modifiers.directive conversion).width = (if modifiers.left then -1 else 1) *
        (min modifiers.digits.decimalValue maxCount : Nat) ∧
      Int32.minValue.toInt < (modifiers.directive conversion).width := by
  have capped : min modifiers.digits.decimalValue maxCount ≤ 2 ^ 31 - 1 := Nat.min_le_right _ _
  have least : Int32.minValue.toInt = -2 ^ 31 := rfl
  simp only [Modifiers.directive, Modifiers.width]
  split <;> omega

/-- Every text is split in one way into greedy modifiers and a rest, as far as its first NUL, and
    the split decides what is read: nothing complete if there is no rest, an unsupported byte if the
    rest does not begin with that of a conversion, and else the directive that the modifiers and the
    conversion spell, with a width of 31 bits and whatever follows it. -/
theorem read_recognises (features : Features) (spec : Bytes) :
    (∃! parts : Modifiers × Bytes,
      parts.1.GreedyBefore features parts.2 ∧ parts.1.text ++ parts.2 = spec.untilNul) ∧
    ∀ (modifiers : Modifiers) (rest : Bytes), modifiers.GreedyBefore features rest →
      modifiers.text ++ rest = spec.untilNul →
        (read features spec = .truncated ↔ rest = []) ∧
        ∀ byte after, rest = byte :: after →
          (read features spec = .unsupported byte ↔ byte ∉ features.conversionBytes) ∧
          (byte ∈ features.conversionBytes →
            ∃ directive, read features spec = .directive directive (modifiers.text.length + 1) ∧
              modifiers.text.length + 1 ≤ spec.length ∧
              byte ∈ directive.conversion.spellings ∧
              (directive.pad = .zero ↔ modifiers.zero = true) ∧
              directive.long = modifiers.long ∧
              directive.width = (if modifiers.left then -1 else 1) *
                (min modifiers.digits.decimalValue maxCount : Nat) ∧
              Int32.minValue.toInt < directive.width ∧
              ∀ other : Bytes,
                other.take (modifiers.text.length + 1) = spec.take (modifiers.text.length + 1) →
                  read features other = .directive directive (modifiers.text.length + 1)) := by
  refine ⟨?_, ?_⟩
  · refine ⟨Modifiers.split features spec.untilNul,
      ⟨Modifiers.split_greedyBefore features _, Modifiers.text_split features _⟩, ?_⟩
    rintro ⟨modifiers, rest⟩ ⟨greedy, spelled⟩
    obtain ⟨rfl, rfl⟩ := greedy.unique (Modifiers.split_greedyBefore features _)
      (spelled.trans (Modifiers.text_split features _).symm)
    rfl
  · intro modifiers rest greedy spelled
    have found := read_of_untilNul greedy spelled
    have nulFree : 0 ∉ rest := fun member =>
      spec.zero_notMem_untilNul (spelled ▸ List.mem_append_right _ member)
    refine ⟨?_, ?_⟩
    · rw [found]
      exact conclude_eq_truncated_iff nulFree
    · rintro byte after rfl
      have nonzero : byte ≠ 0 := fun nul => nulFree (nul ▸ List.mem_cons_self)
      simp only [Modifiers.conclude, nonzero, if_false] at found
      cases supported : Conversion.ofByte? features byte with
      | none =>
        have absent := Conversion.ofByte?_eq_none_iff.mp supported
        simp only [supported] at found
        exact ⟨iff_of_true found absent, fun member => absurd member absent⟩
      | some conversion =>
        obtain ⟨spells, member⟩ := Conversion.mem_of_ofByte?_eq_some supported
        obtain ⟨width, bounded⟩ := width_directive modifiers conversion
        simp only [supported] at found
        refine ⟨iff_of_false (by simp [found]) (not_not.mpr member), fun _ => ?_⟩
        refine ⟨modifiers.directive conversion, found, ?_, spells, ?_, rfl, width, bounded, ?_⟩
        · have shorter : spec.untilNul.length ≤ spec.length :=
            (List.takeWhile_sublist _).length_le
          rw [← spelled, List.length_append, List.length_cons] at shorter
          omega
        · cases zero : modifiers.zero <;> simp [Modifiers.directive, zero]
        · intro other same
          exact read_of_take_eq found same

/-- All modifiers, with more digits than 31 bits hold, in front of a conversion and a NUL. -/
theorem read_recognises_capped :
    let spec := Bytes.ofString "-09876543210lX%\x00d"
    let modifiers : Modifiers := ⟨true, true, Bytes.ofString "9876543210", true⟩
    (modifiers.GreedyBefore .full (Bytes.ofString "X%") ∧
        modifiers.text ++ Bytes.ofString "X%" = spec.untilNul) ∧
      ∃ directive, read .full spec = .directive directive 14 ∧ directive.width = -2147483647 := by
  intro spec modifiers
  have split : Modifiers.split .full spec.untilNul = (modifiers, Bytes.ofString "X%") := by
    decide +kernel
  have greedy := Modifiers.split_greedyBefore .full spec.untilNul
  have spelled := Modifiers.text_split .full spec.untilNul
  rw [split] at greedy spelled
  have supported : 'X'.toUInt8 ∈ Features.full.conversionBytes := by decide
  obtain ⟨directive, found, -, -, -, -, width, -⟩ :=
    (((read_recognises .full spec).2 modifiers _ greedy spelled).2 _ _ rfl).2 supported
  refine ⟨⟨greedy, spelled⟩, directive, found, ?_⟩
  rw [width]
  decide +kernel

end Directive

end FormattedOutput
