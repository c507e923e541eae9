import FormattedOutput.Directive
import Mathlib.Tactic.Common

/-!
# The grammar of directives

What stands between a percent sign and a conversion are the modifiers of a directive: an optional
minus sign, an optional zero, digits and an optional marker `l`. A text is split into modifiers and
a rest in exactly one way if every part is to be taken greedily. Reading a directive is this split
followed by a look at the first byte of the rest.
-/

namespace FormattedOutput

/-- The text of an optional element. -/
def optionally {α : Type} (element : α) (present : Bool) : List α :=
  if present then [element] else []

@[simp] theorem optionally_true {α : Type} (element : α) :
    optionally element true = [element] := rfl

@[simp] theorem optionally_false {α : Type} (element : α) :
    optionally element false = [] := rfl

section Optional

variable {α : Type} [DecidableEq α] {wanted : α}

theorem optionally_takeOptional (wanted : α) (text : List α) :
    optionally wanted (takeOptional wanted text).1 ++ (takeOptional wanted text).2 = text := by
  cases text with
  | nil => rfl
  | cons found rest => by_cases same : found = wanted <;> simp [takeOptional, same]

theorem head?_takeOptional {text : List α} (absent : (takeOptional wanted text).1 = false) :
    (takeOptional wanted text).2.head? ≠ some wanted := by
  cases text with
  | nil => simp [takeOptional]
  | cons found rest =>
    by_cases same : found = wanted
    · simp [takeOptional, same] at absent
    · simp [takeOptional, same]

/-- An optional element is found again if it is there, or if the rest does not begin with it. -/
theorem takeOptional_optionally {present : Bool} {rest : List α}
    (greedy : present = false → rest.head? ≠ some wanted) :
    takeOptional wanted (optionally wanted present ++ rest) = (present, rest) := by
  cases present with
  | true => simp [takeOptional]
  | false =>
    cases rest with
    | nil => rfl
    | cons found rest =>
      have different : found ≠ wanted := by simpa using greedy rfl
      simp [takeOptional, different]

end Optional

namespace Bytes

/-- The value of a run of decimal digits, the most significant one first. -/
def decimalValue (digits : Bytes) : Nat :=
  digits.foldl (fun value digit => value * 10 + digitValue digit) 0

theorem exists_eq_untilNul_append (bytes : Bytes) :
    ∃ tail : Bytes, bytes = bytes.untilNul ++ tail ∧
      (tail.head? = none ∨ tail.head? = some 0) := by
  refine ⟨bytes.dropWhile (· ≠ 0), (List.takeWhile_append_dropWhile).symm, ?_⟩
  have stop := List.head?_dropWhile_not (fun byte : UInt8 => decide (byte ≠ 0)) bytes
  cases first : (bytes.dropWhile (· ≠ 0)).head? with
  | none => exact Or.inl rfl
  | some byte =>
    rw [first] at stop
    exact Or.inr (by simpa using stop)

end Bytes

/-- Cutting the width after every digit is cutting the value of all digits once. -/
theorem Directive.widthOf_eq (digits : Bytes) :
    widthOf digits = min digits.decimalValue maxCount := by
  have step : ∀ value digit,
      widen (min value maxCount) digit = min (value * 10 + Bytes.digitValue digit) maxCount := by
    intro value digit
    simp only [widen]
    omega
  have run : ∀ value, digits.foldl widen (min value maxCount) =
      min (digits.foldl (fun value digit => value * 10 + Bytes.digitValue digit) value)
        maxCount := by
    induction digits with
    | nil => intro value; rfl
    | cons digit rest ih =>
      intro value
      rw [List.foldl_cons, List.foldl_cons, step, ih]
  simpa [widthOf, Bytes.decimalValue] using run 0

/-- What stands between a percent sign and a conversion. -/
structure Modifiers where
  left : Bool
  zero : Bool
  digits : Bytes
  long : Bool
  deriving DecidableEq, Repr

namespace Modifiers

/-- The bytes that spell the modifiers. -/
def text (modifiers : Modifiers) : Bytes :=
  optionally '-'.toUInt8 modifiers.left ++ (optionally '0'.toUInt8 modifiers.zero ++
    (modifiers.digits ++ optionally 'l'.toUInt8 modifiers.long))

/-- The width: the value of the digits as far as `maxCount`, negative after a minus sign. -/
def width (modifiers : Modifiers) : Int :=
  let magnitude : Int := (min modifiers.digits.decimalValue maxCount : Nat)
  if modifiers.left then -magnitude else magnitude

/-- The directive that the modifiers and a conversion make. -/
def directive (modifiers : Modifiers) (conversion : Conversion) : Directive where
  pad := if modifiers.zero then .zero else .space
  width := modifiers.width
  long := modifiers.long
  conversion := conversion

/-- The modifiers belong to the grammar, and in front of `rest` each of them is taken greedily. -/
structure GreedyBefore (features : Features) (modifiers : Modifiers) (rest : Bytes) : Prop where
  digits : ∀ digit ∈ modifiers.digits, Bytes.isDigit digit = true
  long : modifiers.long = true → features.long = true
  minus_taken : modifiers.left = false →
    (optionally '0'.toUInt8 modifiers.zero ++ (modifiers.digits ++
      (optionally 'l'.toUInt8 modifiers.long ++ rest))).head? ≠ some '-'.toUInt8
  zero_taken : modifiers.zero = false →
    (modifiers.digits ++ (optionally 'l'.toUInt8 modifiers.long ++ rest)).head? ≠
      some '0'.toUInt8
  digits_taken : ∀ byte, (optionally 'l'.toUInt8 modifiers.long ++ rest).head? = some byte →
    Bytes.isDigit byte = false
  long_taken : features.long = true → modifiers.long = false → rest.head? ≠ some 'l'.toUInt8

/-- Splits off the modifiers at the start of a text. -/
def split (features : Features) (text : Bytes) : Modifiers × Bytes :=
  let (left, afterMinus) := takeOptional '-'.toUInt8 text
  let (zero, afterZero) := takeOptional '0'.toUInt8 afterMinus
  let (long, rest) :=
    if features.long then takeOptional 'l'.toUInt8 (afterZero.dropWhile Bytes.isDigit)
    else (false, afterZero.dropWhile Bytes.isDigit)
  (⟨left, zero, afterZero.takeWhile Bytes.isDigit, long⟩, rest)

variable {features : Features} {modifiers : Modifiers} {rest : Bytes}

theorem text_append (modifiers : Modifiers) (rest : Bytes) :
    modifiers.text ++ rest = optionally '-'.toUInt8 modifiers.left ++
      (optionally '0'.toUInt8 modifiers.zero ++ (modifiers.digits ++
        (optionally 'l'.toUInt8 modifiers.long ++ rest))) := by
  simp only [text, List.append_assoc]

/-- The marker as it is split off: not at all where the grammar lacks it. -/
theorem takeMarker_optionally (present : modifiers.long = true → features.long = true)
    (greedy : features.long = true → modifiers.long = false → rest.head? ≠ some 'l'.toUInt8) :
    (if features.long then
        takeOptional 'l'.toUInt8 (optionally 'l'.toUInt8 modifiers.long ++ rest)
      else (false, optionally 'l'.toUInt8 modifiers.long ++ rest)) = (modifiers.long, rest) := by
  cases marked : features.long with
  | true => simpa using takeOptional_optionally (greedy marked)
  | false =>
    have absent : modifiers.long = false := by
      rw [← Bool.not_eq_true]
      intro long
      simp [present long] at marked
    simp [absent]

theorem takeWhile_digits (h : modifiers.GreedyBefore features rest) :
    (modifiers.digits ++ (optionally 'l'.toUInt8 modifiers.long ++ rest)).takeWhile
      Bytes.isDigit = modifiers.digits := by
  rw [List.takeWhile_append_of_pos h.digits]
  cases behind : optionally 'l'.toUInt8 modifiers.long ++ rest with
  | nil => simp
  | cons byte after =>
    have stop := h.digits_taken byte (by rw [behind, List.head?_cons])
    simp [stop]

theorem dropWhile_digits (h : modifiers.GreedyBefore features rest) :
    (modifiers.digits ++ (optionally 'l'.toUInt8 modifiers.long ++ rest)).dropWhile
      Bytes.isDigit = optionally 'l'.toUInt8 modifiers.long ++ rest := by
  have whole := List.takeWhile_append_dropWhile (p := Bytes.isDigit)
    (l := modifiers.digits ++ (optionally 'l'.toUInt8 modifiers.long ++ rest))
  rw [takeWhile_digits h] at whole
  exact List.append_cancel_left whole

/-- Modifiers that are greedy in front of a rest are split off again. -/
theorem split_text_append (h : modifiers.GreedyBefore features rest) :
    split features (modifiers.text ++ rest) = (modifiers, rest) := by
  rw [text_append]
  simp only [split, takeOptional_optionally h.minus_taken, takeOptional_optionally h.zero_taken,
    takeWhile_digits h, dropWhile_digits h, takeMarker_optionally h.long h.long_taken]

/-- The modifiers that are split off and the rest are the whole text. -/
theorem text_split (features : Features) (text : Bytes) :
    (split features text).1.text ++ (split features text).2 = text := by
  have minus := optionally_takeOptional '-'.toUInt8 text
  have zero := optionally_takeOptional '0'.toUInt8 (takeOptional '-'.toUInt8 text).2
  have digits := List.takeWhile_append_dropWhile (p := Bytes.isDigit)
    (l := (takeOptional '0'.toUInt8 (takeOptional '-'.toUInt8 text).2).2)
  rw [text_append]
  cases marked : features.long with
  | true =>
    simp only [split, marked, if_true, optionally_takeOptional, digits, zero, minus]
  | false =>
    simp only [split, marked, Bool.false_eq_true, if_false, optionally_false, List.nil_append,
      digits, zero, minus]

/-- The modifiers that are split off are greedy. -/
theorem split_greedyBefore (features : Features) (text : Bytes) :
    (split features text).1.GreedyBefore features (split features text).2 := by
  -- each part is followed by what the parts behind it were split from
  have zero := optionally_takeOptional '0'.toUInt8 (takeOptional '-'.toUInt8 text).2
  have digits := List.takeWhile_append_dropWhile (p := Bytes.isDigit)
    (l := (takeOptional '0'.toUInt8 (takeOptional '-'.toUInt8 text).2).2)
  have marker : optionally 'l'.toUInt8 (split features text).1.long ++ (split features text).2 =
      (takeOptional '0'.toUInt8 (takeOptional '-'.toUInt8 text).2).2.dropWhile Bytes.isDigit := by
    cases marked : features.long <;>
      simp [split, marked, optionally_takeOptional]
  refine ⟨?_, ?_, ?_, ?_, ?_, ?_⟩
  · intro digit member
    have := List.all_takeWhile (p := Bytes.isDigit)
      (l := (takeOptional '0'.toUInt8 (takeOptional '-'.toUInt8 text).2).2)
    exact List.all_eq_true.mp this digit member
  · cases marked : features.long <;> simp [split, marked]
  · intro absent
    rw [marker]
    simp only [split, digits, zero]
    exact head?_takeOptional absent
  · intro absent
    rw [marker]
    simp only [split, digits]
    exact head?_takeOptional absent
  · intro byte first
    rw [marker] at first
    have := List.head?_dropWhile_not Bytes.isDigit
      (takeOptional '0'.toUInt8 (takeOptional '-'.toUInt8 text).2).2
    simpa [first] using this
  · intro marked absent
    simp only [split, marked, if_true] at absent ⊢
    exact head?_takeOptional absent

/-- A text has only one split into greedy modifiers and a rest. -/
theorem GreedyBefore.unique {others : Modifiers} {otherRest : Bytes}
    (h : modifiers.GreedyBefore features rest) (h' : others.GreedyBefore features otherRest)
    (same : modifiers.text ++ rest = others.text ++ otherRest) :
    modifiers = others ∧ rest = otherRest := by
  have split := split_text_append h
  rw [same, split_text_append h'] at split
  exact ⟨congrArg Prod.fst split.symm, congrArg Prod.snd split.symm⟩

/-- Only the first byte of the rest matters. -/
theorem GreedyBefore.congr {otherRest : Bytes} (h : modifiers.GreedyBefore features rest)
    (same : otherRest.head? = rest.head?) : modifiers.GreedyBefore features otherRest := by
  have behind : ∀ front : Bytes, (front ++ otherRest).head? = (front ++ rest).head? := by
    intro front
    rw [List.head?_append, List.head?_append, same]
  refine ⟨h.digits, h.long, ?_, ?_, ?_, ?_⟩
  · simpa only [← List.append_assoc, behind] using h.minus_taken
  · simpa only [← List.append_assoc, behind] using h.zero_taken
  · simpa only [behind] using h.digits_taken
  · simpa only [same] using h.long_taken

/-- Modifiers that end with the format are as greedy in front of a NUL. -/
theorem GreedyBefore.cons_zero (h : modifiers.GreedyBefore features []) (after : Bytes) :
    modifiers.GreedyBefore features (0 :: after) := by
  have behind : ∀ (front : Bytes) (byte : UInt8), byte ≠ 0 →
      (front ++ []).head? ≠ some byte → (front ++ 0 :: after).head? ≠ some byte := by
    intro front byte nonzero different
    cases front with
    | nil => simpa using Ne.symm nonzero
    | cons first front => simpa using different
  refine ⟨h.digits, h.long, ?_, ?_, ?_, ?_⟩
  · intro absent
    have different := h.minus_taken absent
    rw [← List.append_assoc, ← List.append_assoc] at different ⊢
    exact behind _ _ (by decide) different
  · intro absent
    have different := h.zero_taken absent
    rw [← List.append_assoc] at different ⊢
    exact behind _ _ (by decide) different
  · intro byte first
    cases long : modifiers.long with
    | true => exact h.digits_taken byte (by simpa [long] using first)
    | false =>
      have nul : byte = 0 := by simpa [long, eq_comm] using first
      subst nul
      rfl
  · intro marked absent
    exact behind [] _ (by decide) (h.long_taken marked absent)

/-- What follows the end of a format leaves its modifiers as greedy as they were. -/
theorem GreedyBefore.append_of_ends (h : modifiers.GreedyBefore features rest) {tail : Bytes}
    (ends : tail.head? = none ∨ tail.head? = some 0) :
    modifiers.GreedyBefore features (rest ++ tail) := by
  cases rest with
  | cons byte after => exact h.congr rfl
  | nil =>
    cases tail with
    | nil => exact h
    | cons byte after =>
      have nul : byte = 0 := by simpa using ends
      subst nul
      exact h.cons_zero after

theorem GreedyBefore.zero_notMem (h : modifiers.GreedyBefore features rest) :
    0 ∉ modifiers.text := by
  have absent : ∀ (wanted : UInt8) (present : Bool), wanted ≠ 0 → 0 ∉ optionally wanted present := by
    intro wanted present nonzero
    cases present with
    | false => simp
    | true => simpa using Ne.symm nonzero
  have digits : 0 ∉ modifiers.digits := fun member => absurd (h.digits 0 member) (by decide)
  simp only [text, List.mem_append, not_or]
  exact ⟨absent _ _ (by decide), absent _ _ (by decide), digits, absent _ _ (by decide)⟩

/-- What a directive is, given the text behind its modifiers. -/
def conclude (features : Features) (modifiers : Modifiers) : Bytes → Parsed
  | [] => .truncated
  | byte :: _ =>
    if byte = 0 then .truncated
    else match Conversion.ofByte? features byte with
      | none => .unsupported byte
      | some conversion =>
        .directive (modifiers.directive conversion) (modifiers.text.length + 1)

theorem conclude_append_of_ends {tail : Bytes} (ends : tail.head? = none ∨ tail.head? = some 0) :
    modifiers.conclude features (rest ++ tail) = modifiers.conclude features rest := by
  cases rest with
  | cons byte after => rfl
  | nil =>
    cases tail with
    | nil => rfl
    | cons byte after =>
      have nul : byte = 0 := by simpa using ends
      simp [conclude, nul]

end Modifiers

namespace Directive

variable {features : Features} {modifiers : Modifiers} {rest : Bytes}

/-- Reading a directive is splitting off its modifiers and looking at the byte behind them. -/
theorem read_text_append (h : modifiers.GreedyBefore features rest) :
    read features (modifiers.text ++ rest) = modifiers.conclude features rest := by
  have length : ∀ byte after, rest = byte :: after →
      (modifiers.text ++ rest).length - after.length = modifiers.text.length + 1 := by
    intro byte after equal
    simp only [equal, List.length_append, List.length_cons]
    omega
  rw [Modifiers.text_append] at length ⊢
  simp only [read, takeOptional_optionally h.minus_taken, takeOptional_optionally h.zero_taken,
    Modifiers.takeWhile_digits h, Modifiers.dropWhile_digits h,
    Modifiers.takeMarker_optionally h.long h.long_taken]
  cases rest with
  | nil => rfl
  | cons byte after =>
    by_cases nul : byte = 0
    · simp only [Modifiers.conclude, nul, if_true]
    · cases known : Conversion.ofByte? features byte with
      | none => simp only [Modifiers.conclude, nul, known, if_false]
      | some conversion =>
        simp only [Modifiers.conclude, Modifiers.directive, Modifiers.width, nul, known, if_false,
          length byte after rfl, widthOf_eq]

/-- The same for any text. -/
theorem read_eq_conclude (features : Features) (spec : Bytes) :
    read features spec =
      (Modifiers.split features spec).1.conclude features (Modifiers.split features spec).2 := by
  have whole := read_text_append (Modifiers.split_greedyBefore features spec)
  rwa [Modifiers.text_split] at whole

end Directive

end FormattedOutput
