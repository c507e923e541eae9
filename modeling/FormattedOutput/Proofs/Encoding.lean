import FormattedOutput.Bytes
import Mathlib.Tactic.Common

/-!
# Texts and their encoding

A format literal is a text, and what is interpreted is the UTF-8 encoding of that text. All
characters that mean anything in a format are below 128. Such a character is one byte, and no byte
of another character is below 128, so what is split off at the front of a text is what is split off
at the front of its encoding.
-/

namespace FormattedOutput.Bytes

variable {character : Char} {first : UInt8} {more : Bytes}

@[simp] theorem ofChars_nil : ofChars [] = [] := rfl

theorem ofChars_cons (character : Char) (rest : List Char) :
    ofChars (character :: rest) = String.utf8EncodeChar character ++ ofChars rest := rfl

/-- A character below 128 is the byte of its number. -/
theorem utf8EncodeChar_of_lt (ascii : character.toNat < 128) :
    String.utf8EncodeChar character = [character.toUInt8] := by
  have small : character.val.toNat ≤ 127 := Nat.le_of_lt_succ ascii
  rw [String.utf8EncodeChar, if_pos small]
  rfl

/-- All bytes of another character are from 128 on. -/
theorem le_of_mem_utf8EncodeChar (wide : 128 ≤ character.toNat) {byte : UInt8}
    (member : byte ∈ String.utf8EncodeChar character) : 128 ≤ byte.toNat := by
  have large : ¬ character.val.toNat ≤ 127 := Nat.not_le_of_lt wide
  revert member
  fun_cases String.utf8EncodeChar character with
  | case1 _ small => exact absurd small large
  | case2 | case3 | case4 =>
    simp only [List.mem_cons, List.not_mem_nil, or_false]
    intro member
    rcases member with rfl | rfl | rfl | rfl <;> simp only [UInt8.toNat_ofNat'] <;> omega

/-- The first byte of a character is below 128 only if it is the only one. -/
theorem first_cases (encoded : String.utf8EncodeChar character = first :: more) :
    character.toNat < 128 ∧ first = character.toUInt8 ∧ more = [] ∨
      128 ≤ character.toNat ∧ 128 ≤ first.toNat := by
  rcases Nat.lt_or_ge character.toNat 128 with ascii | wide
  · rw [utf8EncodeChar_of_lt ascii] at encoded
    cases encoded
    exact Or.inl ⟨ascii, rfl, rfl⟩
  · have member : first ∈ String.utf8EncodeChar character := by
      rw [encoded]
      exact List.mem_cons_self
    exact Or.inr ⟨wide, le_of_mem_utf8EncodeChar wide member⟩

theorem toNat_toUInt8 (ascii : character.toNat < 128) :
    character.toUInt8.toNat = character.toNat := by
  have same : character.val.toNat = character.toNat := rfl
  rw [Char.toUInt8, UInt32.toNat_toUInt8, same]
  omega

theorem ofUInt8_toUInt8 (ascii : character.toNat < 128) :
    Char.ofUInt8 character.toUInt8 = character := by
  apply Char.ext
  apply UInt32.toNat.inj
  exact toNat_toUInt8 ascii

/-- The first byte of a character tells whether it is a given one below 128. -/
theorem first_eq_iff (encoded : String.utf8EncodeChar character = first :: more) {wanted : Char}
    (ascii : wanted.toNat < 128) : first = wanted.toUInt8 ↔ character = wanted := by
  constructor
  · intro same
    rw [same] at encoded
    rcases first_cases encoded with ⟨below, equal, -⟩ | ⟨-, high⟩
    · rw [← ofUInt8_toUInt8 below, ← equal, ofUInt8_toUInt8 ascii]
    · rw [toNat_toUInt8 ascii] at high
      omega
  · rintro rfl
    rw [utf8EncodeChar_of_lt ascii] at encoded
    cases encoded
    rfl

/-- An optional character below 128 is there in the text if its byte is there in the encoding. -/
theorem takeOptional_ofChars {wanted : Char} (ascii : wanted.toNat < 128) (text : List Char) :
    takeOptional wanted.toUInt8 (ofChars text) =
      ((takeOptional wanted text).1, ofChars (takeOptional wanted text).2) := by
  cases text with
  | nil => rfl
  | cons character rest =>
    obtain ⟨first, more, encoded⟩ :=
      List.exists_cons_of_ne_nil (String.utf8EncodeChar_ne_nil (c := character))
    have decided := first_eq_iff encoded ascii
    rw [ofChars_cons, encoded]
    by_cases same : character = wanted
    · subst same
      rw [utf8EncodeChar_of_lt ascii] at encoded
      cases encoded
      simp [takeOptional]
    · simp [takeOptional, decided, same, ofChars_cons, encoded]

/-- The first byte of a character tells whether it is a digit. -/
theorem isDigit_first (encoded : String.utf8EncodeChar character = first :: more) :
    isDigit first = character.isDigit := by
  have byteBounds : isDigit first = true ↔ 48 ≤ first.toNat ∧ first.toNat ≤ 57 := by
    simp only [isDigit, Bool.and_eq_true, decide_eq_true_eq, UInt8.le_iff_toNat_le]
    rfl
  have bounds : character.isDigit = true ↔ 48 ≤ character.toNat ∧ character.toNat ≤ 57 := by
    simp only [Char.isDigit, Bool.and_eq_true, decide_eq_true_eq, ge_iff_le,
      UInt32.le_iff_toNat_le]
    rfl
  rw [Bool.eq_iff_iff, byteBounds, bounds]
  rcases first_cases encoded with ⟨ascii, rfl, -⟩ | ⟨wide, high⟩
  · rw [toNat_toUInt8 ascii]
  · omega

/-- The digits at the front of a text are those at the front of its encoding. -/
theorem takeWhile_isDigit_ofChars (text : List Char) :
    (ofChars text).takeWhile isDigit = ofChars (text.takeWhile Char.isDigit) := by
  induction text with
  | nil => rfl
  | cons character rest ih =>
    obtain ⟨first, more, encoded⟩ :=
      List.exists_cons_of_ne_nil (String.utf8EncodeChar_ne_nil (c := character))
    have digit := isDigit_first encoded
    cases isDigit : character.isDigit with
    | false => simp [ofChars_cons, encoded, digit, isDigit]
    | true =>
      have single : more = [] := by
        rcases first_cases encoded with ⟨-, -, nothing⟩ | ⟨-, high⟩
        · exact nothing
        · simp only [isDigit, Bytes.isDigit, Bool.and_eq_true, decide_eq_true_eq,
            UInt8.le_iff_toNat_le] at digit
          have nine : '9'.toUInt8.toNat = 57 := rfl
          omega
      simp [ofChars_cons, encoded, digit, isDigit, single, ih]

/-- What follows the digits of a text follows them in its encoding. -/
theorem dropWhile_isDigit_ofChars (text : List Char) :
    (ofChars text).dropWhile isDigit = ofChars (text.dropWhile Char.isDigit) := by
  have whole : ofChars (text.takeWhile Char.isDigit) ++ ofChars (text.dropWhile Char.isDigit) =
      ofChars text := by
    rw [← ofChars_append, List.takeWhile_append_dropWhile]
  have split := List.takeWhile_append_dropWhile (p := isDigit) (l := ofChars text)
  rw [takeWhile_isDigit_ofChars, ← whole] at split
  rw [← List.append_cancel_left split, whole]

/-- An encoding holds a NUL byte exactly if its text holds the character NUL. -/
theorem zero_mem_ofChars {text : List Char} : 0 ∈ ofChars text ↔ '\x00' ∈ text := by
  rw [ofChars, List.mem_flatMap]
  constructor
  · rintro ⟨character, member, nul⟩
    rcases Nat.lt_or_ge character.toNat 128 with ascii | wide
    · rw [utf8EncodeChar_of_lt ascii, List.mem_singleton] at nul
      rwa [← ofUInt8_toUInt8 ascii, ← nul] at member
    · exact absurd (le_of_mem_utf8EncodeChar wide nul) (by decide)
  · intro member
    exact ⟨'\x00', member, by decide⟩

end FormattedOutput.Bytes
