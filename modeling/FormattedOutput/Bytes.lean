/-!
# Byte strings

Formats, string arguments, buffers and output are sequences of bytes. A NUL byte ends a format
and a string argument, so what either stands for is the part before its first NUL.
-/

namespace FormattedOutput

/-- A byte string, first byte first. -/
abbrev Bytes := List UInt8

namespace Bytes

/-- The UTF-8 encoding of a sequence of characters. -/
def ofChars (text : List Char) : Bytes := text.flatMap String.utf8EncodeChar

/-- The UTF-8 encoding of a string. -/
def ofString (text : String) : Bytes := ofChars text.toList

/-- What stands before the first NUL byte; all of it if there is none. -/
def untilNul (bytes : Bytes) : Bytes := bytes.takeWhile (· ≠ 0)

/-- Whether a byte is an ASCII decimal digit. -/
def isDigit (byte : UInt8) : Bool := '0'.toUInt8 ≤ byte && byte ≤ '9'.toUInt8

/-- The value of an ASCII decimal digit. -/
def digitValue (byte : UInt8) : Nat := byte.toNat - '0'.toNat

theorem ofChars_append (first second : List Char) :
    ofChars (first ++ second) = ofChars first ++ ofChars second := by
  simp [ofChars]

theorem untilNul_eq_self {bytes : Bytes} (h : 0 ∉ bytes) : untilNul bytes = bytes := by
  induction bytes with
  | nil => rfl
  | cons byte rest ih =>
    simp only [List.mem_cons, not_or] at h
    have hne : byte ≠ 0 := fun e => h.1 e.symm
    simpa [untilNul, hne] using ih h.2

theorem zero_notMem_untilNul (bytes : Bytes) : 0 ∉ untilNul bytes := by
  induction bytes with
  | nil => simp [untilNul]
  | cons byte rest ih =>
    by_cases h : byte = 0
    · simp [untilNul, h]
    · simp only [untilNul, ne_eq, h, not_false_eq_true, decide_true, List.takeWhile_cons_of_pos,
        List.mem_cons, not_or]
      exact ⟨fun e => h e.symm, ih⟩

end Bytes

/-- The optional leading element `wanted`: whether it was there, and what follows it. -/
def takeOptional {α : Type} [DecidableEq α] (wanted : α) : List α → Bool × List α
  | [] => (false, [])
  | found :: rest => if found = wanted then (true, rest) else (false, found :: rest)

end FormattedOutput
