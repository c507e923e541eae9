import FormattedOutput.Checked.Character

/-!
# String literals

The value of a string literal from what stands between its quotes. A backslash starts an escape: a
control character, a byte below 128 in two hexadecimal digits, a character by its number, or a line
end that is left out together with the blanks behind it. `escaped` writes a text as a literal that
stands for it.
-/

namespace FormattedOutput.Literal

/-- The number that hexadecimal digits spell; underscores between them do not count. -/
def hexNumber? (digits : List Char) : Option Nat :=
  digits.foldlM (fun number digit =>
    if digit = '_' then some number else (Character.hexValue? digit).map (number * 16 + ·)) 0

/-- The character of a one-letter escape. -/
def simpleEscape? : Char → Option Char
  | 'n' => some '\n'
  | 'r' => some '\r'
  | 't' => some '\t'
  | '0' => some '\x00'
  | '\\' => some '\\'
  | '\x27' => some '\x27'
  | '\x22' => some '\x22'
  | _ => none

/-- Whether a character is left out after a line end that is left out. -/
def isContinuationBlank (character : Char) : Bool :=
  character = ' ' || character = '\t' || character = '\n' || character = '\r'

/-- The character of the escape at the start of a text, if it stands for one, and the text behind
    the escape. The backslash itself is not part of the text. -/
def escape? : List Char → Option (Option Char × List Char)
  | [] => none
  | '\n' :: rest => some (none, rest.dropWhile isContinuationBlank)
  | '\r' :: '\n' :: rest => some (none, rest.dropWhile isContinuationBlank)
  | 'x' :: high :: low :: rest => do
    let number ← hexNumber? [high, low]
    if number < 128 ∧ high ≠ '_' ∧ low ≠ '_' then some (some (Char.ofNat number), rest) else none
  | 'u' :: '\x7b' :: rest => do
    let digits := rest.takeWhile (· ≠ '\x7d')
    let number ← hexNumber? digits
    let character ← Character.ofNumber? number
    let count := (digits.filter (· ≠ '_')).length
    if 1 ≤ count ∧ count ≤ 6 ∧ digits.head? ≠ some '_' then
      some (some character, (rest.dropWhile (· ≠ '\x7d')).drop 1)
    else none
  | letter :: rest => (simpleEscape? letter).map fun character => (some character, rest)

theorem length_dropWhile_le (drop : Char → Bool) (text : List Char) :
    (text.dropWhile drop).length ≤ text.length :=
  (List.dropWhile_suffix drop).length_le

/-- What follows an escape is no longer than the text it was read from. -/
theorem length_escape?_le {text after : List Char} {character : Option Char}
    (h : escape? text = some (character, after)) : after.length ≤ text.length := by
  unfold escape? at h
  split at h
  · cases h
  · cases h
    exact Nat.le_succ_of_le (length_dropWhile_le _ _)
  · cases h
    exact Nat.le_succ_of_le (Nat.le_succ_of_le (length_dropWhile_le _ _))
  · obtain ⟨number, _, h⟩ := Option.bind_eq_some_iff.1 h
    split at h
    · cases h
      simp only [List.length_cons]
      omega
    · cases h
  · rename_i rest
    obtain ⟨number, _, h⟩ := Option.bind_eq_some_iff.1 h
    obtain ⟨value, _, h⟩ := Option.bind_eq_some_iff.1 h
    simp only at h
    split at h
    · cases h
      have := length_dropWhile_le (· ≠ '\x7d') rest
      simp only [List.length_drop, List.length_cons]
      omega
    · cases h
  · obtain ⟨value, _, h⟩ := Option.map_eq_some_iff.1 h
    cases h
    simp

/-- The value of a literal from the text between its quotes. A carriage return stands only before a
    line feed, and the two are one line end. -/
def unescape? : List Char → Option (List Char)
  | [] => some []
  | '\\' :: rest =>
    match _h : escape? rest with
    | none => none
    | some (character, after) => (unescape? after).map (character.toList ++ ·)
  | '\r' :: '\n' :: rest => (unescape? rest).map ('\n' :: ·)
  | '\r' :: _ => none
  | character :: rest => (unescape? rest).map (character :: ·)
termination_by text => text.length
decreasing_by
  · have := length_escape?_le _h
    simp only [List.length_cons]
    omega
  · simp only [List.length_cons]
    omega
  · simp

/-- Hexadecimal digits of a number, without leading zeros. -/
def hexDigits (number : Nat) : List Char := Nat.toDigits 16 number

/-- One character as it stands in a literal, `next` being the one behind it. A NUL in front of an
    octal digit is written with two digits. -/
def escapedCharacter (character : Char) (next : Option Char) : List Char :=
  match character with
  | '\x00' => if next.any fun digit => '0' ≤ digit && digit ≤ '7' then "\\x00".toList
      else "\\0".toList
  | '\t' => "\\t".toList
  | '\r' => "\\r".toList
  | '\n' => "\\n".toList
  | '\x22' => "\\\x22".toList
  | '\\' => "\\\\".toList
  | _ =>
    if Character.isVisible character then [character]
    else "\\u\x7b".toList ++ hexDigits character.toNat ++ ['\x7d']

/-- A text as it stands between the quotes of a literal. -/
def escaped : List Char → List Char
  | [] => []
  | character :: rest => escapedCharacter character rest.head? ++ escaped rest

end FormattedOutput.Literal
