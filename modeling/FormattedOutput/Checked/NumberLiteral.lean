import FormattedOutput.Checked.Character

/-!
# Number literals

Where a number literal at the start of a text ends, and what it is. Digits may be followed by a
point with decimals, by an exponent, and by a name that tells the type. A point that starts a range
or a field does not belong to the number.
-/

namespace FormattedOutput.NumberLiteral

open Character

/-- What was split off the start of a text, and the rest of the text. -/
abbrev Split := List Char × List Char

/-- The same split, `character` being in front of what was split off. -/
def Split.push (character : Char) (split : Split) : Split := (character :: split.1, split.2)

/-- The digits and the one point at the start of a text. A second point in a row, and a point before
    a name, make the text no number with a point. -/
def mantissa? (pointed : Bool) : List Char → Option (Split × Bool)
  | [] => some (([], []), pointed)
  | character :: rest =>
    if character.isDigit || character = '_' then
      (mantissa? pointed rest).map fun (split, found) => (Split.push character split, found)
    else if character = '.' && !pointed then
      if rest.head?.any fun next => next = '.' || isNameStart next then none
      else (mantissa? true rest).map fun (split, found) => (Split.push character split, found)
    else some (([], character :: rest), pointed)

/-- The digits of an exponent at the start of a text, with one sign in front; none if there is no
    digit or a second sign. -/
def exponent? (signed valued : Bool) : List Char → Option Split
  | [] => if valued then some ([], []) else none
  | character :: rest =>
    if (character = '+' || character = '-') && !valued then
      if signed then none else (exponent? true valued rest).map (Split.push character)
    else if character.isDigit then (exponent? signed true rest).map (Split.push character)
    else if character = '_' then (exponent? signed valued rest).map (Split.push character)
    else if valued then some ([], character :: rest)
    else none

/-- The number with a point or an exponent at the start of a text, without a type. -/
def floatDigits? (text : List Char) : Option Split :=
  if !text.head?.any Char.isDigit then none
  else
    match mantissa? false text with
    | none => none
    | some ((digits, rest), pointed) =>
      let plain := if pointed then some (digits, rest) else none
      match rest with
      | mark :: behind =>
        if mark = 'e' || mark = 'E' then
          match exponent? false false behind with
          | some (exponent, after) => some (digits ++ mark :: exponent, after)
          | none => plain
        else plain
      | [] => plain

/-- The base that an integer is written in, and the text behind the mark of the base. -/
def base : List Char → Nat × Split
  | '0' :: 'x' :: rest => (16, ['0', 'x'], rest)
  | '0' :: 'o' :: rest => (8, ['0', 'o'], rest)
  | '0' :: 'b' :: rest => (2, ['0', 'b'], rest)
  | text => (10, [], text)

/-- The digits of an integer at the start of a text; `empty` as long as there was none. A decimal
    digit that is too large for the base makes the text no integer. -/
def integerDigits? (base : Nat) (empty : Bool) : List Char → Option Split
  | [] => if empty then none else some ([], [])
  | character :: rest =>
    if character = '_' then
      if empty && base = 10 then none
      else (integerDigits? base empty rest).map (Split.push character)
    else
      match hexValue? character with
      | some digit =>
        if digit < base then (integerDigits? base false rest).map (Split.push character)
        else if character.isDigit || empty then none
        else some ([], character :: rest)
      | none => if empty then none else some ([], character :: rest)

/-- The integer at the start of a text, without a type. -/
def integerText? (text : List Char) : Option Split :=
  let (base, mark, rest) := base text
  (integerDigits? base true rest).map fun (digits, after) => (mark ++ digits, after)

/-- A number with the name that follows it at once. -/
def withType (number : Split) : Split :=
  if number.2.head?.any isNameStart then
    (number.1 ++ number.2.takeWhile isNamePart, number.2.dropWhile isNamePart)
  else number

/-- The number literal at the start of a text. -/
def ofText? (text : List Char) : Option Split :=
  ((floatDigits? text).orElse fun _ => integerText? text).map withType

/-- Whether the text behind the letter `e` is an exponent and not the name of a type. -/
def isExponent (text : List Char) : Bool :=
  match text.dropWhile (· = '_') with
  | [] => false
  | character :: _ => character.isDigit || character = '+' || character = '-'

/-- The value of the digits at the start of a text, and what follows them; none if it is no integer
    in that base. -/
def valueFrom? (base : Nat) (value : Nat) (empty : Bool) : List Char → Option (Nat × List Char)
  | [] => if empty then none else some (value, [])
  | character :: rest =>
    if character = '_' then valueFrom? base value empty rest
    else if character = '.' && base = 10 then none
    else if (character = 'e' || character = 'E') && base = 10 then
      if empty || isExponent rest then none else some (value, character :: rest)
    else
      match hexValue? character with
      | some digit =>
        if digit < base then valueFrom? base (value * base + digit) false rest
        else if character.isDigit || empty then none
        else some (value, character :: rest)
      | none => if empty then none else some (value, character :: rest)

/-- The value of an integer literal, and the name of its type; none for any other number. -/
def integer? (literal : List Char) : Option (Nat × List Char) :=
  let (base, _, digits) := base literal
  valueFrom? base 0 true digits

end FormattedOutput.NumberLiteral
