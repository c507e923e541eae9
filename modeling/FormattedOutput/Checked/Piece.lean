import FormattedOutput.Argument
import FormattedOutput.Bytes

/-!
# Checking a format literal

A format literal can be checked before it is ever interpreted. The check walks over its characters
and lists, for each directive that takes an argument, what kind of argument that is; or it names
the first directive that is malformed. Both optional parts of the format language are accepted.
-/

namespace FormattedOutput

/-- The ways to build an argument. -/
inductive ArgKind where
  | int
  | long
  | uint
  | ulong
  | char
  | str
  | count
  | float
  deriving DecidableEq, Repr

namespace ArgKind

/-- The name of the builder. -/
def name : ArgKind → String
  | int => "Int"
  | long => "Long"
  | uint => "Uint"
  | ulong => "ULong"
  | char => "Char"
  | str => "str"
  | count => "Count"
  | float => "Float"

/-- Whether an argument is one that the builder makes. -/
def builds : ArgKind → Arg → Bool
  | int, .int _ => true
  | long, .long _ => true
  | uint, .uint _ => true
  | ulong, .ulong _ => true
  | char, .char _ => true
  | str, .str _ => true
  | count, .count _ => true
  | float, .float _ => true
  | _, _ => false

end ArgKind

/-- A directive that takes an argument. -/
inductive Piece where
  | signed (long : Bool)
  | unsigned (long : Bool)
  | char
  | str
  | count
  | float
  deriving DecidableEq, Repr

/-- Why a format literal is refused. -/
inductive FormatError where
  /-- The literal holds a NUL, which would end the format early. -/
  | nul
  /-- The literal ends inside the directive quoted. -/
  | incomplete (quoted : String)
  /-- The directive quoted ends in a character that is no conversion. -/
  | unsupported (quoted : String)
  deriving DecidableEq, Repr

namespace FormatError

/-- What a directive should have been. -/
def expected : String :=
  "expected one of %u %d %i %x %X %c %s %f %n %%, optionally preceded by `-`, `0`, a width and `l`"

/-- The error in words. -/
def message : FormatError → String
  | nul => "invalid format string: NUL byte ends the format early"
  | incomplete quoted =>
    s!"invalid format string: incomplete directive `{quoted}` at end, {expected}"
  | unsupported quoted =>
    s!"invalid format string: unsupported directive `{quoted}`, {expected}"

end FormatError

namespace Piece

/-- The builder of the argument that a directive takes. -/
def kind : Piece → ArgKind
  | signed false => .int
  | signed true => .long
  | unsigned false => .uint
  | unsigned true => .ulong
  | char => .char
  | str => .str
  | count => .count
  | float => .float

/-- A piece in words. -/
def describe : Piece → String
  | signed long => s!"Signed \x7b long: {long} \x7d"
  | unsigned long => s!"Unsigned \x7b long: {long} \x7d"
  | char => "Char"
  | str => "Str"
  | count => "Count"
  | float => "Float"

/-- What a conversion character stands for: nothing if it is none, and no piece for the percent
    sign, which takes no argument. -/
def ofConversion? (long : Bool) : Char → Option (List Piece)
  | 'd' => some [signed long]
  | 'i' => some [signed long]
  | 'u' => some [unsigned long]
  | 'x' => some [unsigned long]
  | 'X' => some [unsigned long]
  | 'c' => some [char]
  | 's' => some [str]
  | 'n' => some [count]
  | 'f' => some [float]
  | '%' => some []
  | _ => none

/-- What stands between a percent sign and its conversion. -/
structure Options where
  /-- The characters of the options. -/
  text : List Char
  /-- The options end in the marker `l`. -/
  long : Bool
  /-- The text from the conversion on. -/
  rest : List Char

/-- The optional character `wanted` at the start of a text: its characters, and what follows. -/
def optionText (wanted : Char) (text : List Char) : List Char × List Char :=
  match takeOptional wanted text with
  | (true, rest) => ([wanted], rest)
  | (false, rest) => ([], rest)

/-- Splits off the options after a percent sign, each taken greedily. -/
def options (text : List Char) : Options :=
  let (minus, afterMinus) := optionText '-' text
  let (zero, afterZero) := optionText '0' afterMinus
  let digits := afterZero.takeWhile Char.isDigit
  let (marker, rest) := optionText 'l' (afterZero.dropWhile Char.isDigit)
  { text := minus ++ zero ++ digits ++ marker, long := marker ≠ [], rest }

theorem optionText_append (wanted : Char) (text : List Char) :
    (optionText wanted text).1 ++ (optionText wanted text).2 = text := by
  cases text with
  | nil => rfl
  | cons found rest =>
    by_cases h : found = wanted <;> simp [optionText, takeOptional, h]

/-- The options and what follows them are the whole text. -/
theorem options_append (text : List Char) : (options text).text ++ (options text).rest = text := by
  simp only [options, List.append_assoc, optionText_append, List.takeWhile_append_dropWhile]

/-- The pieces of a literal without NUL. -/
def scan : List Char → Except FormatError (List Piece)
  | [] => .ok []
  | character :: rest =>
    if character = '%' then
      let found := options rest
      match _h : found.rest with
      | [] => .error (.incomplete (String.ofList (character :: rest)))
      | conversion :: after =>
        match ofConversion? found.long conversion with
        | none =>
          .error (.unsupported (String.ofList (character :: found.text ++ [conversion])))
        | some pieces => (scan after).map (pieces ++ ·)
    else scan rest
termination_by literal => literal.length
decreasing_by
  · have split := options_append rest
    have := congrArg List.length split
    simp only [List.length_append, show (options rest).rest = conversion :: after from _h,
      List.length_cons] at this ⊢
    omega
  · simp

/-- The pieces of a format literal. -/
def ofFormat (literal : List Char) : Except FormatError (List Piece) :=
  if '\x00' ∈ literal then .error .nul else scan literal

end Piece

end FormattedOutput
