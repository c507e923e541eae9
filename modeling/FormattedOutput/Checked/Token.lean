/-!
# Tokens

The source text of a formatting call as the call's grammar sees it: commas, string literals with
their values, other literals, names, single punctuation marks, and brackets. A mark knows whether
another one follows it without a blank, since only such marks can spell one operator together.
-/

namespace FormattedOutput

/-- The three kinds of brackets. -/
inductive Delimiter where
  | parenthesis
  | bracket
  | brace
  deriving DecidableEq, Repr

namespace Delimiter

/-- The opening bracket. -/
def opening : Delimiter → Char
  | parenthesis => '('
  | bracket => '['
  | brace => '\x7b'

/-- The closing bracket. -/
def closing : Delimiter → Char
  | parenthesis => ')'
  | bracket => ']'
  | brace => '\x7d'

/-- The kind of bracket that a character opens. -/
def ofOpening? (character : Char) : Option Delimiter :=
  [parenthesis, bracket, brace].find? (·.opening = character)

/-- The kind of bracket that a character closes. -/
def ofClosing? (character : Char) : Option Delimiter :=
  [parenthesis, bracket, brace].find? (·.closing = character)

end Delimiter

/-- One token. -/
inductive Token where
  | comma
  /-- A string literal as written, and the string it stands for. -/
  | string (source value : String)
  /-- An integer literal as written, its value, and whether a type is named behind its digits. -/
  | integer (source : String) (value : Nat) (suffixed : Bool)
  /-- A literal of a number that is no integer, as written. -/
  | float (source : String)
  /-- Any other literal, as written. -/
  | literal (source : String)
  /-- A name or keyword. -/
  | word (source : String)
  /-- A name behind a single quote, as written. -/
  | lifetime (source : String)
  /-- A punctuation mark other than a comma, and whether another mark follows at once. -/
  | mark (symbol : Char) (joint : Bool)
  | opening (delimiter : Delimiter)
  | closing (delimiter : Delimiter)
  deriving DecidableEq, Repr

namespace Token

/-- The text of a token. -/
def text : Token → String
  | comma => ","
  | string source _ => source
  | integer source _ _ => source
  | float source => source
  | literal source => source
  | word source => source
  | lifetime source => source
  | mark symbol _ => symbol.toString
  | opening delimiter => delimiter.opening.toString
  | closing delimiter => delimiter.closing.toString

/-- The texts of tokens, joined without spaces. -/
def joined (tokens : List Token) : String := String.join (tokens.map text)

/-- Whether all brackets match, `pending` being those that are open, innermost first. -/
def balanced : List Delimiter → List Token → Bool
  | pending, [] => pending.isEmpty
  | pending, opening delimiter :: rest => balanced (delimiter :: pending) rest
  | [], closing _ :: _ => false
  | delimiter :: pending, closing closed :: rest => delimiter = closed && balanced pending rest
  | pending, _ :: rest => balanced pending rest

end Token

end FormattedOutput
