import FormattedOutput.Checked.Grammar.Language
import FormattedOutput.Checked.Input
import FormattedOutput.Checked.Piece

/-!
# Expansion of checked calls

A formatting call whose literal is known is checked and then expanded to a call of a formatting
routine, with the bytes of the literal and each argument in the builder that its directive asks for.
The format is checked before the arguments are counted.
-/

namespace FormattedOutput

/-- The formatting calls. -/
inductive CallForm where
  /-- Prints on a console. -/
  | print
  /-- Prints on a console and ends the line. -/
  | printLine
  /-- Fills a buffer that should be large enough. -/
  | fill
  /-- Fills a buffer as far as it goes. -/
  | fillBounded
  /-- Writes to a sink. -/
  | write
  deriving DecidableEq, Repr

namespace CallForm

/-- The routine that a call expands to. -/
def routine : CallForm → String
  | print => ".vprintf"
  | printLine => ".vprintf"
  | fill => "::hiprintf::vsprintf"
  | fillBounded => "::hiprintf::vsnprintf"
  | write => "::hiprintf::vformat"

/-- Whether the routine is called on the target and not with it. -/
def isMethod : CallForm → Bool
  | print => true
  | printLine => true
  | _ => false

/-- The format that a call uses for its literal. -/
def format (form : CallForm) (literal : String) : String :=
  match form with
  | printLine => literal.push '\n'
  | _ => literal

/-- The target as the expansion mentions it. -/
def target (form : CallForm) (expression : Expression) : String :=
  if form.isMethod then "(" ++ expression.text ++ ")" else expression.text

end CallForm

/-- Why a formatting call is refused. -/
inductive CallError where
  /-- Its tokens do not have the form of a call. -/
  | form (error : SyntaxError)
  /-- Its literal is not a format. -/
  | format (error : FormatError)
  /-- Its literal takes another number of arguments. -/
  | argumentCount (required supplied : Nat)
  deriving DecidableEq, Repr

namespace CallError

/-- The error in words. -/
def message : CallError → String
  | form error => error.message
  | format error => error.message
  | argumentCount required supplied =>
    s!"format string required {required} arguments but {supplied} were supplied"

end CallError

/-- What a call expands to. -/
structure Expansion where
  routine : String
  target : String
  /-- The bytes of the format. -/
  format : Bytes
  /-- The builder and the text of each argument. -/
  args : List (ArgKind × String)
  deriving DecidableEq, Repr

/-- The path of a builder in an expansion. -/
def ArgKind.path (kind : ArgKind) : String := "::hiprintf::Arg::" ++ kind.name

namespace CallInput

/-- Expands a call. -/
def expand (form : CallForm) (input : CallInput) : Except CallError Expansion :=
  let format := form.format input.format
  match Piece.ofFormat format.toList with
  | .error error => .error (.format error)
  | .ok pieces =>
    if pieces.length = input.args.length then
      .ok
        { routine := form.routine
          target := form.target input.target
          format := Bytes.ofString format
          args := (pieces.map Piece.kind).zip (input.args.map Expression.text) }
    else .error (.argumentCount pieces.length input.args.length)

end CallInput

/-- Reads a call from its tokens, its expressions with some reader, and expands it. Brackets that
    hold too much are an error of form too, but one that is found last. -/
def expandTokensWith (reader : ExpressionReader) (form : CallForm) (tokens : List Token) :
    Except CallError Expansion :=
  match CallInput.ofTokens reader tokens with
  | .error error => .error (.form error)
  | .ok input =>
    if input.isExact then input.expand form else .error (.form (.unexpected false))

/-- Reads a call from its tokens, its expressions by the grammar, and expands it. -/
def expandTokens (form : CallForm) (tokens : List Token) : Except CallError Expansion :=
  expandTokensWith Grammar.expressionReader form tokens

end FormattedOutput
