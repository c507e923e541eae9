import FormattedOutput.Checked.Expression

/-!
# The input of a formatting call

A formatting call is given a target expression, a comma, a format literal, and argument expressions
separated by commas. The comma behind the literal may be missing, and a comma may stand behind the
last argument. Tokens that have another form are refused for the first token that does not fit.
-/

namespace FormattedOutput

/-- The parts of a formatting call. -/
structure CallInput where
  target : Expression
  /-- The value of the format literal. -/
  format : String
  args : List Expression
  deriving DecidableEq, Repr

namespace CallInput

/-- The tokens after the comma that has to stand at the front. -/
def readComma : List Token → Except SyntaxError (List Token)
  | .comma :: rest => .ok rest
  | _ => .error .comma

/-- The value of the string literal that has to stand at the front, and the tokens after it. -/
def readLiteral : List Token → Except SyntaxError (String × List Token)
  | .string _ value :: rest => .ok (value, rest)
  | tokens => .error (.stringLiteral tokens.isEmpty)

/-- The tokens without the comma that may stand at the front. -/
def skipComma : List Token → List Token
  | .comma :: rest => rest
  | tokens => tokens

/-- The expressions that all tokens are, separated and perhaps ended by commas. -/
def readArgs (reader : ExpressionReader) (tokens : List Token) :
    Except SyntaxError (List Expression) :=
  if tokens = [] then .ok []
  else
    match _h : reader.read tokens with
    | .error error => .error error
    | .ok (arg, []) => .ok [arg]
    | .ok (arg, .comma :: rest) => (readArgs reader rest).map (arg :: ·)
    | .ok (_, _ :: _) => .error .comma
termination_by tokens.length
decreasing_by
  have := reader.length_lt _h
  simp only [List.length_cons] at this
  omega

/-- Reads the parts of a call from its tokens. -/
def ofTokens (reader : ExpressionReader) (tokens : List Token) : Except SyntaxError CallInput := do
  let (target, afterTarget) ← reader.read tokens
  let afterComma ← readComma afterTarget
  let (format, afterFormat) ← readLiteral afterComma
  let args ← readArgs reader (skipComma afterFormat)
  return { target, format, args }

/-- Whether the brackets in all expressions hold only what has a meaning there. -/
def isExact (input : CallInput) : Bool :=
  !input.target.surplus && input.args.all (!·.surplus)

end CallInput

/-- The tokens of the parts of a formatting call. -/
structure CallSource where
  target : List Token
  /-- The format literal. -/
  format : Token
  args : List (List Token)
  deriving DecidableEq, Repr

namespace CallSource

/-- The tokens of a call, with or without the comma behind the literal, which stands only if
    something may follow it, and with or without a comma at the end. -/
def tokens (source : CallSource) (comma trailing : Bool) : List Token :=
  let separator := if comma && (source.args ≠ [] || trailing) then [Token.comma] else []
  let ending := if trailing && source.args ≠ [] then [Token.comma] else []
  source.target ++ .comma :: source.format :: separator ++
    [Token.comma].intercalate source.args ++ ending

end CallSource

end FormattedOutput
