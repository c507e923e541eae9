import FormattedOutput.Checked.Grammar.Operand

/-!
# Statements

A block holds statements: declarations, items and expressions, which semicolons end. A semicolon
may be missing behind an expression that ends in a block, and behind the last expression.
-/

namespace FormattedOutput.Grammar

open Reader Tokens

variable (all : Nonterminals)

/-- Reads the first operand of an expression at the start of a statement; whether operators may
    follow it. A block ends the expression, unless a field, a call of a method or a question mark
    follows. -/
def statementOperand : Reader (ExpressionForm × Bool) := do
  let tokens ← upcoming
  let form? : Option ExpressionForm ←
    if startsTryBlock tokens then do
      take 1
      block all
      pure (some .block)
    else if startsWord "const" tokens then do
      constantBlock all
      pure (some .verbatim)
    else if startsBoundClosure tokens then pure none
    else do
      if ← blockOperand all then pure (some .block) else pure none
  match form? with
  | none => return (← all.operand true, true)
  | some form =>
    let tokens ← upcoming
    if startsPoint tokens || startsMark "?" tokens then return (← trailers all form, true)
    return (form, false)

/-- Reads an expression at the start of a statement. -/
def statementExpression : Reader ExpressionForm := do
  let (form, continues) ← attributed (fun (form, _) => form = .verbatim) (statementOperand all)
  if continues then all.operators true .any form else return form

/-- Reads a declaration of names in a statement that started at `start`. It is kept as it is written
    if there is a block for the case that the pattern does not fit. -/
def declaration (start : Place) : Reader Unit := do
  word "let"
  openAlternatives all
  if ← optionalMark ":" then
    let _ ← all.type true
  if ← optionalMark "=" then
    anyExpression all
    if ← optionalWord "else" then
      block all
      asWritten start (pure ())
  mark ";"

/-- Whether a call of a macro in braces, or one that defines a name, starts here. -/
def startsMacroStatement : Reader Bool := do
  let ahead ← attempt do
    plainPath
    upcoming
  match ahead with
  | none => return false
  | some tokens =>
    let behind := tokens.drop 1
    return startsMark "!" tokens &&
      (startsGroup .brace behind &&
        !(startsMark "." (afterOne behind) || startsMark "?" (afterOne behind)) ||
        startsIdentifier behind)

/-- Reads a call of a macro as a statement. -/
def macroStatement : Reader Unit := do
  plainPath
  mark "!"
  let _ ← optional startsIdentifier 1
  anyGroup
  let _ ← optionalMark ";"

/-- Whether an item starts here. -/
def startsItem (tokens : List Token) : Bool :=
  let next := tokens.drop 1
  let last := tokens.drop 2
  startsOneOf ["pub", "extern", "use", "fn", "mod", "type", "struct", "enum", "trait", "impl",
    "macro"] tokens ||
  startsWord "crate" tokens && !startsMark "::" next ||
  startsWord "static" tokens &&
    (startsWord "mut" next ||
      startsIdentifier next &&
        !(startsWord "async" next && (startsWord "move" last || startsMark "|" last))) ||
  startsOneOf ["const", "unsafe"] tokens && !startsGroup .brace next ||
  startsWord "async" tokens && startsOneOf ["unsafe", "extern", "fn"] next ||
  startsWord "existential" tokens && startsWord "type" next ||
  startsWord "union" tokens && startsIdentifier next ||
  startsWord "auto" tokens && startsWord "trait" next ||
  startsWord "default" tokens && startsOneOf ["unsafe", "impl"] next

/-- A statement that was read. -/
structure StatementForm where
  /-- It takes no attributes. -/
  verbatim : Bool
  /-- It is an expression that still wants a semicolon. -/
  unfinished : Bool
  deriving DecidableEq, Repr

/-- Reads one statement with the attributes in front of it. -/
def statement : Reader StatementForm := do
  let start ← get
  attributed StatementForm.verbatim do
    if ← startsMacroStatement then
      macroStatement
      return ⟨false, false⟩
    let tokens ← upcoming
    if startsWord "let" tokens then
      declaration all start
      return ⟨false, false⟩
    if startsItem tokens then return ⟨← all.item, false⟩
    let form ← all.statementExpression
    let finished ← optionalMark ";"
    return ⟨form = .verbatim, !finished && form ≠ .block⟩

/-- Reads the statements of a block. -/
def statements : Reader Unit :=
  repeatWhile do
    if ← optionalMark ";" then return true
    if ← sees atEnd then return false
    let form ← statement all
    if form.unfinished && !(← sees atEnd) then refuse
    return true

end FormattedOutput.Grammar
