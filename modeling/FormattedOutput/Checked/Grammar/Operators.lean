import FormattedOutput.Checked.Grammar.Operand

/-!
# Operators between operands

Operators are read by precedence: the right operand of an operator takes all operators that bind
more strongly, and those of an assignment also further assignments.
-/

namespace FormattedOutput.Grammar

open Reader Tokens

variable (all : Nonterminals)

/-- The operators of two operands. Of those that fit, the first is meant. -/
def binaryOperators : List (String × Precedence) :=
  [("+=", .assign), ("-=", .assign), ("*=", .assign), ("/=", .assign), ("%=", .assign),
    ("^=", .assign), ("&=", .assign), ("|=", .assign), ("<<=", .assign), (">>=", .assign),
    ("&&", .and), ("||", .or), ("<<", .shift), (">>", .shift), ("==", .compare), ("<=", .compare),
    ("!=", .compare), (">=", .compare), ("+", .arithmetic), ("-", .arithmetic), ("*", .term),
    ("/", .term), ("%", .term), ("^", .bitXor), ("&", .bitAnd), ("|", .bitOr), ("<", .compare),
    (">", .compare)]

/-- The operator of two operands that stands here: how many tokens it takes, and how strongly it
    binds. -/
def binaryOperator? (tokens : List Token) : Option (Nat × Precedence) :=
  (binaryOperators.find? fun (symbol, _) => startsMark symbol tokens).map
    fun (symbol, precedence) => (symbol.length, precedence)

/-- An equals sign by itself. -/
def startsAssignment (tokens : List Token) : Bool :=
  startsMark "=" tokens && !startsMark "==" tokens && !startsMark "=>" tokens

/-- Whether a type is given to the operand before. -/
def startsCast (tokens : List Token) : Bool := startsWord "as" tokens || startsColon tokens

/-- How strongly what stands here binds the operand before. -/
def upcomingPrecedence (tokens : List Token) : Precedence :=
  match binaryOperator? tokens with
  | some (_, precedence) => precedence
  | none =>
    if startsMark "=" tokens && !startsMark "=>" tokens then .assign
    else if startsMark ".." tokens then .range
    else if startsCast tokens then .cast
    else .any

/-- Reads a right operand with the operators that bind it more strongly. -/
def rightOperand (structures : Bool) (takes : Precedence → Bool) : Reader Unit := do
  let form ← all.operand structures
  let _ ← repeatFrom form fun form => do
    let next := upcomingPrecedence (← upcoming)
    if takes next then return (← all.operators structures next form, true)
    return (form, false)

/-- What a cast cannot be followed by, if it stands here. -/
def castContinuation? (tokens : List Token) : Option String :=
  if startsPoint tokens then
    let behind := tokens.drop 1
    if startsWord "await" behind then some "`.await`"
    else if startsIdentifier behind &&
        (startsGroup .parenthesis (behind.drop 1) || startsMark "::" (behind.drop 1)) then
      some "a method call"
    else some "a field access"
  else if startsMark "?" tokens then some "`?`"
  else if startsGroup .bracket tokens then some "indexing"
  else if startsGroup .parenthesis tokens then some "a function call"
  else none

/-- Reads the type that an operand is given. -/
def cast : Reader Unit := do
  take 1
  let _ ← all.type false
  match castContinuation? (← upcoming) with
  | some continuation => throw (.castFollowed continuation)
  | none => return

/-- The form of an expression that an operator of two operands or an assignment makes of its first
    operand. -/
def ExpressionForm.combined (form : ExpressionForm) : ExpressionForm :=
  if form = .verbatim then .verbatim else .other

/-- Reads the operators of at least some precedence behind an operand, with their right
    operands. -/
def operators (structures : Bool) (least : Precedence) (form : ExpressionForm) :
    Reader ExpressionForm :=
  repeatFrom form fun form => do
    let tokens ← upcoming
    let reaches (precedence : Precedence) : Bool := least.rank ≤ precedence.rank
    match (binaryOperator? tokens).filter fun (_, precedence) => reaches precedence with
    | some (length, precedence) =>
      take length
      rightOperand all structures fun next =>
        precedence.rank < next.rank || next = precedence && precedence = .assign
      return (form.combined, true)
    | none =>
      if reaches .assign && startsAssignment tokens then
        take 1
        rightOperand all structures fun next => Precedence.assign.rank ≤ next.rank
        return (form.combined, true)
      if reaches .range && startsMark ".." tokens then
        let _ ← rangeSign
        if !(← sees (endsOpenRange structures)) then
          rightOperand all structures fun next => Precedence.range.rank < next.rank
        return (.other, true)
      if startsCast tokens then
        cast all
        return (.other, true)
      return (form, false)

/-- Reads an expression. -/
def expression (structures : Bool) : Reader ExpressionForm := do
  let form ← all.operand structures
  all.operators structures .any form

end FormattedOutput.Grammar
