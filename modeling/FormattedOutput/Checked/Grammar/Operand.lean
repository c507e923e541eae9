import FormattedOutput.Checked.Grammar.Pattern
import FormattedOutput.Checked.NumberLiteral

/-!
# Operands

An operand is a literal, a path, a group or a construct that starts with a keyword, with signs and
borrows in front of it and calls, fields and indices behind it. Behind a condition a brace starts a
block, so there no structure is read.
-/

namespace FormattedOutput.Grammar

open Reader Tokens

variable (all : Nonterminals)

/-- Reads an expression of any form. -/
def anyExpression : Reader Unit := do let _ ← all.expression true

/-- Reads an expression that a block follows. -/
def condition : Reader Unit := do let _ ← all.expression false

/-- Whether an expression may end here although its operator wants an operand. -/
def endsStatement (tokens : List Token) : Bool :=
  atEnd tokens || startsComma tokens || startsMark ";" tokens

/-- A point that is not part of a range sign. -/
def startsPoint (tokens : List Token) : Bool := startsMark "." tokens && !startsMark ".." tokens

/-- Whether a range may end here without an upper bound. -/
def endsOpenRange (structures : Bool) (tokens : List Token) : Bool :=
  endsStatement tokens || startsPoint tokens || !structures && startsGroup .brace tokens

/-! ### What stands behind an operand -/

/-- Reads the types between a method's name and its arguments. -/
def methodArguments : Reader Unit := do
  mark "::"
  mark "<"
  separated (startsMark ">") comma do
    let tokens ← upcoming
    if startsLiteral tokens then literal
    else if startsGroup .brace tokens then attributedBlock all
    else
      let _ ← all.type true
  mark ">"

/-- Reads the arguments of a call. -/
def callArguments : Reader Unit := inside .parenthesis (commaSeparated (anyExpression all))

/-- One of the numbers of fields that were taken for one number with a point. -/
def fieldNumber (digits : List Char) : Except SyntaxError String :=
  match NumberLiteral.integer? digits with
  | some (value, []) =>
    if value < UInt32.size then .ok (toString value) else .error .numberTooLarge
  | some (_, _ :: _) => .error (.missing [.unsuffixedInteger] false)
  | none => .error (.missing [.integerLiteral] false)

/-- Why a negative number cannot be the number of a field. -/
def negativeFieldNumber (digits : List Char) : SyntaxError :=
  match NumberLiteral.integer? digits with
  | some (_, []) => .negativeNumber
  | some (_, _ :: _) => .missing [.unsuffixedInteger] false
  | none => .missing [.integerLiteral] false

/-- Reads fields that were taken for a number with a point; whether a point ends it, so that a
    further field has to follow. -/
def fieldNumbers (source : String) : Reader Bool := do
  let parts := source.toList.splitOn '.'
  let pointed := parts.getLast? = some []
  let parts := if pointed then parts.dropLast else parts
  let numbers ← parts.mapM fun part => liftM (fieldNumber part)
  skip 1
  write (".".intercalate numbers ++ if pointed then "." else "")
  return pointed

/-- Reads a field, or a call of a method, behind its point. -/
def memberAccess : Reader Unit := do
  if ← optionalWord "await" then return
  let named ← member
  let tokens ← upcoming
  if named && startsMark "::" tokens then
    methodArguments all
    callArguments all
  else if named && startsGroup .parenthesis tokens then callArguments all

/-- Reads what stands behind a point. -/
def afterPoint : Reader Unit := do
  match ← upcoming with
  | .float source :: _ => if ← fieldNumbers source then memberAccess all
  | .mark '-' _ :: .float source :: _ =>
    throw (negativeFieldNumber (source.toList.takeWhile (· ≠ '.')))
  | _ => memberAccess all

/-- Reads everything that stands behind an operand and belongs to it. -/
def trailers (form : ExpressionForm) : Reader ExpressionForm :=
  repeatFrom form fun form => do
    let tokens ← upcoming
    if startsGroup .parenthesis tokens then
      callArguments all
      return (.other, true)
    if startsPoint tokens && form ≠ .openRange then
      take 1
      afterPoint all
      return (.other, true)
    if startsGroup .bracket tokens then
      inside .bracket (anyExpression all)
      return (.other, true)
    if ← optionalMark "?" then return (.other, true)
    return (form, false)

/-! ### Operands that start with a keyword -/

/-- Reads the label in front of a loop or block. -/
def label : Reader Unit := do
  lifetime
  mark ":"

/-- Reads a choice, all branches of it. -/
def choice : Reader Unit := do
  word "if"
  condition all
  block all
  repeatWhile do
    if !(← optionalWord "else") then return false
    let tokens ← upcoming
    if startsWord "if" tokens then
      take 1
      condition all
      block all
      return true
    if startsGroup .brace tokens then
      block all
      return false
    refuse

/-- Reads a loop with a condition. -/
def conditionalLoop : Reader Unit := do
  word "while"
  condition all
  attributedBlock all

/-- Reads a loop over the elements of something. -/
def elementLoop : Reader Unit := do
  word "for"
  openAlternatives all
  word "in"
  condition all
  attributedBlock all

/-- Reads a loop without a condition. -/
def plainLoop : Reader Unit := do
  word "loop"
  attributedBlock all

/-- Reads one case of a distinction. A comma may be missing behind a block. -/
def matchCase : Reader Unit := do
  outerAttributes
  openAlternatives all
  if ← optionalWord "if" then anyExpression all
  mark "=>"
  let form ← all.statementExpression
  if form = .block || (← sees atEnd) then
    let _ ← optional startsComma 1
  else comma

/-- Reads a distinction of cases. -/
def distinction : Reader Unit := do
  word "match"
  condition all
  inside .brace do
    innerAttributes
    repeatWhile do
      if ← sees atEnd then return false
      matchCase all
      return true

/-- Reads a condition that binds the names of a pattern. -/
def letCondition : Reader Unit := do
  word "let"
  openAlternatives all
  mark "="
  let form ← all.operand false
  let _ ← all.operators false .compare form

/-- Reads one parameter of a closure. A pattern that takes no attributes does so with a type. -/
def closureParameter : Reader Unit := do
  let _ ← attributed id do
    let verbatim ← all.pattern
    if ← optionalMark ":" then
      let _ ← all.type true
      return false
    return verbatim

/-- Reads a closure. -/
def closure (structures : Bool) : Reader Unit := do
  let _ ← optionalWord "static"
  let _ ← optionalWord "async"
  let _ ← optionalWord "move"
  mark "|"
  separated (startsMark "|") comma (closureParameter all)
  mark "|"
  if ← optionalMark "->" then
    let _ ← all.type true
    block all
  else
    let _ ← all.expression structures

/-- Reads a closure that introduces lifetimes. -/
def boundClosure (structures : Bool) : Reader Unit := do
  asWritten (← get) do
    boundLifetimes
    closure all structures

/-- Whether a closure that introduces lifetimes starts here. -/
def startsBoundClosure (tokens : List Token) : Bool :=
  startsWord "for" tokens && startsMark "<" (tokens.drop 1) &&
    (startsLifetime (tokens.drop 2) || startsMark ">" (tokens.drop 2))

/-- Reads the value that a block or function is left with, if one is given. -/
def leaving (structures : Bool) (ends : List Token → Bool) : Reader Unit := do
  if !(← sees ends) then
    let _ ← all.expression structures

/-- Reads a loop or block with a label. -/
def labelled : Reader Unit := do
  label
  let tokens ← upcoming
  if startsWord "while" tokens then conditionalLoop all
  else if startsWord "for" tokens then elementLoop all
  else if startsWord "loop" tokens then plainLoop all
  else if startsGroup .brace tokens then attributedBlock all
  else want [.loopOrBlock]

/-! ### Groups -/

/-- Reads a tuple or an expression in parentheses. -/
def parenthesized : Reader Unit := inside .parenthesis (commaSeparated (anyExpression all))

/-- Reads the elements of an array, or one element and how often it is repeated. -/
def array : Reader Unit :=
  inside .bracket do
    if ← sees atEnd then return
    anyExpression all
    if ← optionalMark ";" then anyExpression all
    else if ← sees startsComma then
      comma
      commaSeparated (anyExpression all)
    else if !(← sees atEnd) then want [.commaOrSemicolon]

/-- Reads one field of a structure. -/
def field : Reader Unit := do
  outerAttributes
  let named ← member
  if !named || (← sees (startsMark ":")) then
    mark ":"
    anyExpression all

/-- Reads the fields of a structure. -/
def structureFields : Reader Unit :=
  inside .brace do
    repeatWhile do
      if ← sees atEnd then return false
      if ← optionalMark ".." then
        if !(← sees atEnd) then anyExpression all
        return false
      field all
      if ← sees atEnd then return false
      comma
      return true

/-- Reads a path, a call of a macro, or a structure. A structure whose path starts at a type is kept
    as it is written. -/
def pathOperand (structures : Bool) : Reader ExpressionForm := do
  let start ← get
  let form ← qualifiedPath all true
  let tokens ← upcoming
  if !form.qualified && !form.anyArguments && startsBang tokens then macroCall
  else if structures && startsGroup .brace tokens then
    structureFields all
    if form.qualified then
      asWritten start (pure ())
      return .verbatim
  return .other

/-! ### Operands -/

/-- Whether a closure without introduced lifetimes starts here. -/
def startsClosure (tokens : List Token) : Bool :=
  startsMark "|" tokens ||
    startsWord "async" tokens &&
      (startsMark "|" (tokens.drop 1) || startsWord "move" (tokens.drop 1)) ||
    startsOneOf ["static", "move"] tokens

/-- Whether an asynchronous block starts here. -/
def startsAsyncBlock (tokens : List Token) : Bool :=
  startsWord "async" tokens &&
    (startsGroup .brace (tokens.drop 1) ||
      startsWord "move" (tokens.drop 1) && startsGroup .brace (tokens.drop 2))

/-- Whether a path may start here. -/
def startsPath (tokens : List Token) : Bool :=
  startsPathWord tokens || startsMark "::" tokens || startsMark "<" tokens

/-- Whether a block starts here in which an error ends the block. -/
def startsTryBlock (tokens : List Token) : Bool :=
  startsWord "try" tokens && startsGroup .brace (tokens.drop 1)

/-- Reads a construct that ends in a block, if one starts here; whether it does. -/
def blockOperand : Reader Bool := do
  let tokens ← upcoming
  if startsWord "if" tokens then choice all
  else if startsWord "while" tokens then conditionalLoop all
  else if startsWord "for" tokens then elementLoop all
  else if startsWord "loop" tokens then plainLoop all
  else if startsWord "match" tokens then distinction all
  else if startsWord "unsafe" tokens then
    take 1
    attributedBlock all
  else if startsGroup .brace tokens then attributedBlock all
  else return false
  return true

/-- Reads a construct that a keyword or a mark starts and that no block ends. -/
def markedOperand (structures : Bool) : Reader ExpressionForm := do
  let tokens ← upcoming
  if ← optionalWord "break" then
    let _ ← optionalLifetime
    leaving all structures fun tokens =>
      endsStatement tokens || !structures && startsGroup .brace tokens
    return .other
  if ← optionalWord "continue" then
    let _ ← optionalLifetime
    return .other
  if ← optionalWord "return" then
    leaving all structures endsStatement
    return .other
  if ← optionalWord "yield" then
    leaving all true endsStatement
    return .other
  if startsWord "let" tokens then
    letCondition all
    return .other
  if startsWord "const" tokens then
    constantBlock all
    return .verbatim
  if startsMark ".." tokens then
    let _ ← rangeSign
    leaving all structures (endsOpenRange structures)
    return .openRange
  if ← optionalWord "_" then return .verbatim
  want [.expression]

/-- Reads an operand without signs and without what stands behind it. -/
def atom (structures : Bool) : Reader ExpressionForm := do
  let tokens ← upcoming
  if startsLiteral tokens then
    literal
    return .other
  if startsAsyncBlock tokens then
    take 1
    let _ ← optionalWord "move"
    block all
    return .block
  if startsTryBlock tokens then
    take 1
    block all
    return .block
  if startsClosure tokens then
    closure all structures
    return .other
  if startsBoundClosure tokens then
    boundClosure all structures
    return .verbatim
  if startsPath tokens then return ← pathOperand all structures
  if startsGroup .parenthesis tokens then
    parenthesized all
    return .other
  if startsGroup .bracket tokens then
    array all
    return .other
  if startsLifetime tokens then
    labelled all
    return .block
  if ← blockOperand all then return .block
  markedOperand all structures

/-- Whether a raw borrow starts here, behind its `&`. -/
def startsRawBorrow (tokens : List Token) : Bool :=
  startsWord "raw" tokens && startsOneOf ["mut", "const"] (tokens.drop 1)

/-- Reads a borrow from its `&` on. -/
def borrow (structures : Bool) : Reader Unit := do
  mark "&"
  if ← sees startsRawBorrow then take 2
  else
    let _ ← optionalWord "mut"
  let _ ← all.operand structures

/-- Reads an operand with its signs and what stands behind it. -/
def operand (structures : Bool) : Reader ExpressionForm := do
  let start ← get
  outerAttributes
  let tokens ← upcoming
  if startsMark "&" tokens then
    borrow all structures
    if startsRawBorrow (tokens.drop 1) then
      asWritten start (pure ())
      return .verbatim
    return .other
  if startsWord "box" tokens || startsMark "*" tokens || startsMark "!" tokens ||
      startsMark "-" tokens then
    take 1
    let _ ← all.operand structures
    return .other
  trailers all (← atom all structures)

end FormattedOutput.Grammar
