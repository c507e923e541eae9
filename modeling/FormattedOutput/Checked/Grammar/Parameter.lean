import FormattedOutput.Checked.Grammar.Pattern
import FormattedOutput.Checked.Grammar.TypeName

/-!
# Parameters of items

Items have types and lifetimes as parameters, with clauses that say what these have to satisfy.
Functions have parameters with patterns, the first of which may be the receiver.
-/

namespace FormattedOutput.Grammar

open Reader Tokens

variable (all : Nonterminals)

/-- What may stand in the place of a parameter, for the report that nothing of it does. -/
def parameterStarts : List Wanted := [.lifetime, .identifier, .symbol "const"]

/-- Where the bounds of a type parameter end. -/
def endsParameterBounds (tokens : List Token) : Bool :=
  startsComma tokens || startsMark ">" tokens || startsMark "=" tokens

/-- A mark for bounds that need to hold for constants only. -/
def startsConstantBound (tokens : List Token) : Bool :=
  startsMark "~" tokens && startsWord "const" (tokens.drop 1)

/-- Reads the bounds of a type parameter; whether one is for constants only. -/
def parameterBounds : Reader Bool :=
  repeatFrom false fun constant => do
    if ← sees endsParameterBounds then return (constant, false)
    let marked ← optional startsConstantBound 2
    let _ ← bound all
    return (constant || marked, ← optionalMark "+")

/-- Reads a type parameter from behind its name on. A colon without bounds is not written down, and
    all is kept as it is written if a bound is for constants only. -/
def typeParameterRest : Reader Unit := do
  let start ← get
  let (constant, text) ← captured do
    if ← optionalMark ":" then return ← parameterBounds all
    return false
  if text ≠ ":" then write text
  if ← optionalMark "=" then
    let _ ← all.type true
  if constant then asWritten start (pure ())

/-- Reads a constant as a default value. -/
def constantArgument : Reader Unit := do
  let tokens ← upcoming
  if startsLiteral tokens then literal
  else if startsIdentifier tokens then take 1
  else if startsGroup .brace tokens then attributedBlock all
  else refuse

/-- Reads a constant parameter. -/
def constantParameter : Reader Unit := do
  word "const"
  identifier
  mark ":"
  let _ ← all.type true
  if ← optionalMark "=" then constantArgument all

/-- Reads one parameter in angle brackets. -/
def genericParameter : Reader AngledClass := do
  outerAttributes
  let tokens ← upcoming
  if startsLifetime tokens then
    lifetimeParameter
    return .lifetime
  if startsIdentifier tokens then
    take 1
    typeParameterRest all
    return .type
  if startsWord "const" tokens then
    constantParameter all
    return .type
  if ← optionalWord "_" then return .type
  want parameterStarts

/-- Reads the parameters in angle brackets, if there are any. Empty brackets are not written
    down. -/
def genericParameters : Reader Unit := do
  if ← sees (startsMark "<") then
    skip 1
    let ((), text) ← captured (angledParts (genericParameter all))
    if !(← sees (startsMark ">")) then mark ">"
    skip 1
    if text ≠ "" then write ("<" ++ text ++ ">")

/-- Where the clauses of an item end. -/
def endsClauses (tokens : List Token) : Bool :=
  atEnd tokens || startsGroup .brace tokens || startsComma tokens || startsMark ";" tokens ||
    startsColon tokens || startsMark "=" tokens

/-- Reads one clause. -/
def clause : Reader Unit := do
  let tokens ← upcoming
  if startsLifetime tokens && startsMark ":" (tokens.drop 1) then
    take 2
    summed endsClauses lifetime
  else
    if startsWord "for" tokens then boundLifetimes
    let _ ← all.type true
    mark ":"
    summed endsClauses do let _ ← bound all

/-- Reads the clauses of an item, if the word for them stands here; whether it does. The word is
    not written down without a clause. -/
def clauses : Reader Bool := do
  if ← sees (startsWord "where") then
    skip 1
    let ((), text) ← captured (repeatWhile do
      if ← sees endsClauses then return false
      clause all
      optional startsComma 1)
    if text ≠ "" then write ("where" ++ text)
    return true
  return false

/-- How many tokens a receiver takes; none if there is none here. -/
def receiverLength (tokens : List Token) : Nat :=
  let borrow := if startsMark "&" tokens then
      if startsLifetime (tokens.drop 1) then 2 else 1
    else 0
  let mutable := if startsWord "mut" (tokens.drop borrow) then 1 else 0
  let behind := tokens.drop (borrow + mutable)
  if startsWord "self" behind && !startsMark ":" (behind.drop 1) then borrow + mutable + 1 else 0

/-- Reads one parameter of a function; whether it is a receiver. A pattern may be missing in front
    of a name with arguments. -/
def functionParameter : Reader Bool := do
  outerAttributes
  if ← optionalMark "..." then return false
  outerAttributes
  let tokens ← upcoming
  let length := receiverLength tokens
  if 0 < length then
    take length
    return true
  if startsIdentifier tokens && startsMark "<" (tokens.drop 1) then
    write "_:"
    let _ ← all.type true
  else
    alternatives all
    mark ":"
    if !(← optionalMark "...") then
      let _ ← all.type true
  return false

/-- Reads the parameters of a function. A receiver is the first of them and the only one. -/
def functionParameters : Reader Unit :=
  inside .parenthesis do
    let _ ← repeatFrom (false, false) fun (any, received) => do
      if ← sees atEnd then return ((any, received), false)
      let receiver ← functionParameter all
      if receiver && received then throw .secondReceiver
      if receiver && any then throw .lateReceiver
      if ← sees atEnd then return ((true, received || receiver), false)
      comma
      return ((true, received || receiver), true)

/-- Reads the head of a function. -/
def signature : Reader Unit := do
  let _ ← optionalWord "const"
  let _ ← optionalWord "async"
  let _ ← optionalWord "unsafe"
  if ← sees (startsWord "extern") then convention
  word "fn"
  identifier
  genericParameters all
  functionParameters all
  let _ ← result all true
  let _ ← clauses all

/-- Reads how far an item is visible; whether anything says so. -/
def visibility : Reader Bool := do
  let tokens ← upcoming
  if startsWord "pub" tokens then
    take 1
    let inner := tokens.drop 2
    if startsGroup .parenthesis (tokens.drop 1) then
      if startsOneOf ["crate", "self", "super"] inner && atEnd (inner.drop 1) then take 3
      else if startsWord "in" inner then
        inside .parenthesis do
          take 1
          plainPath
    return true
  optional (fun tokens => startsWord "crate" tokens && !startsMark "::" (tokens.drop 1)) 1

end FormattedOutput.Grammar
