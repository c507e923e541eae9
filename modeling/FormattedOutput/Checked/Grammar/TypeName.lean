import FormattedOutput.Checked.Grammar.Path

/-!
# Types

A type is a path, a tuple, a function type, a pointer or reference, an array or slice, or a sum of
bounds. Where a plus sign could also add to what the type belongs to, it ends the type.
-/

namespace FormattedOutput.Grammar

open Reader Tokens

variable (all : Nonterminals)

/-- What may stand in the place of a type, for the report that nothing of it does. -/
def typeStarts : List Wanted :=
  [.symbol "for", .group .parenthesis, .symbol "fn", .symbol "unsafe", .symbol "extern",
    .identifier, .symbol "::", .symbol "<", .group .bracket, .symbol "*", .symbol "&", .symbol "!",
    .symbol "impl", .symbol "_", .lifetime]

/-- What may follow introduced lifetimes, for the report that nothing of it does. -/
def lifetimeFollowers : List Wanted :=
  [.identifier, .symbol "fn", .symbol "unsafe", .symbol "extern", .symbol "super", .symbol "self",
    .symbol "Self", .symbol "crate"]

/-- Bounds as a type. -/
def BoundsForm.type (form : BoundsForm) : TypeForm := .bounds form.count form.trailing

/-- Why bounds without a trait are no type. -/
def objectSubject : String := "is required for an object type"

/-- Reads a path as a type; parentheses may follow its last name. -/
def pathType : Reader PathForm := do
  let form ← qualifiedPath all false
  repeatFrom form fun form => do
    if form.last = .none && startsArgumentGroup (← upcoming) then
      skipArgumentMark
      let result ← parenthesizedArguments all
      let form := { form with last := .parenthesized, anyArguments := true }
      if result = none || result = some .parenthesized then
        return (← segmentsFrom all false form, true)
      return (form, true)
    return (form, false)

/-- What stands in the parentheses of a type. -/
inductive ParenthesizedContent where
  /-- No type or several, which make a tuple. -/
  | tuple
  /-- A type that cannot be added to. -/
  | type
  /-- A bound, which can be added to; whether it has parentheses of its own. -/
  | bound (nested : Bool)
  /-- A bound that is no type. -/
  | doubtedBound
  deriving DecidableEq, Repr

/-- Reads what is inside the parentheses of a type. -/
def parenthesizedContent : Reader ParenthesizedContent :=
  inside .parenthesis do
    let tokens ← upcoming
    if atEnd tokens then return .tuple
    if startsLifetime tokens then
      let _ ← bounds all true objectSubject
      return .type
    if startsMark "?" tokens then
      traitBound all
      return .doubtedBound
    let first ← all.type true
    if ← sees startsComma then
      comma
      commaSeparated do let _ ← all.type true
      return .tuple
    match first with
    | .path form => return if form.qualified then .type else .bound false
    | .bounds 1 false => return .bound (startsGroup .parenthesis tokens)
    | _ => return .type

/-- Reads bounds that are added to one in parentheses; how many. -/
def addedBounds : Reader Nat :=
  repeatFrom 0 fun count => do
    if !(← optionalMark "+") then return (count, false)
    let _ ← bound all
    return (count + 1, true)

/-- Reads a type in parentheses, and bounds added behind them. A bound that is added to has one pair
    of parentheses. -/
def parenthesizedType (sums : Bool) : Reader TypeForm := do
  let (content, text) ← captured (parenthesizedContent all)
  match content with
  | .tuple =>
    write text
    return .other
  | .type =>
    write text
    return .parenthesized
  | .doubtedBound =>
    write text
    return .bounds ((← addedBounds all) + 1) false
  | .bound nested =>
    if sums && (← sees (startsMark "+")) then
      write (if nested then String.ofList (text.toList.drop 1).dropLast else text)
      return .bounds ((← addedBounds all) + 1) false
    write text
    return .parenthesized

/-- Reads one parameter of a function type; whether it is a receiver that can be changed. -/
def functionTypeParameter : Reader Bool := do
  let tokens ← upcoming
  if startsWord "mut" tokens && startsWord "self" (tokens.drop 1) then
    take 2
    if ← sees startsColon then
      take 1
      let _ ← all.type true
    return true
  if (startsIdentifier tokens || startsOneOf ["_", "self"] tokens) && startsColon (tokens.drop 1)
  then take 2
  if !(← optionalMark "...") then
    let _ ← all.type true
  return false

/-- Reads the parameters of a function type, which three points may end; whether one is a receiver
    that can be changed. -/
def functionTypeParameters : Reader Bool :=
  inside .parenthesis do
    repeatFrom false fun changeable => do
      if ← sees atEnd then return (changeable, false)
      outerAttributes
      if ← optionalMark "..." then return (changeable, false)
      let changeable := (← functionTypeParameter all) || changeable
      if ← sees atEnd then return (changeable, false)
      comma
      return (changeable, true)

/-- Reads the name of a calling convention. -/
def convention : Reader Unit := do
  word "extern"
  let _ ← optional startsStringLiteral 1

/-- Reads a function type, which started at `start`. It is kept as it is written if it has a
    receiver that can be changed. -/
def functionType (start : Place) : Reader Unit := do
  let _ ← optionalWord "unsafe"
  if ← sees (startsWord "extern") then convention
  word "fn"
  let changeable ← functionTypeParameters all
  let _ ← result all false
  if changeable then asWritten start (pure ())

/-- Reads a pointer type. -/
def pointerType : Reader Unit := do
  mark "*"
  if !(← optional (startsOneOf ["const", "mut"]) 1) then want [.symbol "const", .symbol "mut"]
  let _ ← all.type false

/-- Reads a reference type. -/
def referenceType : Reader Unit := do
  mark "&"
  let _ ← optionalLifetime
  let _ ← optionalWord "mut"
  let _ ← all.type false

/-- Reads an array or slice type. -/
def arrayType : Reader Unit :=
  inside .bracket do
    let _ ← all.type true
    if ← optionalMark ";" then
      let _ ← all.expression true

/-- Reads a type that starts with a name, behind introduced lifetimes or not. Objects behind a star
    are kept as they are written. -/
def namedType (sums introduced : Bool) : Reader TypeForm := do
  let start ← get
  if ← optionalWord "dyn" then
    let starred ← optionalMark "*"
    let _ ← bounds all sums objectSubject
    if starred then asWritten start (pure ())
    return .other
  let form ← pathType all
  if form.qualified then return .path form
  if startsBang (← upcoming) && !form.anyArguments then
    macroCall
    return .macroCall
  if introduced || sums && (← sees (startsMark "+")) then
    if !sums then return .bounds 1 false
    return (← boundsFrom all ⟨1, true, false⟩).type
  return .path form

/-- Whether a function type starts here. -/
def startsFunctionType (tokens : List Token) : Bool :=
  startsOneOf ["fn", "unsafe", "extern"] tokens

/-- Whether a type that starts with a name starts here. -/
def startsNamedType (tokens : List Token) : Bool :=
  startsPathWord tokens || startsMark "::" tokens || startsMark "<" tokens

/-- Reads the lifetimes that a type introduces. A name or a function type has to follow them. -/
def typeLifetimes : Reader Unit := do
  boundLifetimes
  let tokens ← upcoming
  if startsWord "dyn" tokens then refuse
  if !(startsPathWord tokens || startsFunctionType tokens) then want lifetimeFollowers

/-- Reads a type behind the lifetimes it introduces, which started at `start`. -/
def typeFrom (start : Place) (sums introduced : Bool) : Reader TypeForm := do
  let tokens ← upcoming
  if startsGroup .parenthesis tokens then parenthesizedType all sums
  else if startsFunctionType tokens then
    functionType all start
    return .other
  else if startsNamedType tokens then namedType all sums introduced
  else if startsGroup .bracket tokens then
    arrayType all
    return .other
  else if startsMark "*" tokens then
    pointerType all
    return .other
  else if startsMark "&" tokens then
    referenceType all
    return .other
  else if startsMark "!" tokens then
    take 1
    return .other
  else if startsWord "impl" tokens then
    take 1
    let _ ← bounds all sums "must be specified"
    return .other
  else if startsWord "_" tokens then
    take 1
    return .other
  else if startsLifetime tokens then
    return (← bounds all true objectSubject).type
  else want typeStarts

/-- Reads a type. -/
def type (sums : Bool) : Reader TypeForm := do
  let start ← get
  if startsWord "for" start.rest then
    led typeLifetimes (· = .macroCall) (typeFrom all start sums true)
  else typeFrom all start sums false

end FormattedOutput.Grammar
