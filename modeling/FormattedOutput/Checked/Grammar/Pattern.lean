import FormattedOutput.Checked.Grammar.Path

/-!
# Patterns

A pattern is a name that is bound, a literal, a range, a path with the patterns of its parts, or a
reference, tuple or slice of patterns. Where alternatives may stand, they are separated by bars.
-/

namespace FormattedOutput.Grammar

open Reader Tokens

variable (all : Nonterminals)

/-- What may stand in the place of a pattern, for the report that nothing of it does. -/
def patternStarts : List Wanted :=
  [.symbol "::", .symbol "<", .symbol "_", .literal, .symbol "const", .symbol "ref", .symbol "mut",
    .symbol "&", .group .parenthesis, .group .bracket, .symbol ".."]

/-- What may stand in the place of a bound of a range, for the report that nothing of it does. -/
def rangeBoundStarts : List Wanted :=
  [.literal, .identifier, .symbol "::", .symbol "<", .symbol "self", .symbol "Self",
    .symbol "super", .symbol "crate", .symbol "const"]

/-- How many tokens a range sign takes; none if there is none. -/
def rangeLength (tokens : List Token) : Nat :=
  if startsMark "..=" tokens then 3
  else if startsMark "..." tokens then 3
  else if startsMark ".." tokens then 2
  else 0

/-- Reads a range sign; whether the upper bound is part of the range. A sign of three points is
    written as one that includes the bound. -/
def rangeSign : Reader Bool := do
  let tokens ← upcoming
  if startsMark "..." tokens then
    skip 3
    write "..="
    return true
  let length := rangeLength tokens
  if length = 0 then want [.symbol "..=", .symbol "...", .symbol ".."]
  take length
  return length = 3

/-- A bar between alternatives, and no operator that starts with one. -/
def startsAlternative (tokens : List Token) : Bool :=
  startsMark "|" tokens && !startsMark "||" tokens && !startsMark "|=" tokens

/-- Reads patterns of which one has to fit, a bar between two of them. -/
def alternatives : Reader Unit := do
  let _ ← all.pattern
  repeatWhile do
    if ← sees startsAlternative then
      take 1
      let _ ← all.pattern
      return true
    return false

/-- Reads alternatives that a bar may start. -/
def openAlternatives : Reader Unit := do
  let _ ← optionalMark "|"
  alternatives all

/-- Reads a constant computed in a block. It is kept as it is written. -/
def constantBlock : Reader Unit := do
  asWritten (← get) do
    word "const"
    attributedBlock all

/-- Whether a range may end here without an upper bound. -/
def endsRange (tokens : List Token) : Bool :=
  atEnd tokens || startsMark "|" tokens || startsMark "=" tokens || startsColon tokens ||
    startsComma tokens || startsMark ";" tokens

/-- Reads a bound of a range, or a constant; whether there is one. -/
def rangeBound : Reader Bool := do
  if ← sees endsRange then return false
  let _ ← optionalMark "-"
  let tokens ← upcoming
  if startsLiteral tokens then literal
  else if startsPathWord tokens || startsWord "self" tokens || startsMark "::" tokens ||
      startsMark "<" tokens then
    let _ ← qualifiedPath all true
  else if startsWord "const" tokens then constantBlock all
  else want rangeBoundStarts
  return true

/-- Keeps what was read since `start` as it is written. -/
def keepFrom (start : Place) : Reader Bool := asWritten start (pure true)

/-- Reads the rest of a range pattern from its sign on, which started at `start`. A range without an
    upper bound is kept as it is written. -/
def rangeFrom (start : Place) : Reader Bool := do
  let _ ← rangeSign
  if ← rangeBound all then return false
  keepFrom start

/-- Reads a constant or a range that starts with one. -/
def constantPattern : Reader Bool := do
  let start ← get
  let _ ← rangeBound all
  if ← sees (startsMark "..") then rangeFrom all start
  else return startsWord "const" start.rest

/-- Reads the rest of a tuple or a range without a lower bound. -/
def openRangePattern : Reader Bool := do
  let start ← get
  let included ← rangeSign
  if ← rangeBound all then return ← keepFrom start
  if included then want [.rangeEnd]
  return false

/-- Reads the patterns of a tuple. -/
def tuplePattern : Reader Unit :=
  inside .parenthesis (commaSeparated (openAlternatives all))

/-- Reads the name of a field, or its number; whether it is a name. -/
def member : Reader Bool := do
  match ← upcoming with
  | .integer _ value suffixed :: _ =>
    if suffixed then throw (.missing [.unsuffixedInteger] false)
    if UInt32.size ≤ value then throw .numberTooLarge
    skip 1
    write (toString value)
    return false
  | .mark '-' _ :: .integer _ _ suffixed :: _ =>
    if suffixed then throw (.missing [.unsuffixedInteger] false)
    throw .negativeNumber
  | tokens =>
    if startsIdentifier tokens then
      take 1
      return true
    want [.identifierOrInteger]

/-- Reads how a field is bound. -/
def bindingMode : Reader Unit := do
  let _ ← optionalWord "box"
  let _ ← optionalWord "ref"
  let _ ← optionalWord "mut"

/-- Reads the pattern of one field. How it is bound is not written down in front of a number, and
    neither is a number without a colon. -/
def fieldPattern : Reader Unit := do
  let ((), mode) ← captured bindingMode
  let (named, name) ← captured member
  let colon ← sees (startsMark ":")
  if !named || mode = "" && colon then
    if colon then
      write name
      take 1
    openAlternatives all
  else write (mode ++ name)

/-- Reads the patterns of the fields of a structure; whether the sign for all other fields has
    attributes. -/
def structurePattern : Reader Bool :=
  inside .brace do
    repeatFrom false fun _ => do
      if ← sees atEnd then return (false, false)
      let attributed ← sees (startsMark "#")
      outerAttributes
      if ← optionalMark ".." then return (attributed, false)
      fieldPattern all
      if ← sees atEnd then return (false, false)
      comma
      return (false, true)

/-- Reads a pattern that starts with a path. One whose path starts at a type is kept as it is
    written. -/
def pathPattern : Reader Bool := do
  let start ← get
  let form ← qualifiedPath all true
  let tokens ← upcoming
  if !form.qualified && !form.anyArguments && startsBang tokens then
    macroCall
    return false
  if startsGroup .brace tokens then
    let attributed ← structurePattern all
    if attributed || form.qualified then return ← keepFrom start
    return false
  if startsGroup .parenthesis tokens then
    tuplePattern all
    if form.qualified then return ← keepFrom start
    return false
  if startsMark ".." tokens then return ← rangeFrom all start
  return false

/-- Reads a pattern that binds a name. -/
def bindingPattern : Reader Unit := do
  let _ ← optionalWord "ref"
  let _ ← optionalWord "mut"
  anyWord
  if ← optionalMark "@" then
    let _ ← all.pattern

/-- Whether what follows a first name makes it the start of a path. -/
def continuesPath (tokens : List Token) : Bool :=
  startsMark "::" tokens || startsMark "!" tokens || startsGroup .brace tokens ||
    startsGroup .parenthesis tokens ||
    startsMark ".." tokens &&
      !(atEnd (tokens.drop (rangeLength tokens)) || startsComma (tokens.drop (rangeLength tokens)))

/-- Whether a pattern that starts with a path starts here. -/
def startsPathPattern (tokens : List Token) : Bool :=
  startsIdentifier tokens && continuesPath (tokens.drop 1) ||
    startsWord "self" tokens && startsMark "::" (tokens.drop 1) ||
    startsMark "::" tokens || startsMark "<" tokens || startsOneOf ["Self", "super", "crate"] tokens

/-- Reads a pattern without alternatives; whether it is kept as it is written. -/
def pattern : Reader Bool := do
  let tokens ← upcoming
  if startsPathPattern tokens then return ← pathPattern all
  if startsMark "-" tokens || startsLiteral tokens || startsWord "const" tokens then
    return ← constantPattern all
  if startsMark ".." tokens && !startsMark "..." tokens then return ← openRangePattern all
  if startsWord "_" tokens then take 1
  else if startsWord "box" tokens then
    take 1
    let _ ← all.pattern
  else if startsOneOf ["ref", "mut", "self"] tokens || startsIdentifier tokens then
    bindingPattern all
  else if startsMark "&" tokens then
    take 1
    let _ ← optionalWord "mut"
    let _ ← all.pattern
  else if startsGroup .parenthesis tokens then tuplePattern all
  else if startsGroup .bracket tokens then
    inside .bracket (commaSeparated (openAlternatives all))
  else wantOther patternStarts
  return false

end FormattedOutput.Grammar
