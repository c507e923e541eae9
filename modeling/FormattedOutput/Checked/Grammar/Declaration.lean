import FormattedOutput.Checked.Grammar.Operand
import FormattedOutput.Checked.Grammar.Parameter

/-!
# What items declare

The fields of data, constants, variables, names of types and names to import, as they stand in
items and in the members of traits and implementations. Some are read although they have no meaning
where they stand; these are kept as they are written.
-/

namespace FormattedOutput.Grammar

open Reader Tokens

variable (all : Nonterminals)

/-- Reads something with the attributes in front of it. It is kept as it is written if it says
    so. -/
def keptAsWritten (content : Reader Bool) : Reader Unit := do
  let start ← get
  outerAttributes
  if ← content then asWritten start (pure ())

/-- Whether a name or the sign for no name stands here. -/
def startsNameOrBlank (tokens : List Token) : Bool :=
  startsIdentifier tokens || startsWord "_" tokens

/-- Reads a name or the sign for no name. -/
def nameOrBlank : Reader Unit := do
  if !(← optional startsNameOrBlank 1) then want [.identifier, .symbol "_"]

/-! ### Data -/

/-- Whether data without a name is described here in place of a type. -/
def startsUnnamedData (tokens : List Token) : Bool :=
  startsWord "struct" tokens ||
    startsWord "union" tokens && startsGroup .brace (tokens.drop 1)

/-- Reads fields with names. Where a field has no name, its own fields may stand for its type; they
    are read at a depth of nesting that the tokens cannot reach. -/
def namedFieldsUpTo : Nat → Reader Unit
  | 0 => refuse
  | depth + 1 =>
    inside .brace <| commaSeparated do
      outerAttributes
      let _ ← visibility
      let unnamed ← optionalWord "_"
      if !unnamed then identifier
      mark ":"
      if unnamed && (← sees startsUnnamedData) then
        asWritten (← get) do
          take 1
          namedFieldsUpTo depth
      else
        let _ ← all.type true

/-- Reads fields with names. -/
def namedFields : Reader Unit := do namedFieldsUpTo all ((← upcoming).length + 1)

/-- Reads fields without names. -/
def unnamedFields : Reader Unit :=
  inside .parenthesis <| commaSeparated do
    outerAttributes
    let _ ← visibility
    let _ ← all.type true

/-- Reads the body of a structure. -/
def structureBody : Reader Unit := do
  let claused ← clauses all
  let tokens ← upcoming
  if !claused && startsGroup .parenthesis tokens then
    unnamedFields all
    let again ← clauses all
    if !(← optionalMark ";") then
      want (if again then [.symbol ";"] else [.symbol "where", .symbol ";"])
  else if startsGroup .brace tokens then namedFields all
  else if !(← optionalMark ";") then
    want (if claused then [.group .brace, .symbol ";"]
      else [.symbol "where", .group .parenthesis, .group .brace, .symbol ";"])

/-- Reads one case of an enumeration. A visibility is allowed and not written down. -/
def enumerationCase : Reader Unit := do
  outerAttributes
  let _ ← captured visibility
  identifier
  let tokens ← upcoming
  if startsGroup .brace tokens then namedFields all
  else if startsGroup .parenthesis tokens then unnamedFields all
  if ← optionalMark "=" then anyExpression all

/-! ### Constants and names of types -/

/-- Reads the type that a name is given. -/
def annotation : Reader Unit := do
  mark ":"
  let _ ← all.type true

/-- Reads a value and the semicolon behind it. -/
def finalValue : Reader Unit := do
  anyExpression all
  mark ";"

/-- Reads the value of a constant of a module; whether it is missing. -/
def requiredValue : Reader Bool := do
  if ← optionalMark ";" then return true
  mark "="
  finalValue all
  return false

/-- Reads the value of a constant of an implementation; whether it is missing. -/
def expectedValue : Reader Bool := do
  if ← optionalMark "=" then
    finalValue all
    return false
  mark ";"
  return true

/-- Where the clauses of the name of a type may stand. -/
inductive ClausePlace where
  | beforeDefinition
  | behindDefinition
  | either
  deriving DecidableEq, Repr

/-- The name of a type that was read. -/
structure TypeDeclaration where
  /-- Parameters are announced, even if there are none. -/
  parameterized : Bool
  /-- Bounds are announced, even if there are none. -/
  bounded : Bool
  defined : Bool
  claused : Bool
  deriving DecidableEq, Repr

/-- Where the bounds of a type that is declared end. -/
def endsDeclaredBounds (tokens : List Token) : Bool :=
  startsWord "where" tokens || startsMark "=" tokens || startsMark ";" tokens

/-- Reads bounds up to a place that passes a test, with plus signs between them. -/
def boundsUpTo (finished : List Token → Bool) : Reader Unit :=
  separated finished (mark "+") do let _ ← bound all

/-- Reads the name of a type, with bounds and a definition as far as they are given. -/
def typeDeclaration (place : ClausePlace) : Reader TypeDeclaration := do
  word "type"
  identifier
  let parameterized ← sees (startsMark "<")
  genericParameters all
  let bounded ← sees (startsMark ":")
  introduced ":" (boundsUpTo all endsDeclaredBounds)
  let claused ← if place = .behindDefinition then pure false else clauses all
  let defined ← optionalMark "="
  if defined then
    let _ ← all.type true
  let claused ← if claused || place = .beforeDefinition then pure claused else clauses all
  mark ";"
  return ⟨parameterized, bounded, defined, claused⟩

/-! ### Functions and calls of macros -/

/-- Whether a function starts here. -/
def startsSignature (tokens : List Token) : Bool :=
  let past (word : String) (tokens : List Token) : List Token :=
    if startsWord word tokens then tokens.drop 1 else tokens
  let tokens := past "unsafe" (past "async" (past "const" tokens))
  let named := startsWord "extern" tokens && startsStringLiteral (tokens.drop 1)
  startsWord "fn" (if named then tokens.drop 2 else past "extern" tokens)

/-- What a call of a macro may start with where items stand. -/
def macroStarts : List Wanted :=
  [.identifier, .symbol "self", .symbol "super", .symbol "crate", .symbol "::"]

/-- Whether a call of a macro may start here. -/
def startsMacroPath (tokens : List Token) : Bool :=
  startsIdentifier tokens || startsOneOf ["self", "super", "crate"] tokens ||
    startsMark "::" tokens

/-- Reads a call of a macro where items stand; whether it may define a name. Behind other brackets
    than braces a semicolon follows. -/
def macroItem (mayName : Bool) : Reader Unit := do
  plainPath
  mark "!"
  if mayName then
    let _ ← optional startsIdentifier 1
  let braced ← sees (startsGroup .brace)
  anyGroup
  if !braced then mark ";"

/-! ### Imports -/

/-- Reads several names that an import brings in; whether the root of all names is mentioned. -/
def importList (rootAllowed : Bool) : Reader Bool :=
  inside .brace do
    repeatFrom false fun rooted => do
      if ← sees atEnd then return (rooted, false)
      let here ← if rootAllowed then optionalMark "::" else pure false
      let within ← all.importTree (rootAllowed && !here)
      let rooted := rooted || here || within
      if ← sees atEnd then return (rooted, false)
      comma
      return (rooted, true)

/-- Reads the names that an import brings in; whether the root of all names is mentioned, which
    may be where the import itself does not mention it. -/
def importTree (rootAllowed : Bool) : Reader Bool := do
  let tokens ← upcoming
  if startsIdentifier tokens || startsOneOf ["self", "super", "crate"] tokens then
    take 1
    if ← optionalMark "::" then return ← all.importTree false
    if ← optionalWord "as" then
      if !(← optional startsNameOrBlank 1) then want [.identifierOrUnderscore]
    return false
  if ← optionalMark "*" then return false
  if startsGroup .brace tokens then return ← importList all rootAllowed
  want [.identifier, .symbol "self", .symbol "super", .symbol "crate", .symbol "*", .group .brace]

end FormattedOutput.Grammar
