import FormattedOutput.Checked.Grammar.Declaration

/-!
# Members

What stands in the braces of a trait, of an implementation and of a foreign interface. A member that
has no meaning in its place is kept as it is written.
-/

namespace FormattedOutput.Grammar

open Reader Tokens

variable (all : Nonterminals)

/-- Reads members in braces, behind the attributes of what they belong to. -/
def members (member : Reader Unit) : Reader Unit :=
  inside .brace do
    innerAttributes
    repeatWhile do
      if ← sees atEnd then return false
      member
      return true

/-- What may stand in the place of a member, for the report that nothing of it does. -/
def memberStarts : List Wanted := [.symbol "fn", .symbol "const", .symbol "type"]

/-! ### Traits -/

/-- Reads a function of a trait; its body may be missing. -/
def traitFunction : Reader Unit := do
  signature all
  let tokens ← upcoming
  if startsGroup .brace tokens then attributedBlock all
  else if !(← optionalMark ";") then want [.group .brace, .symbol ";"]

/-- Reads a constant of a trait; its value may be missing. -/
def traitConstant : Reader Unit := do
  let behind := (← upcoming).drop 1
  if startsNameOrBlank behind then
    take 2
    annotation all
    if ← optionalMark "=" then anyExpression all
    mark ";"
  else if startsOneOf ["unsafe", "extern"] behind then signature all
  else
    take 1
    want [.identifier, .symbol "_", .symbol "async", .symbol "unsafe", .symbol "extern",
      .symbol "fn"]

/-- Reads a member of a trait. One that says how far it is visible, or that it is a default, is kept
    as it is written. -/
def traitMember : Reader Unit :=
  keptAsWritten do
    let visible ← visibility
    let preset ← optionalWord "default"
    let tokens ← upcoming
    if startsSignature tokens then traitFunction all
    else if startsWord "const" tokens then traitConstant all
    else if startsWord "type" tokens then
      let _ ← typeDeclaration all .behindDefinition
    else if startsMacroPath tokens then macroItem false
    else want (memberStarts ++ macroStarts)
    return visible || preset

/-! ### Implementations -/

/-- Reads a function of an implementation; its body may be missing. -/
def implementedFunction : Reader Unit := do
  signature all
  if !(← optionalMark ";") then attributedBlock all

/-- Reads a member of an implementation. A constant without a value and a type without a definition
    or with bounds are kept as they are written. -/
def implementationMember : Reader Unit :=
  keptAsWritten do
    let visible ← visibility
    let tokens ← upcoming
    let preset := startsWord "default" tokens && !startsMark "!" (tokens.drop 1)
    if preset then take 1
    let tokens ← upcoming
    if startsSignature tokens then
      implementedFunction all
      return false
    if ← optionalWord "const" then
      nameOrBlank
      annotation all
      return ← expectedValue all
    if startsWord "type" tokens then
      let type ← typeDeclaration all .behindDefinition
      return type.bounded || !type.defined
    if !visible && !preset && startsMacroPath tokens then
      macroItem false
      return false
    wantOther ((if preset then [] else [.symbol "default"]) ++ memberStarts ++
      if visible || preset then [] else macroStarts)

/-! ### Foreign interfaces -/

/-- Reads a function of a foreign interface; whether it has a body. -/
def foreignFunction : Reader Bool := do
  signature all
  if ← sees (startsGroup .brace) then
    attributedBlock all
    return true
  mark ";"
  return false

/-- Reads a variable of a foreign interface; whether it has a value. -/
def foreignVariable : Reader Bool := do
  word "static"
  let _ ← optionalWord "mut"
  identifier
  annotation all
  if ← optionalMark "=" then
    finalValue all
    return true
  mark ";"
  return false

/-- Reads a member of a foreign interface. One that is defined there is kept as it is written. -/
def foreignMember : Reader Unit :=
  keptAsWritten do
    let visible ← visibility
    let tokens ← upcoming
    if startsSignature tokens then return ← foreignFunction all
    if startsWord "static" tokens then return ← foreignVariable all
    if startsWord "type" tokens then
      let type ← typeDeclaration all .either
      return type ≠ ⟨false, false, false, false⟩
    if !visible && startsMacroPath tokens then
      macroItem false
      return false
    want ([.symbol "fn", .symbol "static", .symbol "type"] ++ if visible then [] else macroStarts)

end FormattedOutput.Grammar
