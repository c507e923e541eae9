import FormattedOutput.Checked.Grammar.Attribute
import FormattedOutput.Checked.Grammar.Nonterminals

/-!
# Paths and their arguments

A path is a row of names with `::` between them, and each name may have arguments in angle
brackets. In an expression these need a `::` in front, since a bare `<` compares there. Bounds name
the traits and lifetimes that a type has to satisfy.
-/

namespace FormattedOutput.Grammar

open Reader Tokens

variable (all : Nonterminals)

/-- Reads a call of a macro behind its path: the exclamation mark and brackets. -/
def macroCall : Reader Unit := do
  mark "!"
  anyGroup

/-- An exclamation mark that is not part of a comparison. -/
def startsBang (tokens : List Token) : Bool := startsMark "!" tokens && !startsMark "!=" tokens

/-- A colon that is not part of a `::`. -/
def startsColon (tokens : List Token) : Bool := startsMark ":" tokens && !startsMark "::" tokens

/-- Reads the result type of a function if it is given; its form. -/
def result (sums : Bool) : Reader (Option TypeForm) := do
  if ← optionalMark "->" then return some (← all.type sums)
  return none

/-- Reads types in parentheses and a result type. -/
def parenthesizedArguments : Reader (Option TypeForm) := do
  inside .parenthesis (commaSeparated do let _ ← all.type true)
  result all false

/-- Whether parentheses follow, or a `::` and parentheses. -/
def startsArgumentGroup (tokens : List Token) : Bool :=
  startsGroup .parenthesis tokens ||
    startsMark "::" tokens && startsGroup .parenthesis (tokens.drop 2)

/-- Passes over the `::` that may stand in front of parentheses. -/
def skipArgumentMark : Reader Unit := do
  if ← sees (startsMark "::") then skip 2

/-- Reads what a mark introduces, if the mark stands here. It is not written down if nothing
    follows it. -/
def introduced (symbol : String) (content : Reader Unit) : Reader Unit := do
  if ← sees (startsMark symbol) then
    skip symbol.length
    let ((), text) ← captured content
    if text ≠ "" then write (symbol ++ text)

/-- Reads a lifetime that is introduced, with its own bounds. -/
def lifetimeParameter : Reader Unit := do
  outerAttributes
  lifetime
  introduced ":" (summed (fun tokens => startsComma tokens || startsMark ">" tokens) lifetime)

/-- Reads the lifetimes that a bound introduces. -/
def boundLifetimes : Reader Unit := do
  word "for"
  mark "<"
  separated (startsMark ">") comma lifetimeParameter
  mark ">"

/-- Reads a trait as a bound. -/
def traitBound : Reader Unit := do
  let tokens ← upcoming
  if startsMark "~" tokens && startsWord "const" (tokens.drop 1) then take 2
  let _ ← optionalMark "?"
  if ← sees (startsWord "for") then boundLifetimes
  let form ← all.path false
  if form.last = .none && startsArgumentGroup (← upcoming) then
    skipArgumentMark
    let _ ← parenthesizedArguments all

/-- Reads one bound; whether it is a trait. -/
def bound : Reader Bool := do
  if ← optionalLifetime then return false
  if ← sees (startsGroup .parenthesis) then inside .parenthesis (traitBound all)
  else traitBound all
  return true

/-- Whether a further bound may start here. -/
def startsBound (tokens : List Token) : Bool :=
  startsAnyWord tokens || startsMark "::" tokens || startsMark "?" tokens ||
    startsLifetime tokens || startsGroup .parenthesis tokens || startsMark "~" tokens

/-- The bounds that were read: how many, whether one is a trait, and whether a plus ends them. -/
structure BoundsForm where
  count : Nat
  anyTrait : Bool
  trailing : Bool

/-- Reads further bounds, each behind a plus. -/
def boundsFrom (start : BoundsForm) : Reader BoundsForm :=
  repeatFrom start fun form => do
    if !(← optionalMark "+") then return (form, false)
    if !(← sees startsBound) then return ({ form with trailing := true }, false)
    let isTrait ← bound all
    return (⟨form.count + 1, form.anyTrait || isTrait, false⟩, true)

/-- Reads bounds, of which one has to be a trait; several if a sum may stand here. -/
def bounds (sums : Bool) (subject : String) : Reader BoundsForm := do
  let isTrait ← bound all
  let form ← if sums then boundsFrom all ⟨1, isTrait, false⟩ else pure ⟨1, isTrait, false⟩
  if form.anyTrait then return form
  throw (.lifetimesOnly subject)

/-- Reads a block: statements in braces. -/
def block : Reader Unit := inside .brace all.statements

/-- Reads a block that may have attributes inside. -/
def attributedBlock : Reader Unit :=
  inside .brace do
    innerAttributes
    all.statements

/-- What stands in angle brackets is written in this order. -/
inductive AngledClass where
  | lifetime
  | type
  | binding
  deriving DecidableEq, Repr

/-- Something in angle brackets that was read: its class, its text, and whether a comma follows. -/
structure AngledPart where
  order : AngledClass
  text : String
  followed : Bool

/-- Writes the parts of one class, with a comma in front of the first if one is missing there;
    whether one is missing behind the last. -/
def writeParts (parts : List AngledPart) (order : AngledClass) (separate : Bool) : Reader Bool :=
  (parts.filter (·.order = order)).foldlM (fun separate part => do
    if separate && order ≠ .lifetime then write ","
    write (part.text ++ if part.followed then "," else "")
    return !part.followed) separate

/-- Reads parts up to the closing angle bracket. They are written lifetimes first and bindings
    last. -/
def angledParts (part : Reader AngledClass) : Reader Unit := do
  let parts ← repeatFrom [] fun found => do
    if ← sees (startsMark ">") then return (found, false)
    let (order, text) ← captured part
    if ← sees (startsMark ">") then return (found ++ [⟨order, text, false⟩], false)
    let _ ← captured comma
    return (found ++ [⟨order, text, true⟩], true)
  let separate ← writeParts parts .lifetime false
  let separate ← writeParts parts .type separate
  let _ ← writeParts parts .binding separate

/-- Reads the bounds of an associated type. -/
def associatedBounds : Reader Unit :=
  summed (fun tokens => startsComma tokens || startsMark ">" tokens) do let _ ← bound all

/-- Reads the type or constant that an associated name is bound to. -/
def bindingValue : Reader Unit := do
  let tokens ← upcoming
  if startsLiteral tokens then literal
  else if startsGroup .brace tokens then
    let start ← get
    asWritten start (attributedBlock all)
  else
    let _ ← all.type true

/-- Reads one argument in angle brackets. -/
def genericArgument : Reader AngledClass := do
  let start ← get
  let tokens := start.rest
  if startsLifetime tokens && !startsMark "+" (tokens.drop 1) then
    take 1
    return .lifetime
  if startsIdentifier tokens && startsMark "=" (tokens.drop 1) then
    take 2
    bindingValue all
    return .binding
  if startsIdentifier tokens && startsColon (tokens.drop 1) then
    take 2
    associatedBounds all
    return .binding
  if startsLiteral tokens then
    literal
    return .type
  if startsGroup .brace tokens then
    attributedBlock all
    return .type
  let form ← all.type true
  if form = .path ⟨false, false, 1, .angled, true⟩ then
    if ← optionalMark "=" then
      let _ ← asWritten start (all.type true)
    else if ← optionalMark ":" then
      asWritten start (associatedBounds all)
  return .type

/-- Reads arguments in angle brackets. -/
def genericArguments : Reader Unit := do
  let _ ← optionalMark "::"
  mark "<"
  angledParts (genericArgument all)
  mark ">"

/-- Reads one segment of a path; its arguments. Empty angle brackets are not written down where
    parentheses follow in their place. -/
def segment (inExpression : Bool) : Reader SegmentArguments := do
  if ← optional (startsOneOf ["super", "self", "crate"]) 1 then return .none
  if !(← optionalWord "Self") then identifier
  let tokens ← upcoming
  if !inExpression && startsMark "<" tokens && !startsMark "<=" tokens ||
      startsMark "::" tokens && startsMark "<" (tokens.drop 2) then
    let ((), text) ← captured (genericArguments all)
    if !inExpression && text ∈ ["<>", "::<>"] && startsArgumentGroup (← upcoming) then return .none
    write text
    return .angled
  return .none

/-- A path with one more segment. -/
def PathForm.extend (form : PathForm) (last : SegmentArguments) : PathForm :=
  { form with
    segments := form.segments + 1
    last := last
    anyArguments := form.anyArguments || last ≠ .none }

/-- Reads further segments of a path. Parentheses behind a `::` are left. -/
def segmentsFrom (inExpression : Bool) (form : PathForm) : Reader PathForm :=
  repeatFrom form fun form => do
    let tokens ← upcoming
    if startsMark "::" tokens && !startsGroup .parenthesis (tokens.drop 2) then
      take 2
      return (form.extend (← segment all inExpression), true)
    return (form, false)

/-- Reads a path. -/
def path (inExpression : Bool) : Reader PathForm := do
  let rooted ← optionalMark "::"
  let form : PathForm := ⟨false, rooted, 0, .none, false⟩
  segmentsFrom all inExpression (form.extend (← segment all inExpression))

/-- Reads a path that may start at a type in angle brackets, seen as some trait. -/
def qualifiedPath (inExpression : Bool) : Reader PathForm := do
  if !(← optionalMark "<") then return ← all.path inExpression
  let _ ← all.type true
  if ← optionalWord "as" then
    let _ ← all.path false
  mark ">"
  mark "::"
  let form : PathForm := ⟨true, false, 0, .none, false⟩
  repeatFrom form fun form => do
    let form := form.extend (← segment all inExpression)
    return (form, ← optionalMark "::")

end FormattedOutput.Grammar
