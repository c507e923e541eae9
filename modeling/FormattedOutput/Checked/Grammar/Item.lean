import FormattedOutput.Checked.Grammar.Member

/-!
# Items

An item declares a function, a type, a trait, a constant, a module or names to import. Items may
stand in blocks, among the statements.
-/

namespace FormattedOutput.Grammar

open Reader Tokens

variable (all : Nonterminals)

/-- How an item is written down. -/
inductive ItemForm where
  | ordinary
  /-- As it is written, with the attributes in front of it. -/
  | verbatim
  /-- Without the attributes in front of it. -/
  | bare
  deriving DecidableEq, Repr

/-- The form of an item that is kept as it is written or not. -/
def ItemForm.ofVerbatim (verbatim : Bool) : ItemForm := if verbatim then .verbatim else .ordinary

/-! ### Functions, constants and types -/

/-- Reads a function; whether its body is missing. -/
def functionItem : Reader Bool := do
  signature all
  if ← optionalMark ";" then return true
  attributedBlock all
  return false

/-- Reads a constant; whether its value is missing. -/
def constantItem : Reader Bool := do
  word "const"
  nameOrBlank
  annotation all
  requiredValue all

/-- Reads a variable; whether its type or its value is missing. -/
def variableItem : Reader Bool := do
  word "static"
  let _ ← optionalWord "mut"
  identifier
  if ← optionalMark "=" then
    finalValue all
    return true
  annotation all
  requiredValue all

/-- Reads the name of a type; whether it has bounds or no definition. -/
def typeItem : Reader Bool := do
  let type ← typeDeclaration all .beforeDefinition
  return type.bounded || !type.defined

/-- Reads the name of a type of which only bounds are known. -/
def existentialType : Reader Unit := do
  word "existential"
  word "type"
  identifier
  genericParameters all
  let _ ← clauses all
  if !(← sees (startsMark ":")) then mark ":"
  introduced ":" do
    if !(← sees (startsMark ";")) then
      repeatWhile do
        let _ ← bound all
        if ← sees (startsMark ";") then return false
        mark "+"
        return true
  mark ";"

/-- Reads the name and the parameters of an item behind the word for its kind. -/
def header : Reader Unit := do
  take 1
  identifier
  genericParameters all

/-- Reads data whose fields share their place. -/
def unionItem : Reader Unit := do
  header all
  let _ ← clauses all
  namedFields all

/-- Reads an enumeration. -/
def enumeration : Reader Unit := do
  header all
  let _ ← clauses all
  inside .brace (commaSeparated (enumerationCase all))

/-! ### Traits and implementations -/

/-- Reads a trait from behind its parameters on. -/
def traitRest : Reader Unit := do
  introduced ":" <| boundsUpTo all fun tokens =>
    startsWord "where" tokens || startsGroup .brace tokens
  let _ ← clauses all
  members (traitMember all)

/-- Reads a trait with the words that say of what kind it is. -/
def traitItem : Reader Unit := do
  let _ ← optionalWord "unsafe"
  let _ ← optionalWord "auto"
  header all
  traitRest all

/-- Reads a trait, or another name for a sum of traits. -/
def traitOrAlias : Reader Unit := do
  header all
  let tokens ← upcoming
  if startsGroup .brace tokens || startsMark ":" tokens || startsWord "where" tokens then
    traitRest all
  else if ← optionalMark "=" then
    boundsUpTo all fun tokens => startsWord "where" tokens || startsMark ";" tokens
    let _ ← clauses all
    mark ";"
  else want [.group .brace, .symbol ":", .symbol "where", .symbol "="]

/-- Whether angle brackets behind `impl` introduce parameters. -/
def startsImplParameters (tokens : List Token) : Bool :=
  let inner := tokens.drop 1
  let behind := tokens.drop 2
  startsMark "<" tokens &&
    (startsMark ">" inner || startsMark "#" inner ||
      (startsIdentifier inner || startsLifetime inner) &&
        (startsMark ":" behind || startsComma behind || startsMark ">" behind ||
          startsMark "=" behind) ||
      startsWord "const" inner)

/-- Whether a type can name the trait of an implementation. -/
def TypeForm.namesTrait : TypeForm → Bool
  | .path form => !form.qualified
  | _ => false

/-- Reads the type of an implementation, or the trait and the type; whether something else stands in
    the place of the trait. -/
def implementedType : Reader Bool := do
  let start ← get
  let negative := startsMark "!" start.rest && !startsGroup .brace (start.rest.drop 1)
  if negative then take 1
  let form ← all.type true
  if ← optionalWord "for" then
    let _ ← all.type true
    return !form.namesTrait
  if negative then asWritten start (pure ())
  return false

/-- Reads an implementation; whether it is one for constants only, or the trait has another form
    than a path. -/
def implementation : Reader Bool := do
  let _ ← optionalWord "default"
  let _ ← optionalWord "unsafe"
  word "impl"
  if ← sees startsImplParameters then genericParameters all
  let tokens ← upcoming
  let doubted := startsMark "?" tokens && startsWord "const" (tokens.drop 1)
  let constant := doubted || startsWord "const" tokens
  if constant then take (if doubted then 2 else 1)
  let untraited ← implementedType all
  let _ ← clauses all
  members (implementationMember all)
  return constant || untraited

/-! ### Modules, foreign interfaces and macros -/

/-- Reads a module. -/
def moduleItem : Reader Unit := do
  word "mod"
  identifier
  if ← sees (startsGroup .brace) then
    members do let _ ← all.item
  else if !(← optionalMark ";") then want [.symbol ";", .group .brace]

/-- Reads a foreign interface. -/
def foreignInterface : Reader Unit := do
  convention
  members (foreignMember all)

/-- Reads the name of a foreign module. -/
def foreignModule : Reader Unit := do
  take 2
  if !(← optionalWord "self") then identifier
  if ← optionalWord "as" then
    if !(← optionalWord "_") then identifier
  mark ";"

/-- Reads a foreign interface, which has no visibility, or the name of a foreign module. -/
def foreignItem (visible : Bool) : Reader Unit := do
  let behind := (← upcoming).drop 1
  let named := startsStringLiteral behind
  if startsWord "crate" behind then foreignModule
  else if named || startsGroup .brace behind then
    if visible && startsGroup .brace (if named then behind.drop 1 else behind) then
      throw (.missing [.symbol "extern"] false)
    foreignInterface all
  else
    take 1
    want [.symbol "crate", .group .brace, .stringLiteral]

/-- Reads the definition of a macro. -/
def macroDefinition : Reader Unit := do
  word "macro"
  identifier
  let tokens ← upcoming
  if startsGroup .parenthesis tokens then
    anyGroup
    if ← sees (startsGroup .brace) then anyGroup else want [.group .brace]
  else if startsGroup .brace tokens then anyGroup
  else want [.group .parenthesis, .group .brace]

/-- Reads names to import; whether the root of all names is mentioned inside braces. -/
def importItem : Reader Bool := do
  word "use"
  let rooted ← optionalMark "::"
  let within ← all.importTree !rooted
  mark ";"
  return within

/-! ### All items -/

/-- Reads an item that is not safe to rely on; whether it is kept as it is written. -/
def unsafeItem : Reader Bool := do
  let behind := (← upcoming).drop 1
  if startsWord "trait" behind || startsWord "auto" behind && startsWord "trait" (behind.drop 1)
  then
    traitItem all
    return false
  if startsWord "impl" behind then return ← implementation all
  take 1
  if startsWord "extern" behind then foreignInterface all
  else if startsWord "mod" behind then moduleItem all
  else
    wantOther [.symbol "trait", .symbol "auto", .symbol "impl", .symbol "extern", .symbol "mod"]
  return true

/-- What may stand in the place of an item, for the report that nothing of it does. -/
def itemStarts : List Wanted :=
  [.symbol "fn", .symbol "extern", .symbol "use", .symbol "static", .symbol "const",
    .symbol "unsafe", .symbol "mod", .symbol "type", .symbol "existential", .symbol "struct",
    .symbol "enum", .symbol "union", .symbol "trait", .symbol "auto", .symbol "impl",
    .symbol "default", .symbol "macro"]

/-- Reads an item that can be kept as it is written, if one starts here; whether it is. -/
def doubtfulItem (visible : Bool) : Reader (Option Bool) := do
  let tokens ← upcoming
  if startsSignature tokens then return some (← functionItem all)
  if startsWord "use" tokens then return some (← importItem all)
  if startsWord "static" tokens then return some (← variableItem all)
  if startsWord "const" tokens then return some (← constantItem all)
  if startsWord "unsafe" tokens then
    let withVisibility := visible && startsWord "impl" (tokens.drop 1)
    return some ((← unsafeItem all) || withVisibility)
  if startsWord "type" tokens then return some (← typeItem all)
  if startsWord "impl" tokens || startsWord "default" tokens && !startsMark "!" (tokens.drop 1)
  then return some ((← implementation all) || visible)
  return none

/-- Reads an item that always has a meaning of its own. -/
def plainItem (visible : Bool) : Reader Unit := do
  let tokens ← upcoming
  let next := tokens.drop 1
  if startsWord "extern" tokens then foreignItem all visible
  else if startsWord "mod" tokens then moduleItem all
  else if startsWord "struct" tokens then
    header all
    structureBody all
  else if startsWord "enum" tokens then enumeration all
  else if startsWord "union" tokens && startsIdentifier next then unionItem all
  else if startsWord "trait" tokens then traitOrAlias all
  else if startsWord "auto" tokens && startsWord "trait" next then traitItem all
  else if startsWord "macro" tokens then macroDefinition
  else if !visible && startsMacroPath tokens then macroItem true
  else wantOther (itemStarts ++ if visible then [] else macroStarts)

/-- Reads an item behind its attributes. -/
def itemBody : Reader ItemForm := do
  let visible ← visibility
  match ← doubtfulItem all visible with
  | some verbatim => return .ofVerbatim verbatim
  | none =>
    if ← sees (startsWord "existential") then
      existentialType all
      return .bare
    plainItem all visible
    return .ordinary

/-- Reads an item; whether it is kept as it is written or takes no attributes. -/
def item : Reader Bool := do
  let start ← get
  let form ← attributed (· = .bare) (itemBody all)
  if form = .verbatim then asWritten start (pure ())
  return form ≠ .ordinary

end FormattedOutput.Grammar
