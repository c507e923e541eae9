import FormattedOutput.Checked.SyntaxError

/-!
# Readers

A reader takes tokens from the front of a list, or says why they do not fit. What it takes is
written down as it goes, since the text of what was read is all that is kept of it. A reader that
works inside brackets sees their closing bracket as the end of the tokens.
-/

namespace FormattedOutput

/-- A place between tokens. -/
structure Place where
  /-- The tokens that follow. -/
  rest : List Token
  /-- The text of what was read. -/
  text : String
  /-- Some brackets held more than what was asked for. -/
  surplus : Bool

/-- A reader of something with a result. -/
abbrev Reader (α : Type) := StateT Place (Except SyntaxError) α

namespace Tokens

/-- The tokens end here, or the brackets around them do. -/
def atEnd : List Token → Bool
  | [] => true
  | .closing _ :: _ => true
  | _ => false

/-- The marks of a symbol stand here, all but the last joined to the next. -/
def spells : List Char → List Token → Bool
  | [], _ => true
  | [symbol], .mark found _ :: _ => found = symbol
  | symbol :: symbols, .mark found joint :: rest =>
    found = symbol && joint && spells symbols rest
  | _, _ => false

/-- A symbol of punctuation marks stands here, whatever follows it. -/
def startsMark (symbol : String) (tokens : List Token) : Bool := spells symbol.toList tokens

/-- A comma stands here. -/
def startsComma : List Token → Bool
  | .comma :: _ => true
  | _ => false

/-- A certain word stands here. -/
def startsWord (word : String) : List Token → Bool
  | .word found :: _ => found = word
  | _ => false

/-- One of some words stands here. -/
def startsOneOf (words : List String) : List Token → Bool
  | .word found :: _ => found ∈ words
  | _ => false

/-- The words that cannot name anything. -/
def reserved : List String :=
  ["_", "abstract", "as", "become", "box", "break", "const", "continue", "crate", "do", "else",
    "enum", "extern", "false", "final", "fn", "for", "if", "impl", "in", "let", "loop", "macro",
    "match", "mod", "move", "mut", "override", "priv", "pub", "ref", "return", "Self", "self",
    "static", "struct", "super", "trait", "true", "type", "typeof", "unsafe", "unsized", "use",
    "virtual", "where", "while", "yield"]

/-- A word that can name something stands here. -/
def startsIdentifier : List Token → Bool
  | .word found :: _ => found ∉ reserved
  | _ => false

/-- A word stands here, whether it can name something or not. -/
def startsAnyWord : List Token → Bool
  | .word _ :: _ => true
  | _ => false

/-- A lifetime stands here. -/
def startsLifetime : List Token → Bool
  | .lifetime _ :: _ => true
  | _ => false

/-- A literal of text stands here. -/
def startsStringLiteral : List Token → Bool
  | .string .. :: _ => true
  | _ => false

/-- Brackets of one kind open here. -/
def startsGroup (delimiter : Delimiter) : List Token → Bool
  | .opening found :: _ => found = delimiter
  | _ => false

/-- How many tokens the literal takes that stands here, none if there is none. A number may have a
    minus sign in front. -/
def literalLength : List Token → Nat
  | .string .. :: _ => 1
  | .integer .. :: _ => 1
  | .float _ :: _ => 1
  | .literal _ :: _ => 1
  | .word found :: _ => if found = "true" ∨ found = "false" then 1 else 0
  | .mark '-' _ :: .integer .. :: _ => 2
  | .mark '-' _ :: .float _ :: _ => 2
  | _ => 0

/-- A literal stands here. -/
def startsLiteral (tokens : List Token) : Bool := 0 < literalLength tokens

/-- How many tokens stand before the bracket that closes those around them, `depth` others being
    open here. -/
def enclosedLength : Nat → List Token → Nat
  | _, [] => 0
  | depth, .opening _ :: rest => enclosedLength (depth + 1) rest + 1
  | 0, .closing _ :: _ => 0
  | depth + 1, .closing _ :: rest => enclosedLength depth rest + 1
  | depth, _ :: rest => enclosedLength depth rest + 1

/-- What follows the token here, or the brackets that open here. -/
def afterOne : List Token → List Token
  | [] => []
  | .opening _ :: rest => rest.drop (enclosedLength 0 rest + 1)
  | _ :: rest => rest

end Tokens

namespace Reader

open Tokens

/-- The tokens that follow. -/
def upcoming : Reader (List Token) := return (← get).rest

/-- Whether the tokens that follow pass a test. -/
def sees (test : List Token → Bool) : Reader Bool := return test (← get).rest

/-- Reads the next tokens as they are. -/
def take (count : Nat) : Reader Unit :=
  modify fun place =>
    { place with
      rest := place.rest.drop count
      text := place.text ++ Token.joined (place.rest.take count) }

/-- Passes over the next tokens without writing them down. -/
def skip (count : Nat) : Reader Unit :=
  modify fun place => { place with rest := place.rest.drop count }

/-- Writes down a text. -/
def write (text : String) : Reader Unit :=
  modify fun place => { place with text := place.text ++ text }

/-- Fails because one of some things has to stand here. -/
def want {α : Type} (wanted : List Wanted) : Reader α := do
  throw (.missing wanted (atEnd (← upcoming)))

/-- Fails because one of some things has to stand here. What stands here, but does not fit for
    another reason, is not named. -/
def wantOther {α : Type} (wanted : List Wanted) : Reader α := do
  let tokens ← upcoming
  want <| wanted.filter fun
    | .symbol text => !startsWord text tokens && !startsMark text tokens
    | _ => true

/-- Fails because nothing that follows fits. -/
def refuse {α : Type} : Reader α := do throw (.unexpected (atEnd (← upcoming)))

/-- Reads the next tokens if they pass a test; whether they do. -/
def optional (test : List Token → Bool) (count : Nat) : Reader Bool := do
  if ← sees test then
    take count
    return true
  return false

/-- Reads a symbol if it stands here; whether it does. -/
def optionalMark (symbol : String) : Reader Bool := optional (startsMark symbol) symbol.length

/-- Reads a word if it stands here; whether it does. -/
def optionalWord (word : String) : Reader Bool := optional (startsWord word) 1

/-- Reads a lifetime if it stands here; whether it does. -/
def optionalLifetime : Reader Bool := optional startsLifetime 1

/-- Reads a symbol. The end of the tokens is not told apart from another token. -/
def mark (symbol : String) : Reader Unit := do
  if !(← optionalMark symbol) then throw (.missing [.symbol symbol] false)

/-- Reads a comma. -/
def comma : Reader Unit := do
  if !(← optional startsComma 1) then throw .comma

/-- Reads a certain word. -/
def word (text : String) : Reader Unit := do
  if !(← optionalWord text) then want [.symbol text]

/-- Reads a word that can name something. -/
def identifier : Reader Unit := do
  if !(← optional startsIdentifier 1) then want [.identifier]

/-- Reads any word. -/
def anyWord : Reader Unit := do
  if !(← optional startsAnyWord 1) then want [.anyWord]

/-- Reads a lifetime. -/
def lifetime : Reader Unit := do
  if !(← optionalLifetime) then want [.lifetime]

/-- Reads a literal. -/
def literal : Reader Unit := do
  let length := literalLength (← upcoming)
  if length = 0 then want [.literal] else take length

/-- Leaves the brackets that the reader is in. What they still hold is surplus. -/
def leave : Reader Unit := do
  match ← upcoming with
  | .closing _ :: _ => take 1
  | rest =>
    take (enclosedLength 0 rest + 1)
    modify fun place => { place with surplus := true }

/-- Reads brackets of one kind and what is inside them. -/
def inside {α : Type} (delimiter : Delimiter) (content : Reader α) : Reader α := do
  if ← sees (startsGroup delimiter) then
    take 1
    let result ← content
    leave
    return result
  want [.group delimiter]

/-- Reads brackets of any kind as they are. -/
def anyGroup : Reader Unit := do
  match ← upcoming with
  | .opening _ :: rest => take (enclosedLength 0 rest + 2)
  | _ => want [.anyGroup]

/-- Reads all that is left as it is. -/
def remainder : Reader Unit := do take (enclosedLength 0 (← upcoming))

/-- Runs a reader and goes back to where it started, whether it fails or not. -/
def attempt {α : Type} (reader : Reader α) : Reader (Option α) := do
  match reader.run (← get) with
  | .ok (result, _) => return some result
  | .error _ => return none

/-- Runs a reader; what it read is written down as it stood there. -/
def asWritten {α : Type} (start : Place) (reader : Reader α) : Reader α := do
  let result ← reader
  modify fun place =>
    { place with
      text := start.text ++ Token.joined (start.rest.take (start.rest.length - place.rest.length)) }
  return result

/-- Runs a reader; what it read is not written down but returned. -/
def captured {α : Type} (reader : Reader α) : Reader (α × String) := do
  let before := (← get).text
  modify fun place => { place with text := "" }
  let result ← reader
  let text := (← get).text
  modify fun place => { place with text := before }
  return (result, text)

/-- Repeats a step at most so many times, as long as it says so. -/
def repeatUpTo {α : Type} (step : α → Reader (α × Bool)) : Nat → α → Reader α
  | 0, state => return state
  | count + 1, state => do
    match ← step state with
    | (state, true) => repeatUpTo step count state
    | (state, false) => return state

/-- Repeats a step as long as it says so, at most once more than there are tokens. That is no bound
    for a step that advances (`repeatFrom_eq`), as the steps of the grammar are assumed to do. -/
def repeatFrom {α : Type} (start : α) (step : α → Reader (α × Bool)) : Reader α := do
  repeatUpTo step ((← upcoming).length + 1) start

/-- A step takes a token whenever it says that it is to be repeated. -/
def Advances {α : Type} (step : α → Reader (α × Bool)) : Prop :=
  ∀ ⦃state next : α⦄ ⦃place behind : Place⦄,
    (step state).run place = .ok ((next, true), behind) → behind.rest.length < place.rest.length

section Repetition

variable {α : Type} {step : α → Reader (α × Bool)}

/-- Of what comes after a step that is to be repeated, only what it does with fewer tokens
    matters. -/
theorem run_step_congr (advances : Advances step) (state : α) {place : Place}
    {continuation other : α → Reader α}
    (agree : ∀ next behind, behind.rest.length < place.rest.length →
      (continuation next).run behind = (other next).run behind) :
    StateT.run (do
      match ← step state with
      | (state, true) => continuation state
      | (state, false) => return state) place =
    StateT.run (do
      match ← step state with
      | (state, true) => other state
      | (state, false) => return state) place := by
  simp only [StateT.run_bind]
  cases taken : (step state).run place with
  | error error => rfl
  | ok result =>
    obtain ⟨⟨next, again⟩, behind⟩ := result
    cases again with
    | false => rfl
    | true => exact agree next behind (advances taken)

/-- All bounds above the number of tokens give the same repetition. -/
theorem repeatUpTo_run_eq (advances : Advances step) {count more : Nat} {state : α} {place : Place}
    (above : place.rest.length < count) (alsoAbove : place.rest.length < more) :
    (repeatUpTo step count state).run place = (repeatUpTo step more state).run place := by
  induction count generalizing more state place with
  | zero => exact absurd above (Nat.not_lt_zero _)
  | succ count ih =>
    cases more with
    | zero => exact absurd alsoAbove (Nat.not_lt_zero _)
    | succ more =>
      rw [repeatUpTo, repeatUpTo]
      refine run_step_congr advances state fun next behind fewer => ?_
      exact ih (Nat.lt_of_lt_of_le fewer (Nat.le_of_lt_succ above))
        (Nat.lt_of_lt_of_le fewer (Nat.le_of_lt_succ alsoAbove))

/-- A repetition is one step and, if that says so, the repetition from there on. -/
theorem repeatFrom_eq (advances : Advances step) (start : α) :
    repeatFrom start step = do
      match ← step start with
      | (state, true) => repeatFrom state step
      | (state, false) => return state := by
  ext place
  change (repeatUpTo step (place.rest.length + 1) start).run place = _
  rw [repeatUpTo]
  refine run_step_congr advances start fun next behind fewer => ?_
  -- The bound left over is above the number of tokens behind the step, as is the bound there.
  exact repeatUpTo_run_eq advances fewer (Nat.lt_succ_self _)

end Repetition

/-- Repeats a step without a state as long as it says so. -/
def repeatWhile (step : Reader Bool) : Reader Unit :=
  repeatFrom () fun _ => return ((), ← step)

/-- Reads items up to a place that passes a test, with a separator between two of them. A separator
    may stand at the end. -/
def separated (finished : List Token → Bool) (separator item : Reader Unit) : Reader Unit :=
  repeatWhile do
    if ← sees finished then return false
    item
    if ← sees finished then return false
    separator
    return true

/-- Reads all that is left as items with commas between them. -/
def commaSeparated (item : Reader Unit) : Reader Unit := separated atEnd comma item

/-- Reads items up to a place that passes a test, with plus signs between them. -/
def summed (finished : List Token → Bool) (item : Reader Unit) : Reader Unit :=
  repeatWhile do
    if ← sees finished then return false
    item
    optionalMark "+"

end Reader

end FormattedOutput
