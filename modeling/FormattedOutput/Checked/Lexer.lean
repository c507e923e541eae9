import FormattedOutput.Checked.Literal
import FormattedOutput.Checked.NumberLiteral
import FormattedOutput.Checked.Token

/-!
# Lexical analysis

The source text of a formatting call is cut into tokens, each as long as it can be. Blanks and
comments separate tokens; a comment that documents what follows it stands for an attribute with its
text. A text with an unfinished literal, an unknown character or brackets that do not match has no
tokens.
-/

namespace FormattedOutput

namespace Lexer

open Character

/-- The name at the start of a text, empty if there is none. -/
def name (text : List Char) : List Char :=
  if text.head?.any isNameStart then text.takeWhile isNamePart else []

/-- Whether a comment starts here. -/
def isComment : List Char → Bool
  | '/' :: '/' :: _ => true
  | '/' :: '*' :: _ => true
  | _ => false

/-- Whether a punctuation mark stands here. -/
def isMarkAt (text : List Char) : Bool := !isComment text && text.head?.any isMark

/-- What stands before the closing quote, and what follows that quote. A backslash takes the next
    character with it. -/
def quoted? (quote : Char) : List Char → Option (List Char × List Char)
  | [] => none
  | '\\' :: character :: rest =>
    (quoted? quote rest).map fun (body, after) => ('\\' :: character :: body, after)
  | character :: rest =>
    if character = quote then some ([], rest)
    else (quoted? quote rest).map fun (body, after) => (character :: body, after)

/-- What stands before the closing quote of a raw literal, a quote with as many number signs as
    `fence`, and what follows it. -/
def rawQuoted? (fence : List Char) : List Char → Option (List Char × List Char)
  | [] => none
  | character :: rest =>
    if character = '\x22' ∧ fence.isPrefixOf rest then some ([], rest.drop fence.length)
    else (rawQuoted? fence rest).map fun (body, after) => (character :: body, after)

/-- A literal and what follows it. The name that follows the literal at once belongs to it and is
    put into its source text. -/
def finish (literal : String → Token) (source after : List Char) : Token × List Char :=
  let suffix := name after
  (literal (String.ofList (source ++ suffix)), after.drop suffix.length)

/-- A string literal with escapes; `text` starts behind its opening quote. -/
def string? (text : List Char) : Option (Token × List Char) := do
  let (body, after) ← quoted? '\x22' text
  let value ← Literal.unescape? body
  some (finish (.string · (String.ofList value)) ('\x22' :: body ++ ['\x22']) after)

/-- A literal in quotes that is not a string; `text` starts behind its opening quote. -/
def other? (letters : List Char) (quote : Char) (text : List Char) :
    Option (Token × List Char) :=
  (quoted? quote text).map fun (body, after) =>
    finish .literal (letters ++ quote :: body ++ [quote]) after

/-- A raw literal that `letters` open; `text` starts behind them. -/
def raw? (letters text : List Char) : Option (Token × List Char) :=
  let fence := text.takeWhile (· = '#')
  match text.dropWhile (· = '#') with
  | '\x22' :: rest =>
    (rawQuoted? fence rest).map fun (body, after) =>
      let source := letters ++ fence ++ '\x22' :: body ++ '\x22' :: fence
      if letters = ['r'] then finish (.string · (String.ofList body)) source after
      else finish .literal source after
  | _ => none

/-- The character literal that consists of the first characters of a text behind its quote, if it
    is closed right behind them. -/
def closed? (count : Nat) (text : List Char) : Option (Token × List Char) :=
  match text.drop count with
  | '\x27' :: after => some (finish .literal ('\x27' :: text.take count ++ ['\x27']) after)
  | _ => none

/-- A character literal; `text` starts behind its opening quote. -/
def character? (text : List Char) : Option (Token × List Char) :=
  match text with
  | [] => none
  | '\\' :: rest =>
    match Literal.escape? rest with
    | some (some _, after) => closed? (text.length - after.length) text
    | _ => none
  | _ => closed? 1 text

/-- A number literal. -/
def number? (text : List Char) : Option (Token × List Char) :=
  (NumberLiteral.ofText? text).map fun (source, after) =>
    match NumberLiteral.integer? source with
    | some (value, type) => (.integer (String.ofList source) value (type ≠ []), after)
    | none => (.float (String.ofList source), after)

/-- A literal. -/
def literal? (text : List Char) : Option (Token × List Char) :=
  match text with
  | '\x22' :: rest => string? rest
  | 'r' :: rest => raw? ['r'] rest
  | 'b' :: 'r' :: rest => raw? ['b', 'r'] rest
  | 'c' :: 'r' :: rest => raw? ['c', 'r'] rest
  | 'b' :: '\x22' :: rest => other? ['b'] '\x22' rest
  | 'c' :: '\x22' :: rest => other? ['c'] '\x22' rest
  | 'b' :: '\x27' :: rest => other? ['b'] '\x27' rest
  | '\x27' :: rest => character? rest
  | _ => number? text

/-- A name, or one that is marked as a name by `r#`, and what follows it. -/
def word? (text : List Char) : Option (List Char × List Char) :=
  let marked := if ['r', '#'].isPrefixOf text then ['r', '#'] else []
  let found := name (text.drop marked.length)
  if found = [] then none
  else if marked ≠ [] ∧ String.ofList found ∈ ["_", "super", "self", "Self", "crate"] then none
  else some (marked ++ found, text.drop (marked.length + found.length))

/-- A punctuation mark, or a name behind a single quote. -/
def mark? (text : List Char) : Option (Token × List Char) :=
  match text with
  | [] => none
  | symbol :: rest =>
    if !isMarkAt text then none
    else if symbol = ',' then some (.comma, rest)
    else if symbol = '\x27' then
      match word? rest with
      | some (found, after) =>
        if after.head? = some '\x27' then none
        else some (.lifetime (String.ofList ('\x27' :: found)), after)
      | none => none
    else some (.mark symbol (isMarkAt rest), rest)

/-- A bracket. -/
def bracket? : List Char → Option (Token × List Char)
  | [] => none
  | character :: rest =>
    match Delimiter.ofOpening? character, Delimiter.ofClosing? character with
    | some delimiter, _ => some (.opening delimiter, rest)
    | none, some delimiter => some (.closing delimiter, rest)
    | none, none => none

/-- The token at the start of a text that starts with no blank and no comment. -/
def token? (text : List Char) : Option (Token × List Char) :=
  bracket? text <|> literal? text <|> mark? text <|>
    (word? text).map fun (found, after) => (.word (String.ofList found), after)

/-- The text of a comment up to its closing mark, and what follows it, `depth` comments being open
    around it. -/
def blockComment? (depth : Nat) : List Char → Option (List Char × List Char)
  | [] => none
  | '/' :: '*' :: rest =>
    (blockComment? (depth + 1) rest).map fun (body, after) => ('/' :: '*' :: body, after)
  | '*' :: '/' :: rest =>
    if depth = 0 then some ([], rest)
    else (blockComment? (depth - 1) rest).map fun (body, after) => ('*' :: '/' :: body, after)
  | character :: rest =>
    (blockComment? depth rest).map fun (body, after) => (character :: body, after)

/-- The text up to the end of the line, and the line end with what follows it. -/
def line : List Char → List Char × List Char
  | [] => ([], [])
  | '\n' :: rest => ([], '\n' :: rest)
  | '\r' :: '\n' :: rest => ([], '\n' :: rest)
  | character :: rest => (character :: (line rest).1, (line rest).2)

/-- The attribute that a comment stands for; `inner` if it belongs to what it stands in. -/
def documentation (inner : Bool) (body : List Char) : List Token :=
  let source := String.ofList ('\x22' :: Literal.escaped body ++ ['\x22'])
  .mark '#' false :: (if inner then [.mark '!' false] else []) ++
    [.opening .bracket, .word "doc", .mark '=' false, .string source (String.ofList body),
      .closing .bracket]

/-- The tokens of the comment at the start of a text, and what follows it. -/
def comment? (text : List Char) : Option (List Token × List Char) :=
  match text with
  | '/' :: '/' :: '/' :: '/' :: rest => some ([], (line rest).2)
  | '/' :: '/' :: '/' :: rest => some (documentation false (line rest).1, (line rest).2)
  | '/' :: '/' :: '!' :: rest => some (documentation true (line rest).1, (line rest).2)
  | '/' :: '/' :: rest => some ([], (line rest).2)
  | '/' :: '*' :: '*' :: '/' :: rest => some ([], rest)
  | '/' :: '*' :: '*' :: '*' :: rest => (blockComment? 0 ('*' :: '*' :: rest)).map ([], ·.2)
  | '/' :: '*' :: '*' :: rest =>
    (blockComment? 0 rest).map fun (body, after) => (documentation false body, after)
  | '/' :: '*' :: '!' :: rest =>
    (blockComment? 0 rest).map fun (body, after) => (documentation true body, after)
  | '/' :: '*' :: rest => (blockComment? 0 rest).map ([], ·.2)
  | _ => none

/-- The tokens that the start of a text stands for, and what follows it. -/
def start? (text : List Char) : Option (List Token × List Char) :=
  if isComment text then comment? text
  else if text.head?.any isBlank then some ([], text.drop 1)
  else (token? text).map fun (token, after) => ([token], after)

/-- All tokens of a text. What stands at its start takes up at least one character. -/
def all? (text : List Char) : Option (List Token) :=
  if text = [] then some []
  else
    match start? text with
    | none => none
    | some (tokens, after) =>
      if after.length < text.length then (all? after).map (tokens ++ ·) else none
termination_by text.length

end Lexer

/-- The tokens of a source text. A mark of the byte order in front is no part of it. -/
def Token.ofSource? (source : String) : Option (List Token) :=
  let text := source.toList
  let text := if text.head? = some '\ufeff' then text.drop 1 else text
  (Lexer.all? text).filter (Token.balanced [])

end FormattedOutput
