import FormattedOutput.Checked.Token

/-!
# Errors of form

Why tokens do not have the form that is asked of them. Most errors say what would have to stand
where the tokens stop to fit.
-/

namespace FormattedOutput

/-- What may have to stand somewhere. -/
inductive Wanted where
  | expression
  | literal
  | stringLiteral
  | integerLiteral
  | unsuffixedInteger
  | identifier
  | anyWord
  | identifierOrInteger
  | identifierOrUnderscore
  | lifetime
  | path
  | pathSegment
  | group (delimiter : Delimiter)
  | anyGroup
  | loopOrBlock
  | commaOrSemicolon
  | semicolon
  | rangeEnd
  /-- These marks, or this word. -/
  | symbol (text : String)
  deriving DecidableEq, Repr

namespace Wanted

/-- What is wanted, in words. -/
def phrase : Wanted → String
  | expression => "expression"
  | literal => "literal"
  | stringLiteral => "string literal"
  | integerLiteral => "integer literal"
  | unsuffixedInteger => "unsuffixed integer"
  | identifier => "identifier"
  | anyWord => "ident"
  | identifierOrInteger => "identifier or integer"
  | identifierOrUnderscore => "identifier or underscore"
  | lifetime => "lifetime"
  | path => "path"
  | pathSegment => "path segment"
  | group .parenthesis => "parentheses"
  | group .bracket => "square brackets"
  | group .brace => "curly braces"
  | anyGroup => "delimiter"
  | loopOrBlock => "loop or block expression"
  | commaOrSemicolon => "`,` or `;`"
  | semicolon => "semicolon"
  | rangeEnd => "range upper bound"
  | symbol text => "`" ++ text ++ "`"

end Wanted

/-- Why tokens do not have the form that is asked of them. -/
inductive SyntaxError where
  /-- One of these has to stand here; whether the tokens end instead. -/
  | missing (wanted : List Wanted) (atEnd : Bool)
  /-- Nothing may stand here, or anything else; whether the tokens end instead. -/
  | unexpected (atEnd : Bool)
  /-- A cast is followed by something that would have to be part of its operand. -/
  | castFollowed (continuation : String)
  /-- Bounds that should name a trait name lifetimes only. -/
  | lifetimesOnly (subject : String)
  /-- The number of a field is too large. -/
  | numberTooLarge
  /-- The number of a field is negative. -/
  | negativeNumber
  /-- A function has two receivers. -/
  | secondReceiver
  /-- The receiver of a function is not its first parameter. -/
  | lateReceiver
  deriving DecidableEq, Repr

namespace SyntaxError

/-- An expression has to start here. -/
abbrev expression (atEnd : Bool) : SyntaxError := missing [.expression] atEnd

/-- A comma has to stand here. -/
abbrev comma : SyntaxError := missing [.symbol ","] false

/-- A string literal has to stand here. -/
abbrev stringLiteral (atEnd : Bool) : SyntaxError := missing [.stringLiteral] atEnd

/-- Several things of which one is wanted, in words. -/
def alternatives : List Wanted → String
  | [] => ""
  | [wanted] => wanted.phrase
  | [first, second] => first.phrase ++ " or " ++ second.phrase
  | several => "one of: " ++ ", ".intercalate (several.map Wanted.phrase)

/-- The error in words. -/
def message : SyntaxError → String
  | missing wanted atEnd =>
    (if atEnd then "unexpected end of input, " else "") ++ "expected " ++ alternatives wanted
  | unexpected atEnd => if atEnd then "unexpected end of input" else "unexpected token"
  | castFollowed continuation => "casts cannot be followed by " ++ continuation
  | lifetimesOnly subject => "at least one trait " ++ subject
  | numberTooLarge => "number too large to fit in target type"
  | negativeNumber => "invalid digit found in string"
  | secondReceiver => "unexpected second method receiver"
  | lateReceiver => "unexpected method receiver"

end SyntaxError

end FormattedOutput
