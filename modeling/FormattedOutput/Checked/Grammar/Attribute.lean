import FormattedOutput.Checked.Reader

/-!
# Attributes

An attribute is a number sign and a path in square brackets, which any tokens may follow there. It
belongs to what follows it, or, with an exclamation mark, to what it stands in.
-/

namespace FormattedOutput.Grammar

open Reader Tokens

/-- Words that may stand in a path although they name nothing else. -/
def startsPathWord (tokens : List Token) : Bool :=
  startsIdentifier tokens || startsOneOf ["super", "self", "Self", "crate"] tokens

/-- Reads a path of plain names. -/
def plainPath : Reader Unit := do
  let _ ← optionalMark "::"
  if !(← sees startsPathWord) then want [.path]
  repeatWhile do
    take 1
    if !(← optionalMark "::") then return false
    if !(← sees startsPathWord) then want [.pathSegment]
    return true

/-- Reads an attribute from its brackets on. -/
def attributeBody : Reader Unit :=
  inside .bracket do
    plainPath
    remainder

/-- Reads the attributes of what follows. -/
def outerAttributes : Reader Unit :=
  repeatWhile do
    if ← optionalMark "#" then
      attributeBody
      return true
    return false

/-- Reads something behind something else. That is not written down if what was read takes none. -/
def led {α : Type} (lead : Reader Unit) (takesNone : α → Bool) (content : Reader α) :
    Reader α := do
  let before := (← get).text
  lead
  let behind := (← get).text
  let result ← content
  if takesNone result then
    modify fun place =>
      { place with text := before ++ String.ofList (place.text.toList.drop behind.length) }
  return result

/-- Reads something with the attributes in front of it. These are not written down if what was read
    takes none. -/
def attributed {α : Type} (takesNone : α → Bool) (content : Reader α) : Reader α :=
  led outerAttributes takesNone content

/-- Reads the attributes of what they stand in. -/
def innerAttributes : Reader Unit :=
  repeatWhile do
    let tokens ← upcoming
    if startsMark "#" tokens && startsMark "!" (tokens.drop 1) then
      take 2
      attributeBody
      return true
    return false

end FormattedOutput.Grammar
