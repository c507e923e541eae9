import FormattedOutput.Checked.SyntaxError

/-!
# Expressions

An expression is kept as the text of its tokens. A reader of expressions takes some tokens from the
front and leaves the rest, or says why there is no expression.
-/

namespace FormattedOutput

/-- An expression that was read. -/
structure Expression where
  /-- The texts of its tokens, joined without spaces. -/
  text : String
  /-- Some brackets in it hold more than what has a meaning there. -/
  surplus : Bool
  deriving DecidableEq, Repr

/-- A reader of expressions: it takes at least one token and leaves the others as they are. -/
structure ExpressionReader where
  read : List Token → Except SyntaxError (Expression × List Token)
  append_of_read : ∀ {tokens expression rest}, read tokens = .ok (expression, rest) →
    ∃ taken, taken ≠ [] ∧ taken ++ rest = tokens

theorem ExpressionReader.length_lt (reader : ExpressionReader) {tokens : List Token}
    {expression : Expression} {rest : List Token}
    (h : reader.read tokens = .ok (expression, rest)) : rest.length < tokens.length := by
  obtain ⟨taken, hne, rfl⟩ := reader.append_of_read h
  have := List.length_pos_iff.2 hne
  simp only [List.length_append]
  omega

end FormattedOutput
