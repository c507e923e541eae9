import FormattedOutput.Checked.Expression
import FormattedOutput.Checked.Grammar.Item
import FormattedOutput.Checked.Grammar.Operators
import FormattedOutput.Checked.Grammar.Statement

/-!
# The reader of expressions

The readers of the recursive parts of the grammar are given to themselves, down to a depth that
depends on the number of tokens. It is an assumption that no expression of so many tokens is nested
deeper, for a reader of some kind takes a token before it comes back to its own kind, and sixteen
readers without a token between them are more than the grammar nests. The readers at the bottom
refuse what is there.
-/

namespace FormattedOutput.Grammar

/-- The readers with other readers for the parts inside. -/
def Nonterminals.unfold (inner : Nonterminals) : Nonterminals where
  expression := Grammar.expression inner
  operand := Grammar.operand inner
  operators := Grammar.operators inner
  statementExpression := Grammar.statementExpression inner
  type := Grammar.type inner
  path := Grammar.path inner
  pattern := Grammar.pattern inner
  statements := Grammar.statements inner
  item := Grammar.item inner
  importTree := Grammar.importTree inner

/-- The readers of parts that are nested to some depth. -/
def Nonterminals.upTo : Nat → Nonterminals
  | 0 => Nonterminals.none
  | depth + 1 => (Nonterminals.upTo depth).unfold

/-- Reads the longest expression at the front of some tokens. -/
def readExpression (tokens : List Token) : Except SyntaxError (Expression × List Token) := do
  let start : Place := ⟨tokens, "", false⟩
  let depth := 16 * (tokens.length + 1)
  let (_, place) ← ((Nonterminals.upTo depth).expression true).run start
  let count := tokens.length - place.rest.length
  if count = 0 then throw (.expression (tokens = []))
  return (⟨place.text, place.surplus⟩, tokens.drop count)

theorem append_of_readExpression {tokens : List Token} {expression : Expression}
    {rest : List Token} (h : readExpression tokens = .ok (expression, rest)) :
    ∃ taken, taken ≠ [] ∧ taken ++ rest = tokens := by
  simp only [readExpression, bind, Except.bind] at h
  split at h
  · cases h
  · rename_i result _
    split at h
    · cases h
    · rename_i hcount
      cases h
      refine ⟨tokens.take (tokens.length - result.2.rest.length), ?_, List.take_append_drop _ _⟩
      have : tokens.length - result.2.rest.length ≠ 0 := hcount
      intro hnil
      have := congrArg List.length hnil
      simp only [List.length_take, List.length_nil] at this
      omega

/-- The reader of expressions. -/
def expressionReader : ExpressionReader where
  read := readExpression
  append_of_read := append_of_readExpression

end FormattedOutput.Grammar
