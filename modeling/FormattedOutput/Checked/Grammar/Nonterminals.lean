import FormattedOutput.Checked.Reader

/-!
# The recursive parts of the expression grammar

Expressions, types, patterns and statements contain each other. The reader of each is written with
the readers of all at hand, and `Checked.Grammar.Language` closes the circle: at some depth of
nesting, which the tokens are assumed not to reach, all readers fail.
-/

namespace FormattedOutput.Grammar

/-- How strongly an operator binds, the weakest first. -/
inductive Precedence where
  | any
  | assign
  | range
  | or
  | and
  | compare
  | bitOr
  | bitXor
  | bitAnd
  | shift
  | arithmetic
  | term
  | cast
  deriving DecidableEq, Repr

/-- The position of a precedence in the order. -/
def Precedence.rank : Precedence → Nat
  | any => 0
  | assign => 1
  | range => 2
  | or => 3
  | and => 4
  | compare => 5
  | bitOr => 6
  | bitXor => 7
  | bitAnd => 8
  | shift => 9
  | arithmetic => 10
  | term => 11
  | cast => 12

/-- What the readers around an expression need to know of it. -/
inductive ExpressionForm where
  /-- A range without a lower bound. -/
  | openRange
  /-- An expression that ends in a block and can stand as a statement by itself. -/
  | block
  /-- An expression whose first operand is kept as it is written and takes no attributes. -/
  | verbatim
  | other
  deriving DecidableEq, Repr

/-- The arguments of a path segment. -/
inductive SegmentArguments where
  | none
  | angled
  | parenthesized
  deriving DecidableEq, Repr

/-- What the readers around a path need to know of it. -/
structure PathForm where
  /-- The path starts at a type in angle brackets. -/
  qualified : Bool
  /-- The path starts with `::`. -/
  rooted : Bool
  segments : Nat
  /-- The arguments of the last segment. -/
  last : SegmentArguments
  /-- Some segment has arguments. -/
  anyArguments : Bool
  deriving DecidableEq, Repr

/-- What the readers around a type need to know of it. -/
inductive TypeForm where
  | path (form : PathForm)
  | parenthesized
  /-- Traits without the word for them in front: how many bounds, and whether a plus ends them. -/
  | bounds (count : Nat) (trailing : Bool)
  /-- A call of a macro, which takes no introduced lifetimes. -/
  | macroCall
  | other
  deriving DecidableEq, Repr

/-- The readers of the recursive parts of the grammar. -/
structure Nonterminals where
  /-- An expression; whether a brace behind a path makes it a structure. -/
  expression : (structures : Bool) → Reader ExpressionForm
  /-- An operand with its signs. -/
  operand : (structures : Bool) → Reader ExpressionForm
  /-- The operators of at least some precedence behind an operand, with their right operands. -/
  operators : (structures : Bool) → Precedence → ExpressionForm → Reader ExpressionForm
  /-- An expression at the start of a statement, where a block ends it. -/
  statementExpression : Reader ExpressionForm
  /-- A type; whether it may be a sum of bounds. -/
  type : (sums : Bool) → Reader TypeForm
  /-- A path; whether it stands in an expression. -/
  path : (inExpression : Bool) → Reader PathForm
  /-- A pattern without alternatives; whether it is kept as it is written and takes no
      attributes. -/
  pattern : Reader Bool
  /-- The statements of a block. -/
  statements : Reader Unit
  /-- An item of a module; whether it is kept as it is written and takes no attributes. -/
  item : Reader Bool
  /-- The names that an import brings in; whether the root of all names is mentioned. It may be
      where the import itself does not mention it. -/
  importTree : (rootAllowed : Bool) → Reader Bool

/-- Readers that read nothing. -/
def Nonterminals.none : Nonterminals where
  expression _ := Reader.refuse
  operand _ := Reader.refuse
  operators _ _ _ := Reader.refuse
  statementExpression := Reader.refuse
  type _ := Reader.refuse
  path _ := Reader.refuse
  pattern := Reader.refuse
  statements := Reader.refuse
  item := Reader.refuse
  importTree _ := Reader.refuse

end FormattedOutput.Grammar
