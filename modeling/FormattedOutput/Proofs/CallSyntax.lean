import FormattedOutput.Checked.Grammar.Language
import FormattedOutput.Checked.Input
import Mathlib.Data.List.Forall2
import Mathlib.Logic.Relation

/-!
# The grammar of a call

A call is a target expression, a comma, a format literal and argument expressions with commas
between them, where a comma may stand behind the literal and another one at the end. Whatever the
reader of expressions, exactly these tokens are accepted, and any others are refused for the first
place at which they do not fit. For the second part the tokens are gone through place by place: at
each place one thing is awaited, and either it stands there or the call is refused.
-/

namespace FormattedOutput

/-- The tokens of arguments with commas between them and perhaps behind the last. -/
def argTokens (args : List (List Token)) (trailing : Bool) : List Token :=
  [Token.comma].intercalate args ++ if trailing && args ≠ [] then [Token.comma] else []

/-- What follows an argument: nothing, or a comma and the later arguments. -/
def behindArg (later : List (List Token)) (trailing : Bool) : List Token :=
  if later = [] ∧ trailing = false then [] else .comma :: argTokens later trailing

/-- A reader takes each argument at its place, with what follows it. -/
inductive ArgsRead (reader : ExpressionReader) (trailing : Bool) :
    List (List Token) → List Expression → Prop
  | nil : ArgsRead reader trailing [] []
  | cons {tokens : List Token} {arg : Expression} {later : List (List Token)}
    {args : List Expression}
    (reads : reader.read (tokens ++ behindArg later trailing) =
      .ok (arg, behindArg later trailing))
    (rest : ArgsRead reader trailing later args) :
    ArgsRead reader trailing (tokens :: later) (arg :: args)

/-- Tokens spell an expression: the reader takes all of them and nothing else wherever a comma or
    nothing follows them. -/
def ExpressionReader.Spells (reader : ExpressionReader) (tokens : List Token)
    (expression : Expression) : Prop :=
  ∀ rest, rest = [] ∨ rest.head? = some .comma →
    reader.read (tokens ++ rest) = .ok (expression, rest)

theorem ExpressionReader.spells_iff {reader : ExpressionReader} {tokens : List Token}
    {expression : Expression} :
    reader.Spells tokens expression ↔
      reader.read tokens = .ok (expression, []) ∧
        ∀ behind, reader.read (tokens ++ .comma :: behind) =
          .ok (expression, .comma :: behind) := by
  constructor
  · intro spells
    have last := spells [] (.inl rfl)
    rw [List.append_nil] at last
    exact ⟨last, fun behind => spells _ (.inr rfl)⟩
  · rintro ⟨last, inner⟩ rest ends
    obtain rfl | comma := ends
    · rwa [List.append_nil]
    · obtain ⟨behind, rfl⟩ := List.head?_eq_some_iff.mp comma
      exact inner behind

namespace CallSource

/-- What follows the literal. -/
def behindFormat (source : CallSource) (comma trailing : Bool) : List Token :=
  (if comma && (source.args ≠ [] || trailing) then [Token.comma] else []) ++
    argTokens source.args trailing

/-- What follows the target. -/
def behindTarget (source : CallSource) (comma trailing : Bool) : List Token :=
  .comma :: source.format :: source.behindFormat comma trailing

/-- A reader takes the target and each argument at its place, and the format is the string of the
    literal. -/
structure ReadAs (source : CallSource) (reader : ExpressionReader) (comma trailing : Bool)
    (input : CallInput) : Prop where
  target : reader.read (source.target ++ source.behindTarget comma trailing) =
    .ok (input.target, source.behindTarget comma trailing)
  format : ∃ text, source.format = .string text input.format
  args : ArgsRead reader trailing source.args input.args

theorem tokens_eq (source : CallSource) (comma trailing : Bool) :
    source.tokens comma trailing = source.target ++ source.behindTarget comma trailing := by
  simp [tokens, behindTarget, behindFormat, argTokens]

end CallSource

theorem argTokens_nil (trailing : Bool) : argTokens [] trailing = [] := by
  simp [argTokens, List.intercalate]

theorem argTokens_cons (tokens : List Token) (later : List (List Token)) (trailing : Bool) :
    argTokens (tokens :: later) trailing = tokens ++ behindArg later trailing := by
  cases later with
  | nil => cases trailing <;> simp [argTokens, behindArg, List.intercalate]
  | cons next later => cases trailing <;> simp [argTokens, behindArg, List.intercalate]

namespace CallInput

variable {reader : ExpressionReader} {tokens rest : List Token} {arg : Expression}
  {error : SyntaxError}

section Args

theorem readArgs_nil : readArgs reader [] = .ok [] := by
  rw [readArgs, if_pos rfl]

theorem ne_nil_of_read (reads : reader.read tokens = .ok (arg, rest)) : tokens ≠ [] := by
  rintro rfl
  exact absurd (reader.length_lt reads) (Nat.not_lt_zero _)

theorem readArgs_last (reads : reader.read tokens = .ok (arg, [])) :
    readArgs reader tokens = .ok [arg] := by
  rw [readArgs, if_neg (ne_nil_of_read reads)]
  split <;> simp_all

theorem readArgs_comma (reads : reader.read tokens = .ok (arg, .comma :: rest)) :
    readArgs reader tokens = (readArgs reader rest).map (arg :: ·) := by
  rw [readArgs, if_neg (ne_nil_of_read reads)]
  split <;> simp_all

/-- Arguments that are read at their places are the arguments. -/
theorem readArgs_argTokens {sources : List (List Token)} {trailing : Bool}
    {args : List Expression} (found : ArgsRead reader trailing sources args) :
    readArgs reader (argTokens sources trailing) = .ok args := by
  induction found with
  | nil => rw [argTokens_nil, readArgs_nil]
  | @cons tokens arg later args reads rest ih =>
    rw [argTokens_cons]
    by_cases alone : later = [] ∧ trailing = false
    · obtain ⟨rfl, -⟩ := id alone
      cases rest
      rw [behindArg, if_pos alone] at reads ⊢
      exact readArgs_last reads
    · rw [behindArg, if_neg alone] at reads ⊢
      rw [readArgs_comma reads, ih]
      rfl

/-- Any tokens that are arguments are read at their places. Only a comma can end no arguments. -/
theorem exists_of_readArgs {args : List Expression} (found : readArgs reader tokens = .ok args) :
    ∃ sources trailing, (sources = [] → trailing = true) ∧
      tokens = argTokens sources trailing ∧ ArgsRead reader trailing sources args := by
  fun_induction readArgs reader tokens generalizing args with
  | case1 =>
    -- behind an argument this is reached over a comma only, which then ends the arguments
    cases found
    exact ⟨[], true, fun _ => rfl, (argTokens_nil true).symm, .nil⟩
  | case2 tokens more error fails => cases found
  | case3 tokens more arg reads =>
    cases found
    obtain ⟨taken, -, rfl⟩ := reader.append_of_read reads
    exact ⟨[taken], false, by simp, (argTokens_cons taken [] false).symm, .cons reads .nil⟩
  | case4 tokens more arg rest reads ih =>
    cases later : readArgs reader rest with
    | error error =>
      rw [later] at found
      cases found
    | ok args =>
      rw [later] at found
      cases found
      obtain ⟨sources, trailing, ended, rfl, found⟩ := ih later
      obtain ⟨taken, -, rfl⟩ := reader.append_of_read reads
      have behind : .comma :: argTokens sources trailing = behindArg sources trailing := by
        rw [behindArg, if_neg]
        rintro ⟨none, untrailed⟩
        rw [ended none] at untrailed
        cases untrailed
      rw [behind] at reads ⊢
      exact ⟨taken :: sources, trailing, by simp, (argTokens_cons ..).symm, .cons reads found⟩
  | case5 tokens more arg first rest other reads => cases found

end Args

section Acceptance

variable {input : CallInput} {source : CallSource} {comma trailing : Bool}

theorem bind_eq_ok_iff {ε α β : Type} {first : Except ε α} {next : α → Except ε β} {result : β} :
    (first >>= next) = .ok result ↔ ∃ value, first = .ok value ∧ next value = .ok result := by
  cases first <;> simp [bind, Except.bind]

theorem readComma_eq_ok_iff : readComma tokens = .ok rest ↔ tokens = .comma :: rest := by
  cases tokens with
  | nil => simp [readComma]
  | cons first tokens => cases first <;> simp [readComma]

theorem readLiteral_eq_ok_iff {value : String} :
    readLiteral tokens = .ok (value, rest) ↔ ∃ text, tokens = .string text value :: rest := by
  cases tokens with
  | nil => simp [readLiteral]
  | cons first tokens => cases first <;> simp [readLiteral]

/-- Tokens that are a call begin with the target, a comma and the literal. -/
theorem ofTokens_eq_ok_iff :
    ofTokens reader tokens = .ok input ↔
      ∃ text behind,
        reader.read tokens = .ok (input.target, .comma :: .string text input.format :: behind) ∧
          readArgs reader (skipComma behind) = .ok input.args := by
  simp only [ofTokens, bind_eq_ok_iff, Prod.exists, readComma_eq_ok_iff, readLiteral_eq_ok_iff]
  constructor
  · rintro ⟨target, afterTarget, reads, afterComma, rfl, format, behind, ⟨text, rfl⟩, args, found,
      result⟩
    cases result
    exact ⟨text, behind, reads, found⟩
  · rintro ⟨text, behind, reads, found⟩
    exact ⟨_, _, reads, _, rfl, _, _, ⟨text, rfl⟩, _, found, rfl⟩

theorem skipComma_of_head?_ne (other : tokens.head? ≠ some .comma) : skipComma tokens = tokens := by
  cases tokens with
  | nil => rfl
  | cons first rest => cases first <;> first | rfl | exact absurd rfl other

/-- No expression starts with a comma, so neither do arguments. -/
theorem head?_argTokens_ne (refuses : ∀ rest, reader.read (.comma :: rest) = .error error)
    {sources : List (List Token)} {args : List Expression}
    (found : ArgsRead reader trailing sources args) :
    (argTokens sources trailing).head? ≠ some .comma := by
  cases found with
  | nil => simp [argTokens_nil]
  | @cons tokens arg later args reads rest =>
    intro comma
    rw [argTokens_cons] at comma
    obtain ⟨behind, starts⟩ := List.head?_eq_some_iff.mp comma
    rw [starts, refuses] at reads
    cases reads

theorem skipComma_behindFormat (refuses : ∀ rest, reader.read (.comma :: rest) = .error error)
    (found : ArgsRead reader trailing source.args input.args) (comma : Bool) :
    skipComma (source.behindFormat comma trailing) = argTokens source.args trailing := by
  rw [CallSource.behindFormat]
  split
  · rfl
  · exact skipComma_of_head?_ne (head?_argTokens_ne refuses found)

/-- The tokens of a call whose parts are read at their places are accepted as these parts. -/
theorem ofTokens_of_readAs (refuses : ∀ rest, reader.read (.comma :: rest) = .error error)
    (read : source.ReadAs reader comma trailing input) :
    ofTokens reader (source.tokens comma trailing) = .ok input := by
  obtain ⟨text, format⟩ := read.format
  have target := read.target
  rw [← source.tokens_eq, CallSource.behindTarget, format] at target
  refine ofTokens_eq_ok_iff.mpr ⟨text, _, target, ?_⟩
  rw [skipComma_behindFormat refuses read.args, readArgs_argTokens read.args]

/-- Any tokens that are accepted are those of a call whose parts are read at their places. -/
theorem exists_of_ofTokens (accepted : ofTokens reader tokens = .ok input) :
    ∃ source comma trailing, tokens = CallSource.tokens source comma trailing ∧
      source.ReadAs reader comma trailing input := by
  obtain ⟨text, behind, target, args⟩ := ofTokens_eq_ok_iff.mp accepted
  obtain ⟨taken, -, rfl⟩ := reader.append_of_read target
  obtain ⟨sources, trailing, ended, spelled, found⟩ := exists_of_readArgs args
  let source : CallSource := ⟨taken, .string text input.format, sources⟩
  obtain ⟨comma, follows⟩ : ∃ comma, behind = source.behindFormat comma trailing := by
    by_cases separated : behind.head? = some .comma
    · obtain ⟨rest, rfl⟩ := List.head?_eq_some_iff.mp separated
      refine ⟨true, ?_⟩
      have stands : sources ≠ [] ∨ trailing = true := by
        by_cases none : sources = []
        · exact .inr (ended none)
        · exact .inl none
      have spelled : rest = argTokens sources trailing := spelled
      simp [source, CallSource.behindFormat, stands, spelled]
    · rw [skipComma_of_head?_ne separated] at spelled
      exact ⟨false, spelled⟩
  refine ⟨source, comma, trailing, ?_, ?_, ⟨text, rfl⟩, found⟩
  · rw [source.tokens_eq, CallSource.behindTarget, ← follows]
  · rw [CallSource.behindTarget, ← follows]
    exact target

end Acceptance

section Rejection

/-- What is awaited at a place in the tokens of a call. -/
inductive Awaited where
  | target
  /-- The comma behind the target. -/
  | comma
  | literal
  /-- An argument, or the end of the tokens. -/
  | argument
  /-- The comma behind an argument, or the end of the tokens. -/
  | separator
  deriving DecidableEq, Repr

/-- What is awaited stands at a place, and the next place is the one behind it. -/
inductive Fits (reader : ExpressionReader) :
    Awaited × List Token → Awaited × List Token → Prop
  | target {tokens rest : List Token} {target : Expression}
    (reads : reader.read tokens = .ok (target, rest)) :
    Fits reader (.target, tokens) (.comma, rest)
  | comma {rest : List Token} : Fits reader (.comma, .comma :: rest) (.literal, rest)
  | literal {text value : String} {rest : List Token} :
    Fits reader (.literal, .string text value :: rest) (.argument, skipComma rest)
  | argument {tokens rest : List Token} {arg : Expression}
    (reads : reader.read tokens = .ok (arg, rest)) :
    Fits reader (.argument, tokens) (.separator, rest)
  | separator {rest : List Token} : Fits reader (.separator, .comma :: rest) (.argument, rest)

/-- What is awaited does not stand at a place, for which the call is refused. -/
inductive Misfits (reader : ExpressionReader) : Awaited × List Token → SyntaxError → Prop
  | target {tokens : List Token} {error : SyntaxError}
    (fails : reader.read tokens = .error error) : Misfits reader (.target, tokens) error
  | comma {tokens : List Token} (other : tokens.head? ≠ some .comma) :
    Misfits reader (.comma, tokens) .comma
  | literal {tokens : List Token} (other : ∀ text value, tokens.head? ≠ some (.string text value)) :
    Misfits reader (.literal, tokens) (.stringLiteral tokens.isEmpty)
  | argument {tokens : List Token} {error : SyntaxError} (more : tokens ≠ [])
    (fails : reader.read tokens = .error error) : Misfits reader (.argument, tokens) error
  | separator {first : Token} {rest : List Token} (other : first ≠ .comma) :
    Misfits reader (.separator, first :: rest) .comma

/-- From a place on everything fits up to one at which the call is refused. -/
def Rejects (reader : ExpressionReader) (place : Awaited × List Token) (error : SyntaxError) :
    Prop :=
  ∃ found, Relation.ReflTransGen (Fits reader) place found ∧ Misfits reader found error

variable {place next other : Awaited × List Token}

theorem Fits.unique (fits : Fits reader place next) (fitsOther : Fits reader place other) :
    next = other := by
  cases fits <;> cases fitsOther <;> simp_all

theorem Misfits.unique {second : SyntaxError} (misfits : Misfits reader place error)
    (misfitsSecond : Misfits reader place second) : error = second := by
  cases misfits <;> cases misfitsSecond <;> simp_all

theorem Fits.not_misfits (fits : Fits reader place next) : ¬ Misfits reader place error := by
  intro misfits
  cases fits <;> cases misfits <;> simp_all

theorem Fits.rejects_iff (fits : Fits reader place next) :
    Rejects reader place error ↔ Rejects reader next error := by
  constructor
  · rintro ⟨found, reached, misfits⟩
    obtain rfl | ⟨other, fitsOther, reached⟩ := reached.cases_head
    · exact absurd misfits fits.not_misfits
    · exact ⟨found, fits.unique fitsOther ▸ reached, misfits⟩
  · rintro ⟨found, reached, misfits⟩
    exact ⟨found, reached.head fits, misfits⟩

/-- No place is reached behind one at which the call is refused. -/
theorem Misfits.eq_of_reached (misfits : Misfits reader place error)
    (reached : Relation.ReflTransGen (Fits reader) place next) : place = next := by
  obtain same | ⟨other, fits, -⟩ := reached.cases_head
  · exact same
  · exact absurd misfits fits.not_misfits

theorem Misfits.rejects_iff {second : SyntaxError} (misfits : Misfits reader place error) :
    Rejects reader place second ↔ second = error := by
  constructor
  · rintro ⟨found, reached, misfitsFound⟩
    obtain rfl := misfits.eq_of_reached reached
    exact misfitsFound.unique misfits
  · rintro rfl
    exact ⟨place, .refl, misfits⟩

/-- Where the tokens may end, their end is no reason to refuse a call. -/
theorem not_rejects_nil {awaited : Awaited}
    (optional : awaited = .argument ∨ awaited = .separator) :
    ¬ Rejects reader (awaited, []) error := by
  rintro ⟨found, reached, misfits⟩
  obtain rfl | ⟨next, fits, -⟩ := reached.cases_head
  · obtain rfl | rfl := optional
    · cases misfits with
      | argument more => exact more rfl
    · cases misfits
  · obtain rfl | rfl := optional
    · cases fits with
      | argument reads => exact ne_nil_of_read reads rfl
    · cases fits

theorem readArgs_eq_error_iff :
    readArgs reader tokens = .error error ↔ Rejects reader (.argument, tokens) error := by
  fun_induction readArgs reader tokens with
  | case1 => simp [not_rejects_nil]
  | case2 tokens more found fails =>
    rw [(Misfits.argument more fails).rejects_iff]
    simp [eq_comm]
  | case3 tokens more arg reads =>
    rw [(Fits.argument reads).rejects_iff]
    simp [not_rejects_nil]
  | case4 tokens more arg rest reads ih =>
    rw [(Fits.argument reads).rejects_iff, Fits.separator.rejects_iff, ← ih]
    cases readArgs reader rest <;> simp [Except.map]
  | case5 tokens more arg first rest other reads =>
    rw [(Fits.argument reads).rejects_iff, (Misfits.separator other).rejects_iff]
    simp [eq_comm]

theorem readComma_of_head?_ne (other : tokens.head? ≠ some .comma) :
    readComma tokens = .error .comma := by
  cases tokens with
  | nil => rfl
  | cons first rest => cases first <;> first | rfl | exact absurd rfl other

theorem readLiteral_of_head?_ne (other : ∀ text value, tokens.head? ≠ some (.string text value)) :
    readLiteral tokens = .error (.stringLiteral tokens.isEmpty) := by
  cases tokens with
  | nil => rfl
  | cons first rest => cases first <;> first | rfl | exact absurd rfl (other _ _)

/-- A call is refused for the place behind the tokens that fit. -/
theorem ofTokens_eq_error_iff :
    ofTokens reader tokens = .error error ↔ Rejects reader (.target, tokens) error := by
  -- what fits is passed place by place, and the first place that does not decides
  cases reads : reader.read tokens with
  | error found =>
    rw [(Misfits.target reads).rejects_iff]
    simp [ofTokens, reads, bind, Except.bind, eq_comm]
  | ok read =>
    obtain ⟨target, behindTarget⟩ := read
    rw [(Fits.target reads).rejects_iff]
    by_cases comma : behindTarget.head? = some .comma
    · obtain ⟨behindComma, rfl⟩ := List.head?_eq_some_iff.mp comma
      rw [Fits.comma.rejects_iff]
      by_cases literal : ∃ text value, behindComma.head? = some (.string text value)
      · obtain ⟨text, value, starts⟩ := literal
        obtain ⟨behind, rfl⟩ := List.head?_eq_some_iff.mp starts
        rw [Fits.literal.rejects_iff, ← readArgs_eq_error_iff]
        simp only [ofTokens, reads, readComma, readLiteral, bind, Except.bind]
        cases readArgs reader (skipComma behind) <;> simp [pure, Except.pure]
      · have other : ∀ text value, behindComma.head? ≠ some (.string text value) := by
          simpa using literal
        rw [(Misfits.literal other).rejects_iff]
        simp [ofTokens, reads, readComma, readLiteral_of_head?_ne other, bind, Except.bind, eq_comm]
    · rw [(Misfits.comma comma).rejects_iff]
      simp [ofTokens, reads, readComma_of_head?_ne comma, bind, Except.bind, eq_comm]

theorem Fits.suffix (fits : Fits reader place next) : next.2 <:+ place.2 := by
  have skipped (rest : List Token) : skipComma rest <:+ rest := by
    rw [skipComma.eq_def]
    split
    · exact List.suffix_cons _ _
    · exact List.suffix_refl _
  cases fits with
  | target reads | argument reads =>
    obtain ⟨taken, -, rfl⟩ := reader.append_of_read reads
    exact List.suffix_append _ _
  | comma | separator => exact List.suffix_cons _ _
  | literal => exact (skipped _).trans (List.suffix_cons _ _)

theorem suffix_of_reached (reached : Relation.ReflTransGen (Fits reader) place next) :
    next.2 <:+ place.2 := by
  induction reached with
  | refl => exact List.suffix_refl _
  | tail _ fits ih => exact fits.suffix.trans ih

/-- There is only one place for which a call is refused. -/
theorem Misfits.unique_of_reached {found foundOther : Awaited × List Token} {second : SyntaxError}
    (reached : Relation.ReflTransGen (Fits reader) place found)
    (misfits : Misfits reader found error)
    (reachedOther : Relation.ReflTransGen (Fits reader) place foundOther)
    (misfitsOther : Misfits reader foundOther second) : found = foundOther := by
  have deterministic : Relator.RightUnique (Fits reader) := fun _ _ _ => Fits.unique
  obtain beyond | beyond := Relation.ReflTransGen.total_of_right_unique deterministic reached
    reachedOther
  · exact misfits.eq_of_reached beyond
  · exact (misfitsOther.eq_of_reached beyond).symm

end Rejection

section Spelling

variable {source : CallSource} {input : CallInput}

theorem argsRead_of_spells {sources : List (List Token)} {args : List Expression}
    (spelled : List.Forall₂ reader.Spells sources args) (trailing : Bool) :
    ArgsRead reader trailing sources args := by
  induction spelled with
  | nil => exact .nil
  | @cons tokens arg later args spells rest ih =>
    refine .cons (spells _ ?_) ih
    rw [behindArg]
    split
    · exact .inl rfl
    · exact .inr rfl

/-- Expressions that their tokens spell are read at their places, whichever commas stand. -/
theorem readAs_of_spells {text : String} (format : source.format = .string text input.format)
    (target : reader.Spells source.target input.target)
    (args : List.Forall₂ reader.Spells source.args input.args) (comma trailing : Bool) :
    source.ReadAs reader comma trailing input :=
  ⟨target _ (.inr rfl), ⟨text, format⟩, argsRead_of_spells args trailing⟩

end Spelling

/-- The reader of calls accepts its grammar, whatever the reader of expressions, if that refuses a
    comma where an expression has to start. The tokens that are accepted are a target, a comma, a
    literal, perhaps a comma, and arguments with commas between them and perhaps behind the last,
    with each expression read at its place, and the result is the target, the string of the literal
    and the arguments in order. Parts that their tokens spell are the result with and without either
    of the two commas. All other tokens are refused, for the only place up to which everything fits
    and at which it does not: there is no expression, no comma behind the target or an argument, or
    no string literal. A comma in place of an expression is one of these. -/
theorem ofTokens_recognises (reader : ExpressionReader)
    (refuses : ∀ rest, reader.read (.comma :: rest) = .error (.expression false)) :
    (∀ tokens input, ofTokens reader tokens = .ok input ↔
      ∃ source comma trailing, tokens = CallSource.tokens source comma trailing ∧
        source.ReadAs reader comma trailing input) ∧
    (∀ (source : CallSource) (input : CallInput) (text : String),
      source.format = .string text input.format → reader.Spells source.target input.target →
        List.Forall₂ reader.Spells source.args input.args →
          ∀ comma trailing, ofTokens reader (source.tokens comma trailing) = .ok input) ∧
    (∀ tokens error, ofTokens reader tokens = .error error ↔
      ∃! place, place.2 <:+ tokens ∧
        Relation.ReflTransGen (Fits reader) (.target, tokens) place ∧
          Misfits reader place error) ∧
    ∀ tokens awaited rest, awaited = .target ∨ awaited = .argument →
      Relation.ReflTransGen (Fits reader) (.target, tokens) (awaited, .comma :: rest) →
        ofTokens reader tokens = .error (.expression false) := by
  refine ⟨?_, ?_, ?_, ?_⟩
  · intro tokens input
    constructor
    · exact exists_of_ofTokens
    · rintro ⟨source, comma, trailing, rfl, read⟩
      exact ofTokens_of_readAs refuses read
  · intro source input text format target args comma trailing
    exact ofTokens_of_readAs refuses (readAs_of_spells format target args comma trailing)
  · intro tokens error
    rw [ofTokens_eq_error_iff]
    constructor
    · rintro ⟨found, reached, misfits⟩
      refine ⟨found, ⟨suffix_of_reached reached, reached, misfits⟩, ?_⟩
      rintro other ⟨-, reachedOther, misfitsOther⟩
      exact Misfits.unique_of_reached reachedOther misfitsOther reached misfits
    · rintro ⟨found, ⟨-, reached, misfits⟩, -⟩
      exact ⟨found, reached, misfits⟩
  · intro tokens awaited rest awaits reached
    rw [ofTokens_eq_error_iff]
    refine ⟨_, reached, ?_⟩
    obtain rfl | rfl := awaits
    · exact .target (refuses rest)
    · exact .argument (List.cons_ne_nil _ _) (refuses rest)

end CallInput

namespace Grammar

/-- No expression starts with a comma. -/
theorem readExpression_comma (rest : List Token) :
    readExpression (.comma :: rest) = .error (.expression false) := rfl

theorem readExpression_of_run {taken rest : List Token} (form : ExpressionForm) {text : String}
    {surplus : Bool} (some : taken ≠ [])
    (run : ((Nonterminals.upTo (16 * ((taken ++ rest).length + 1))).expression true).run
      ⟨taken ++ rest, "", false⟩ = .ok (form, ⟨rest, text, surplus⟩)) :
    readExpression (taken ++ rest) = .ok (⟨text, surplus⟩, rest) := by
  simp only [readExpression, bind, Except.bind, run]
  simp [some, pure, Except.pure]

end Grammar

namespace CallInput

/-- The reader of the whole expression grammar: a call with both commas and with none of them, one
    with a word behind its last argument, and one with two commas in the end. -/
theorem ofTokens_recognises_pair :
    let reader := Grammar.expressionReader
    let pair := [.opening .parenthesis, .integer "1" 1 false, .comma, .word "x",
      .closing .parenthesis]
    let source : CallSource := ⟨[.word "x"], .string "\x22%d\x22" "%d", [pair]⟩
    let input : CallInput := ⟨⟨"x", false⟩, "%d", [⟨"(1,x)", false⟩]⟩
    let followed := source.tokens true false ++ [.word "y"]
    let doubled := source.tokens true true ++ [.comma]
    (∀ rest, reader.read (.comma :: rest) = .error (.expression false)) ∧
      ofTokens reader (source.tokens true true) = .ok input ∧
      ofTokens reader (source.tokens false false) = .ok input ∧
      (∃! place, place.2 <:+ followed ∧
        Relation.ReflTransGen (Fits reader) (.target, followed) place ∧
          Misfits reader place .comma) ∧
      ofTokens reader doubled = .error (.expression false) := by
  intro reader pair source input followed doubled
  obtain ⟨-, spelled, rejects, commas⟩ :=
    ofTokens_recognises Grammar.expressionReader Grammar.readExpression_comma
  have target : reader.Spells [.word "x"] ⟨"x", false⟩ :=
    ExpressionReader.spells_iff.mpr ⟨rfl, fun behind =>
      Grammar.readExpression_of_run .other (List.cons_ne_nil _ _) rfl⟩
  have arg : reader.Spells pair ⟨"(1,x)", false⟩ :=
    ExpressionReader.spells_iff.mpr ⟨rfl, fun behind =>
      Grammar.readExpression_of_run .other (List.cons_ne_nil _ _) rfl⟩
  have accepted := spelled source input _ rfl target (.cons arg .nil)
  have reached : Relation.ReflTransGen (Fits reader) (.target, doubled) (.argument, [.comma]) :=
    .head (.target (target _ (.inr rfl))) <| .head .comma <| .head .literal <|
      .head (.argument (arg [.comma, .comma] (.inr rfl))) <| .head .separator .refl
  refine ⟨Grammar.readExpression_comma, accepted true true, accepted false false, ?_,
    commas _ _ _ (.inr rfl) reached⟩
  exact (rejects _ _).mp (by decide +kernel)

end CallInput

end FormattedOutput
