import FormattedOutput.Checked.Expansion
import FormattedOutput.Proofs.Pieces

/-!
# Arguments and the directives they belong to

An expansion puts the directives of the format and the arguments of the call side by side. The two
lists come from different texts, and whichever is longer would lose its end; but a call is expanded
only if they are equally long, so every argument gets the builder of its own directive.
-/

namespace FormattedOutput

/-- Whether a segment takes an argument. All directives do but for the percent sign. -/
def Segment.takesArgument : Segment → Bool
  | literal _ => false
  | directive _ _ conversion => conversion ≠ .percent

theorem Segment.isSome_piece? (segment : Segment) :
    segment.piece?.isSome = segment.takesArgument := by
  cases segment with
  | literal byte => rfl
  | directive modifiers byte conversion => cases conversion <;> rfl

/-- A layout has as many pieces as segments that take an argument. -/
theorem Layout.length_pieces (layout : Layout) :
    layout.pieces.length = layout.segments.countP Segment.takesArgument := by
  rw [pieces, List.length_filterMap_eq_countP]
  exact List.countP_congr fun segment _ => by rw [Segment.isSome_piece?]

theorem Bytes.toByteArray_ofString (text : String) :
    (ofString text).toByteArray = text.toByteArray := by
  rw [← String.utf8Encode_toList]
  rfl

namespace CallInput

variable {form : CallForm} {input : CallInput} {pieces : List Piece}

/-- What a call expands to whose format has pieces, as many as there are arguments. -/
def expansion (form : CallForm) (input : CallInput) (pieces : List Piece) : Expansion where
  routine := form.routine
  target := form.target input.target
  format := Bytes.ofString (form.format input.format)
  args := (pieces.map Piece.kind).zip (input.args.map Expression.text)

theorem format_eq_ite (form : CallForm) (literal : String) :
    form.format literal = if form = .printLine then literal.push '\n' else literal := by
  cases form <;> rfl

/-- Everything that can become of a call. The check of the format decides first. -/
theorem expand_cases (form : CallForm) (input : CallInput) :
    (∃ error, Piece.ofFormat (form.format input.format).toList = .error error ∧
        input.expand form = .error (.format error)) ∨
      ∃ pieces, Piece.ofFormat (form.format input.format).toList = .ok pieces ∧
        (pieces.length = input.args.length ∧ input.expand form = .ok (input.expansion form pieces) ∨
          pieces.length ≠ input.args.length ∧
            input.expand form = .error (.argumentCount pieces.length input.args.length)) := by
  simp only [expand]
  cases Piece.ofFormat (form.format input.format).toList with
  | error error => exact .inl ⟨error, rfl, rfl⟩
  | ok pieces =>
    by_cases same : pieces.length = input.args.length
    · exact .inr ⟨pieces, rfl, .inl ⟨same, if_pos same⟩⟩
    · exact .inr ⟨pieces, rfl, .inr ⟨same, if_neg same⟩⟩

/-- A call is expanded exactly if its format has a piece for each argument. -/
theorem expand_eq_ok_iff {found : Expansion} :
    input.expand form = .ok found ↔
      ∃ pieces, Piece.ofFormat (form.format input.format).toList = .ok pieces ∧
        pieces.length = input.args.length ∧ input.expansion form pieces = found := by
  rcases expand_cases form input with
    ⟨error, checked, outcome⟩ | ⟨pieces, checked, ⟨same, outcome⟩ | ⟨differ, outcome⟩⟩ <;>
      simp [*]

theorem expand_eq_format_iff {error : FormatError} :
    input.expand form = .error (.format error) ↔
      Piece.ofFormat (form.format input.format).toList = .error error := by
  rcases expand_cases form input with
    ⟨found, checked, outcome⟩ | ⟨pieces, checked, ⟨same, outcome⟩ | ⟨differ, outcome⟩⟩ <;>
      simp [*]

/-- Only a call with a format that is accepted is refused for the number of its arguments. -/
theorem expand_eq_argumentCount_iff {required supplied : Nat} :
    input.expand form = .error (.argumentCount required supplied) ↔
      ∃ pieces, Piece.ofFormat (form.format input.format).toList = .ok pieces ∧
        pieces.length = required ∧ input.args.length = supplied ∧ required ≠ supplied := by
  rcases expand_cases form input with
    ⟨error, checked, outcome⟩ | ⟨pieces, checked, ⟨same, outcome⟩ | ⟨differ, outcome⟩⟩
  · simp [checked, outcome]
  · constructor
    · intro refused
      cases outcome.symm.trans refused
    · rintro ⟨found, accepted, rfl, rfl, differ⟩
      cases checked.symm.trans accepted
      exact absurd same differ
  · constructor
    · intro refused
      cases outcome.symm.trans refused
      exact ⟨pieces, checked, rfl, rfl, differ⟩
    · rintro ⟨found, accepted, rfl, rfl, -⟩
      cases checked.symm.trans accepted
      exact outcome

theorem expand_ne_form {error : SyntaxError} : input.expand form ≠ .error (.form error) := by
  rcases expand_cases form input with
    ⟨found, checked, outcome⟩ | ⟨pieces, checked, ⟨same, outcome⟩ | ⟨differ, outcome⟩⟩ <;>
      simp [outcome]

/-- With as many arguments as pieces none of them is left out. -/
theorem args_expansion (form : CallForm) (same : pieces.length = input.args.length) :
    (input.expansion form pieces).args.map Prod.fst = pieces.map Piece.kind ∧
      (input.expansion form pieces).args.map Prod.snd = input.args.map Expression.text := by
  have builders : (pieces.map Piece.kind).length = (input.args.map Expression.text).length := by
    rw [List.length_map, List.length_map, same]
  exact ⟨List.map_fst_zip (Nat.le_of_eq builders), List.map_snd_zip (Nat.le_of_eq builders.symm)⟩

/-- A call of any form is expanded exactly if its format, which ends in a newline if the call prints
    a line, is accepted and has as many directives that take an argument as the call has arguments.
    Its expansion then calls the routine of the form with its target and the UTF-8 encoding of the
    very text that was checked, and with all arguments in their order, each in the builder of the
    piece at its place. A call whose format is refused is refused for it, however many arguments
    there are, and a call with another number of arguments for these two numbers. -/
theorem expand_pairs (form : CallForm) (input : CallInput) :
    let checked := if form = .printLine then input.format.push '\n' else input.format
    let layout := Layout.ofText .full (Bytes.ofString checked)
    let required := layout.segments.countP Segment.takesArgument
    let supplied := input.args.length
    ((∃ found, input.expand form = .ok found) ↔
        (∃ pieces, Piece.ofFormat checked.toList = .ok pieces) ∧ required = supplied) ∧
      (∀ found, input.expand form = .ok found →
        ∃ pieces, Piece.ofFormat checked.toList = .ok pieces ∧ pieces = layout.pieces ∧
          found.routine = form.routine ∧ found.target = form.target input.target ∧
          found.format.toByteArray = checked.toByteArray ∧
          found.args.map Prod.fst = pieces.map Piece.kind ∧
          found.args.map Prod.snd = input.args.map Expression.text) ∧
      (∀ error, input.expand form = .error (.format error) ↔
        Piece.ofFormat checked.toList = .error error) ∧
      (∀ first second, input.expand form = .error (.argumentCount first second) ↔
        (∃ pieces, Piece.ofFormat checked.toList = .ok pieces) ∧
          first = required ∧ second = supplied ∧ required ≠ supplied) ∧
      ∀ error, input.expand form ≠ .error (.form error) := by
  intro checked layout required supplied
  have format : form.format input.format = checked := format_eq_ite form input.format
  have pieces_eq {pieces : List Piece} (accepted : Piece.ofFormat checked.toList = .ok pieces) :
      layout.pieces = pieces := (Piece.layout_of_ofFormat accepted).2.2
  have counted {pieces : List Piece} (accepted : Piece.ofFormat checked.toList = .ok pieces) :
      pieces.length = required := by
    rw [← pieces_eq accepted, Layout.length_pieces]
  refine ⟨?_, ?_, ?_, ?_, fun error => expand_ne_form⟩
  · simp only [expand_eq_ok_iff, format]
    constructor
    · rintro ⟨-, pieces, accepted, same, -⟩
      exact ⟨⟨pieces, accepted⟩, (counted accepted).symm.trans same⟩
    · rintro ⟨⟨pieces, accepted⟩, same⟩
      exact ⟨_, pieces, accepted, (counted accepted).trans same, rfl⟩
  · intro found expanded
    obtain ⟨pieces, accepted, same, rfl⟩ := expand_eq_ok_iff.mp expanded
    obtain ⟨builders, texts⟩ := args_expansion form same
    rw [format] at accepted
    refine ⟨pieces, accepted, (pieces_eq accepted).symm, rfl, rfl, ?_, builders, texts⟩
    rw [← format]
    exact Bytes.toByteArray_ofString _
  · intro error
    rw [expand_eq_format_iff, format]
  · intro first second
    rw [expand_eq_argumentCount_iff, format]
    constructor
    · rintro ⟨pieces, accepted, rfl, rfl, differ⟩
      rw [counted accepted] at differ ⊢
      exact ⟨⟨pieces, accepted⟩, rfl, rfl, differ⟩
    · rintro ⟨⟨pieces, accepted⟩, rfl, rfl, differ⟩
      exact ⟨pieces, accepted, counted accepted, rfl, differ⟩

/-- A character of two bytes, a width, a percent sign and a marker; then the same format with too
    few arguments, and a directive that only the newline ends, with no argument at all. -/
theorem expand_pairs_line :
    let input : CallInput := ⟨⟨"console", false⟩, "é%-5d%%%lx", [⟨"1", false⟩, ⟨"x+1", false⟩]⟩
    let short : CallInput := { input with args := [⟨"1", false⟩] }
    let unfinished : CallInput := { input with format := "%d%-5", args := [] }
    (∃ found, input.expand .printLine = .ok found ∧
      found.format.toByteArray = "é%-5d%%%lx\n".toByteArray ∧
      found.args.map Prod.fst = [.int, .ulong] ∧ found.args.map Prod.snd = ["1", "x+1"]) ∧
      short.expand .printLine = .error (.argumentCount 2 1) ∧
      unfinished.expand .printLine = .error (.format (.unsupported "%-5\n")) := by
  intro input short unfinished
  have accepted : Piece.ofFormat "é%-5d%%%lx\n".toList = .ok [.signed false, .unsigned true] := by
    decide +kernel
  obtain ⟨succeeds, pairs, -⟩ := expand_pairs .printLine input
  obtain ⟨found, expanded⟩ := succeeds.mpr ⟨⟨_, accepted⟩, by decide +kernel⟩
  obtain ⟨pieces, checked, -, -, -, bytes, builders, texts⟩ := pairs found expanded
  cases accepted.symm.trans checked
  obtain ⟨-, -, -, counts, -⟩ := expand_pairs .printLine short
  obtain ⟨-, -, refusals, -⟩ := expand_pairs .printLine unfinished
  refine ⟨⟨found, expanded, bytes, builders, texts⟩, ?_, ?_⟩
  · exact (counts 2 1).mpr ⟨⟨_, accepted⟩, by decide +kernel, rfl, by decide +kernel⟩
  · exact (refusals _).mpr (by decide +kernel)

end CallInput

end FormattedOutput
