import FormattedOutput.Proofs.Typing

/-!
# Accepted literals in other configurations

The check of a format literal accepts both optional parts of the format language, whichever of them
the interpretation has. A part that is missing takes the builders of its arguments with it, which
keeps most literals that use the part from being interpreted at all; but the marker `l` may also
stand in a directive whose argument has nothing to do with it. An accepted literal whose builders
all exist is interpreted to its end exactly if there is no such directive or the marker is known.
-/

namespace FormattedOutput

open Bytes

/-- Whether a builder of arguments exists. -/
def Features.provides (features : Features) : ArgKind → Bool
  | .long | .ulong => features.long
  | .float => features.float
  | .int | .uint | .char | .str | .count => true

/-- Whether a segment has the marker `l`. -/
def Segment.marked : Segment → Bool
  | literal _ => false
  | directive modifiers _ _ => modifiers.long

namespace Modifiers

variable {features : Features} {modifiers : Modifiers} {rest : Bytes}

/-- The modifiers up to the marker. -/
def unmarked (modifiers : Modifiers) : Modifiers := { modifiers with long := false }

/-- Where the marker is no part of the grammar it is what follows the modifiers. -/
theorem text_of_long (long : modifiers.long = true) :
    modifiers.text ++ rest = modifiers.unmarked.text ++ 'l'.toUInt8 :: rest := by
  simp [text, unmarked, long]

theorem GreedyBefore.of_full (h : modifiers.GreedyBefore .full rest)
    (known : modifiers.long = true → features.long = true) :
    modifiers.GreedyBefore features rest :=
  ⟨h.digits, known, h.minus_taken, h.zero_taken, h.digits_taken, fun _ => h.long_taken rfl⟩

theorem GreedyBefore.unmarked (h : modifiers.GreedyBefore .full rest)
    (long : modifiers.long = true) (unknown : features.long = false) :
    modifiers.unmarked.GreedyBefore features ['l'.toUInt8] := by
  have whole : modifiers.unmarked.GreedyBefore features ('l'.toUInt8 :: rest) := by
    refine ⟨h.digits, ?_, ?_, ?_, ?_, ?_⟩
    · simp [Modifiers.unmarked]
    · simpa [Modifiers.unmarked, long] using h.minus_taken
    · simpa [Modifiers.unmarked, long] using h.zero_taken
    · simpa [Modifiers.unmarked, long] using h.digits_taken
    · simp [unknown]
  exact whole.congr rfl

end Modifiers

variable {features : Features}

theorem Conversion.ofByte?_of_full {byte : UInt8} {conversion : Conversion}
    (found : Conversion.ofByte? .full byte = some conversion)
    (known : conversion = .float → features.float = true) :
    Conversion.ofByte? features byte = some conversion := by
  simp only [ofByte?, Features.full] at found ⊢
  split at found <;> simp_all

/-- A directive whose argument can be built belongs to the grammar, but for its marker. -/
theorem Segment.wellFormed_of_provides {segment : Segment} (h : segment.WellFormed .full)
    (provided : ∀ piece, segment.piece? = some piece → features.provides piece.kind = true)
    (known : segment.marked = true → features.long = true) : segment.WellFormed features := by
  cases segment with
  | literal byte => exact h
  | directive modifiers byte conversion =>
    refine ⟨h.1.of_full known, Conversion.ofByte?_of_full h.2 ?_⟩
    rintro rfl
    exact provided .float rfl

theorem Segment.exists_first_marked {segments : List Segment}
    (someMarked : ¬ ∀ segment ∈ segments, segment.marked = false) :
    ∃ front segment back, segments = front ++ segment :: back ∧
      (∀ other ∈ front, other.marked = false) ∧ segment.marked = true := by
  cases first : segments.find? marked with
  | none =>
    have unmarked := List.find?_eq_none.mp first
    exact absurd (fun segment member => by simpa using unmarked segment member) someMarked
  | some segment =>
    obtain ⟨isMarked, front, back, whole, unmarked⟩ := List.find?_eq_some_iff_append.mp first
    exact ⟨front, segment, back, whole, fun other member => by simpa using unmarked other member,
      isMarked⟩

/-- A literal whose builders all exist is read up to its first unknown marker. -/
theorem Layout.ofText_of_marked {front back : List Segment} {modifiers : Modifiers} {byte : UInt8}
    {conversion : Conversion} (wellFormed : ∀ segment ∈ front, segment.WellFormed features)
    (greedy : modifiers.GreedyBefore .full [byte]) (long : modifiers.long = true)
    (unknown : features.long = false) :
    Layout.ofText features
        ((front ++ .directive modifiers byte conversion :: back).flatMap Segment.text) =
      ⟨front, .unsupported modifiers.unmarked 'l'.toUInt8
        (byte :: back.flatMap Segment.text)⟩ := by
  have unsupported : Conversion.ofByte? features 'l'.toUInt8 = none := rfl
  have ends : Ending.WellFormed features (.unsupported modifiers.unmarked 'l'.toUInt8
      (byte :: back.flatMap Segment.text)) :=
    ⟨greedy.unmarked long unknown, by decide, unsupported⟩
  have spelled : (front ++ .directive modifiers byte conversion :: back).flatMap Segment.text =
      Layout.text ⟨front, .unsupported modifiers.unmarked 'l'.toUInt8
        (byte :: back.flatMap Segment.text)⟩ := by
    simp [Layout.text, Ending.text, Segment.text, Modifiers.text_of_long long]
  rw [spelled, Layout.ofText_text ⟨wellFormed, ends⟩]

section Interpretation

variable {σ : Type} [Sink σ] {literal : List Char} {pieces : List Piece} {args : List Arg}

/-- The directives of an accepted literal, and what the builders of its arguments say of them. -/
theorem segment_wellFormed_of_accepted (accepted : Piece.ofFormat literal = .ok pieces)
    (provided : ∀ piece ∈ pieces, features.provides piece.kind = true) {segment : Segment}
    (member : segment ∈ (Layout.ofText .full (ofChars literal)).segments)
    (known : segment.marked = true → features.long = true) : segment.WellFormed features := by
  obtain ⟨nulFree, -, asked⟩ := Piece.layout_of_ofFormat accepted
  have wellFormed := (Layout.wellFormed_ofText .full _ nulFree).1 segment member
  refine Segment.wellFormed_of_provides wellFormed ?_ known
  intro piece taken
  apply provided
  rw [← asked]
  exact List.mem_filterMap.mpr ⟨segment, member, taken⟩

/-- The encoding of an accepted literal is spelled by its segments. -/
theorem flatMap_text_of_accepted (accepted : Piece.ofFormat literal = .ok pieces) :
    (Layout.ofText .full (ofChars literal)).segments.flatMap Segment.text = ofChars literal := by
  obtain ⟨-, complete, -⟩ := Piece.layout_of_ofFormat accepted
  have spelled := Layout.text_ofText .full (ofChars literal)
  rwa [Layout.text, complete, Ending.text, List.append_nil] at spelled

/-- Where every marker is known, an accepted literal is interpreted to its end. -/
theorem interpret_of_known (accepted : Piece.ofFormat literal = .ok pieces)
    (provided : ∀ piece ∈ pieces, features.provides piece.kind = true)
    (typed : Piece.Typed pieces args)
    (known : ∀ segment ∈ (Layout.ofText .full (ofChars literal)).segments,
      segment.marked = true → features.long = true) (sink : σ) (ceiling : Ceiling) :
    (interpret features sink ceiling (ofChars literal) args).stopped = none ∧
      (interpret features sink ceiling (ofChars literal) args).consumed = args.length := by
  obtain ⟨nulFree, -, asked⟩ := Piece.layout_of_ofFormat accepted
  have wellFormed : Layout.WellFormed features
      ⟨(Layout.ofText .full (ofChars literal)).segments, .complete⟩ :=
    ⟨fun segment member => segment_wellFormed_of_accepted accepted provided member
      (known segment member), trivial⟩
  have layout := Layout.ofText_text wellFormed
  rw [Layout.text, Ending.text, List.append_nil, flatMap_text_of_accepted accepted] at layout
  rw [← asked, Layout.pieces] at typed
  obtain ⟨stopped, consumed, -⟩ := interpret_of_typed nulFree layout typed [] sink ceiling
  rw [List.append_nil] at stopped consumed
  exact ⟨stopped, consumed⟩

/-- At the first marker that is not known the interpretation stops. -/
theorem interpret_of_marked (accepted : Piece.ofFormat literal = .ok pieces)
    (provided : ∀ piece ∈ pieces, features.provides piece.kind = true)
    (typed : Piece.Typed pieces args) (unknown : features.long = false)
    {front back : List Segment} {segment : Segment}
    (segments : (Layout.ofText .full (ofChars literal)).segments = front ++ segment :: back)
    (unmarked : ∀ other ∈ front, other.marked = false) (marked : segment.marked = true)
    (sink : σ) (ceiling : Ceiling) :
    (interpret features sink ceiling (ofChars literal) args).stopped =
        some (.unsupported 'l'.toUInt8) ∧
      (interpret features sink ceiling (ofChars literal) args).position =
        (front.flatMap Segment.text).length + 1 ∧
      (interpret features sink ceiling (ofChars literal) args).consumed =
        (front.filterMap Segment.piece?).length := by
  obtain ⟨nulFree, -, asked⟩ := Piece.layout_of_ofFormat accepted
  have wellFormed : ∀ other ∈ front, other.WellFormed features := by
    intro other member
    have inside : other ∈ (Layout.ofText .full (ofChars literal)).segments := by
      rw [segments]
      exact List.mem_append_left _ member
    refine segment_wellFormed_of_accepted accepted provided inside ?_
    simp [unmarked other member]
  have spelled := flatMap_text_of_accepted accepted
  rw [← asked, Layout.pieces, segments, List.filterMap_append] at typed
  rw [segments] at spelled
  obtain ⟨taken, more, whole, typedFront⟩ := typed.split
  cases segment with
  | literal byte => cases marked
  | directive modifiers byte conversion =>
    have member : Segment.directive modifiers byte conversion ∈
        (Layout.ofText .full (ofChars literal)).segments := by
      rw [segments]
      exact List.mem_append_right _ List.mem_cons_self
    have greedy := ((Layout.wellFormed_ofText .full _ nulFree).1 _ member).1
    have layout : Layout.ofText features
        ((front ++ .directive modifiers byte conversion :: back).flatMap Segment.text) = _ :=
      Layout.ofText_of_marked wellFormed greedy marked unknown
    rw [spelled] at layout
    obtain ⟨stopped, consumed, position⟩ :=
      interpret_of_typed nulFree layout typedFront more sink ceiling
    rw [← whole] at stopped consumed position
    refine ⟨stopped, position, ?_⟩
    rw [consumed]
    exact typedFront.length_eq.symm

/-- An accepted literal whose builders all exist is interpreted to its end, with all its arguments,
    exactly if the marker `l` is known or stands in none of its directives. Otherwise the
    interpretation stops at the first directive with the marker, which is then taken for a
    conversion that is none. -/
theorem interpret_complete_iff (features : Features)
    (accepted : Piece.ofFormat literal = .ok pieces)
    (provided : ∀ piece ∈ pieces, features.provides piece.kind = true)
    (built : Piece.Built pieces args) (sink : σ) (ceiling : Ceiling) :
    let segments := (Layout.ofText .full (ofChars literal)).segments
    let outcome := interpret features sink ceiling (ofChars literal) args
    (outcome.stopped = none ∧ outcome.consumed = args.length ↔
        features.long = true ∨ ∀ segment ∈ segments, segment.marked = false) ∧
      (features.long = false →
        ∀ front segment back, segments = front ++ segment :: back →
          (∀ other ∈ front, other.marked = false) → segment.marked = true →
            outcome.stopped = some (.unsupported 'l'.toUInt8) ∧
              outcome.position = (front.flatMap Segment.text).length + 1 ∧
              outcome.consumed = (front.filterMap Segment.piece?).length) := by
  intro segments outcome
  refine ⟨⟨?_, ?_⟩, ?_⟩
  · rintro ⟨complete, -⟩
    by_contra neither
    rw [not_or, Bool.not_eq_true] at neither
    obtain ⟨unknown, someMarked⟩ := neither
    obtain ⟨front, segment, back, whole, unmarked, marked⟩ := Segment.exists_first_marked someMarked
    obtain ⟨stopped, -⟩ :=
      interpret_of_marked accepted provided built.typed unknown whole unmarked marked sink ceiling
    rw [stopped] at complete
    cases complete
  · intro known
    refine interpret_of_known accepted provided built.typed ?_ sink ceiling
    intro segment member marked
    rcases known with known | unmarked
    · exact known
    · rw [unmarked segment member] at marked
      cases marked
  · intro unknown front segment back whole unmarked marked
    exact interpret_of_marked accepted provided built.typed unknown whole unmarked marked sink
      ceiling

end Interpretation

/-- A marked string directive, with the marker and without. -/
theorem interpret_complete_iff_string :
    let literal := "a%lsb".toList
    let args := [.str (Bytes.ofString "x")]
    let known := interpret ⟨true, false⟩ CallLog.empty .unbounded (ofChars literal) args
    let unknown := interpret ⟨false, true⟩ CallLog.empty .unbounded (ofChars literal) args
    (known.stopped = none ∧ known.consumed = 1) ∧
      unknown.stopped = some (.unsupported 'l'.toUInt8) ∧ unknown.position = 2 ∧
        unknown.consumed = 0 := by
  intro literal args known unknown
  have accepted : Piece.ofFormat literal = .ok [.str] := by decide +kernel
  have built : Piece.Built [.str] args := .cons rfl .nil
  have segments : (Layout.ofText .full (ofChars literal)).segments =
      [.literal 97] ++ .directive ⟨false, false, [], true⟩ 115 .str :: [.literal 98] := by
    decide +kernel
  refine ⟨?_, ?_⟩
  · exact (interpret_complete_iff ⟨true, false⟩ accepted (by decide) built CallLog.empty
      .unbounded).1.mpr (Or.inl rfl)
  · exact (interpret_complete_iff ⟨false, true⟩ accepted (by decide) built CallLog.empty
      .unbounded).2 rfl _ _ _ segments (by decide) rfl

/-- Acceptance and builders that exist do not by themselves make an interpretation complete: the
    marker of a string directive is accepted, and stops the interpretation where it is not known. -/
theorem interpret_incomplete_marked_string :
    ¬ ∀ (features : Features) (literal : List Char) (pieces : List Piece) (args : List Arg),
      Piece.ofFormat literal = .ok pieces →
        (∀ piece ∈ pieces, features.provides piece.kind = true) → Piece.Built pieces args →
          (interpret features CallLog.empty .unbounded (ofChars literal) args).stopped = none ∧
            (interpret features CallLog.empty .unbounded (ofChars literal) args).consumed =
              args.length := by
  intro complete
  have stopped := (complete ⟨false, true⟩ "a%lsb".toList [.str] [.str (Bytes.ofString "x")]
    (by decide +kernel) (by decide) (.cons rfl .nil)).1
  have marker : (interpret ⟨false, true⟩ CallLog.empty .unbounded (ofChars "a%lsb".toList)
      [.str (Bytes.ofString "x")]).stopped = some (.unsupported 108) := by
    decide +kernel
  rw [marker] at stopped
  cases stopped

end FormattedOutput
