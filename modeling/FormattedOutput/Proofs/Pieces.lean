import FormattedOutput.Checked.Piece
import FormattedOutput.Proofs.Encoding
import FormattedOutput.Proofs.Layout

/-!
# Pieces and layouts

The check of a format literal walks over characters and the layout of a format over bytes. The two
walks keep in step: the literal is accepted if every directive in the layout of its encoding is
complete, and then its pieces are those of the directives; and if it is refused, the directive that
is quoted is the one that the layout ends in.
-/

namespace FormattedOutput

open Bytes

/-- The piece of a conversion; a percent sign has none. -/
def Conversion.piece? (long : Bool) : Conversion → Option Piece
  | signed => some (.signed long)
  | unsigned | lowerHex | upperHex => some (.unsigned long)
  | char => some .char
  | str => some .str
  | percent => none
  | count => some .count
  | float => some .float

/-- The piece of a segment that takes an argument. -/
def Segment.piece? : Segment → Option Piece
  | literal _ => none
  | directive modifiers _ conversion => conversion.piece? modifiers.long

/-- The pieces of a layout. -/
def Layout.pieces (layout : Layout) : List Piece := layout.segments.filterMap Segment.piece?

section Characters

variable {character : Char} {first : UInt8} {more : Bytes}

/-- A byte from 128 on is no conversion. -/
theorem Conversion.ofByte?_of_le (features : Features) (high : 128 ≤ first.toNat) :
    Conversion.ofByte? features first = none := by
  have number : (Char.ofUInt8 first).toNat = first.toNat := rfl
  rw [← number] at high
  simp only [ofByte?]
  split <;> simp_all +decide

theorem Piece.ofConversion?_of_le (long : Bool) (wide : 128 ≤ character.toNat) :
    Piece.ofConversion? long character = none := by
  simp only [ofConversion?]
  split <;> simp_all +decide

/-- What a conversion character stands for, in terms of its first byte. -/
theorem Piece.ofConversion?_eq (long : Bool)
    (encoded : String.utf8EncodeChar character = first :: more) :
    Piece.ofConversion? long character =
      (Conversion.ofByte? .full first).map fun conversion => (conversion.piece? long).toList := by
  rcases first_cases encoded with ⟨ascii, rfl, -⟩ | ⟨wide, high⟩
  · simp only [Conversion.ofByte?, ofUInt8_toUInt8 ascii, ofConversion?]
    split <;> simp [Conversion.piece?, Features.full]
  · rw [ofConversion?_of_le long wide, Conversion.ofByte?_of_le .full high]
    rfl

/-- The first byte of a character tells what conversion it is. -/
theorem Piece.ofConversion?_first (encoded : String.utf8EncodeChar character = first :: more)
    (long : Bool) : Piece.ofConversion? long (Char.ofUInt8 first) =
      Piece.ofConversion? long character := by
  rcases first_cases encoded with ⟨ascii, rfl, -⟩ | ⟨wide, high⟩
  · rw [ofUInt8_toUInt8 ascii]
  · have number : 128 ≤ (Char.ofUInt8 first).toNat := high
    rw [ofConversion?_of_le long wide, ofConversion?_of_le long number]

/-- A conversion is a single byte. -/
theorem Piece.utf8EncodeChar_of_supported {long : Bool} {pieces : List Piece}
    (supported : Piece.ofConversion? long character = some pieces) :
    String.utf8EncodeChar character = [character.toUInt8] := by
  rcases Nat.lt_or_ge character.toNat 128 with ascii | wide
  · exact utf8EncodeChar_of_lt ascii
  · rw [ofConversion?_of_le long wide] at supported
    cases supported

end Characters

namespace Piece

/-- The options after a percent sign are the modifiers in its encoding. -/
theorem split_ofChars (text : List Char) :
    (Modifiers.split .full (ofChars text)).2 = ofChars (options text).rest ∧
      (Modifiers.split .full (ofChars text)).1.long = (options text).long ∧
      (Modifiers.split .full (ofChars text)).1.text = ofChars (options text).text := by
  have optional : ∀ (wanted : Char) (text : List Char),
      optionText wanted text =
        (optionally wanted (takeOptional wanted text).1, (takeOptional wanted text).2) := by
    intro wanted text
    cases found : takeOptional wanted text with
    | mk present rest => cases present <;> simp [optionText, found]
  have rest : (Modifiers.split .full (ofChars text)).2 = ofChars (options text).rest := by
    simp [Modifiers.split, Features.full, options, optional, takeOptional_ofChars,
      dropWhile_isDigit_ofChars]
  have marker : ∀ present : Bool, decide (optionally 'l' present ≠ []) = present := by
    intro present
    cases present <;> rfl
  refine ⟨rest, ?_, ?_⟩
  · simp [Modifiers.split, Features.full, options, optional, takeOptional_ofChars,
      dropWhile_isDigit_ofChars, marker, -ne_eq, -decide_not]
  · have whole := Modifiers.text_split .full (ofChars text)
    have spelled := congrArg ofChars (options_append text)
    rw [ofChars_append] at spelled
    rw [rest] at whole
    exact List.append_cancel_right (whole.trans spelled.symm)

/-- What the check of a literal says, the part of the literal from the directive on that it refuses,
    and the layout of the encoding. -/
inductive Reports : Except FormatError (List Piece) → List Char → Layout → Prop
  | accepted (segments : List Segment) :
    Reports (.ok (segments.filterMap Segment.piece?)) [] ⟨segments, .complete⟩
  | incomplete (segments : List Segment) (options : List Char) (modifiers : Modifiers) :
    Reports (.error (.incomplete (String.ofList ('%' :: options)))) ('%' :: options)
      ⟨segments, .truncated modifiers⟩
  | unsupported (segments : List Segment) (options : List Char) (conversion : Char)
      (after : List Char) (modifiers : Modifiers) (first : UInt8) (more : Bytes)
      (encoded : String.utf8EncodeChar conversion = first :: more) :
    Reports (.error (.unsupported (String.ofList ('%' :: options ++ [conversion]))))
      ('%' :: options ++ conversion :: after)
      ⟨segments, .unsupported modifiers first (more ++ ofChars after)⟩

/-- Complete segments in front add their pieces. -/
theorem Reports.prepend {result : Except FormatError (List Piece)} {bad : List Char}
    {layout : Layout} (h : Reports result bad layout) (segments : List Segment) :
    Reports (result.map (segments.filterMap Segment.piece? ++ ·)) bad
      (layout.prepend segments) := by
  cases h with
  | accepted later =>
    have pieces := accepted (segments ++ later)
    rwa [List.filterMap_append] at pieces
  | incomplete later options modifiers => exact incomplete _ options modifiers
  | unsupported later options conversion after modifiers first more encoded =>
    exact unsupported _ options conversion after modifiers first more encoded

theorem filterMap_piece?_literal (bytes : Bytes) :
    (bytes.map Segment.literal).filterMap Segment.piece? = [] := by
  simp [List.filterMap_eq_nil_iff, Segment.piece?]

theorem flatMap_text_literal (bytes : Bytes) :
    (bytes.map Segment.literal).flatMap Segment.text = bytes := by
  simp [List.flatMap_map, Segment.text]

theorem percent_notMem_utf8EncodeChar {character : Char} (other : character ≠ '%') :
    '%'.toUInt8 ∉ String.utf8EncodeChar character := by
  intro member
  rcases Nat.lt_or_ge character.toNat 128 with ascii | wide
  · have encoded := utf8EncodeChar_of_lt ascii
    rw [encoded, List.mem_singleton] at member
    exact other ((first_eq_iff encoded (by decide)).mp member.symm)
  · exact absurd (le_of_mem_utf8EncodeChar wide member) (by decide)

section Percent

variable {rest after : List Char} {conversion : Char}

theorem ofText_incomplete (behind : (options rest).rest = []) :
    ∃ modifiers, Layout.ofText .full (ofChars ('%' :: rest)) = ⟨[], .truncated modifiers⟩ := by
  obtain ⟨splitRest, -, -⟩ := split_ofChars rest
  rw [behind] at splitRest
  exact ⟨_, Layout.ofText_truncated (Prod.ext rfl splitRest)⟩

/-- The bytes behind the options are those of the conversion and of what follows it. -/
theorem split_ofChars_cons (behind : (options rest).rest = conversion :: after) {first : UInt8}
    {more : Bytes} (encoded : String.utf8EncodeChar conversion = first :: more) :
    Modifiers.split .full (ofChars rest) =
      ((Modifiers.split .full (ofChars rest)).1, first :: (more ++ ofChars after)) := by
  obtain ⟨splitRest, -, -⟩ := split_ofChars rest
  rw [behind, ofChars_cons, encoded] at splitRest
  exact Prod.ext rfl splitRest

theorem ofText_refused (behind : (options rest).rest = conversion :: after)
    (unsupported : ofConversion? (options rest).long conversion = none) :
    ∃ modifiers first more, String.utf8EncodeChar conversion = first :: more ∧
      Layout.ofText .full (ofChars ('%' :: rest)) =
        ⟨[], .unsupported modifiers first (more ++ ofChars after)⟩ := by
  obtain ⟨first, more, encoded⟩ :=
    List.exists_cons_of_ne_nil (String.utf8EncodeChar_ne_nil (c := conversion))
  have noByte : Conversion.ofByte? .full first = none := by
    rw [ofConversion?_eq _ encoded] at unsupported
    simpa using unsupported
  exact ⟨_, first, more, encoded,
    Layout.ofText_unsupported (split_ofChars_cons behind encoded) noByte⟩

theorem ofText_accepted {pieces : List Piece}
    (behind : (options rest).rest = conversion :: after)
    (supported : ofConversion? (options rest).long conversion = some pieces) :
    ∃ segment : Segment, segment.piece?.toList = pieces ∧
      segment.text = ofChars ('%' :: (options rest).text ++ [conversion]) ∧
      Layout.ofText .full (ofChars ('%' :: rest)) =
        (Layout.ofText .full (ofChars after)).prepend [segment] := by
  -- a conversion is a single byte, so the text behind it begins where its encoding ends
  have encoded := utf8EncodeChar_of_supported supported
  rw [ofConversion?_eq _ encoded] at supported
  obtain ⟨known, ofByte, piece⟩ := Option.map_eq_some_iff.mp supported
  obtain ⟨-, long, text⟩ := split_ofChars rest
  refine ⟨_, ?_, ?_, Layout.ofText_directive (split_ofChars_cons behind encoded) ofByte⟩
  · rw [Segment.piece?, long, piece]
  · rw [Segment.text, text, ofChars_append, ofChars_cons '%', ofChars_cons conversion, encoded]
    rfl

end Percent

/-- The check of a literal and the layout of its encoding belong together. What stands in front of
    the refused part is spelled by the segments of the layout. -/
theorem scan_reports (literal : List Char) :
    ∃ before bad, literal = before ++ bad ∧
      ofChars before = (Layout.ofText .full (ofChars literal)).segments.flatMap Segment.text ∧
      Reports (scan literal) bad (Layout.ofText .full (ofChars literal)) := by
  fun_induction scan literal with
  | case1 =>
    have nothing : Layout.ofText .full (ofChars []) = ⟨[], .complete⟩ := by
      rw [ofChars_nil, Layout.ofText]
    rw [nothing]
    exact ⟨[], [], rfl, rfl, .accepted []⟩
  | case2 rest found behind =>
    obtain ⟨modifiers, layout⟩ := ofText_incomplete behind
    rw [layout]
    exact ⟨[], '%' :: rest, rfl, rfl, .incomplete [] _ modifiers⟩
  | case3 rest found conversion after behind unsupported =>
    obtain ⟨modifiers, first, more, encoded, layout⟩ := ofText_refused behind unsupported
    have whole : '%' :: rest = '%' :: found.text ++ conversion :: after := by
      rw [← behind, List.cons_append, options_append]
    rw [layout]
    refine ⟨[], '%' :: rest, rfl, rfl, ?_⟩
    rw [whole]
    exact .unsupported [] _ conversion after modifiers first more encoded
  | case4 rest found conversion after behind pieces supported ih =>
    obtain ⟨before, bad, later, spelled, reports⟩ := ih
    obtain ⟨segment, piece, text, layout⟩ := ofText_accepted behind supported
    have whole : '%' :: rest = '%' :: found.text ++ [conversion] ++ before ++ bad := by
      rw [← options_append rest, behind, later]
      simp [found]
    have pieces : [segment].filterMap Segment.piece? = pieces := by
      rw [← piece]
      cases taken : segment.piece? <;> simp [taken]
    have prepended := reports.prepend [segment]
    rw [pieces] at prepended
    rw [layout]
    refine ⟨_, bad, whole, ?_, prepended⟩
    rw [ofChars_append, spelled, ← text, Layout.segments_prepend, List.flatMap_append,
      List.flatMap_singleton]
  | case5 character rest other ih =>
    obtain ⟨before, bad, later, spelled, reports⟩ := ih
    have layout := Layout.ofText_plain .full (percent_notMem_utf8EncodeChar other) (ofChars rest)
    rw [← ofChars_cons] at layout
    have prepended := reports.prepend ((String.utf8EncodeChar character).map .literal)
    rw [filterMap_piece?_literal] at prepended
    simp only [List.nil_append] at prepended
    rw [layout]
    refine ⟨character :: before, bad, by rw [later, List.cons_append], ?_, ?_⟩
    · rw [ofChars_cons, spelled, Layout.segments_prepend, List.flatMap_append,
        flatMap_text_literal]
    · have same : Except.map (fun pieces => pieces) (scan rest) = scan rest := by
        cases scan rest <;> rfl
      rwa [same] at prepended

variable {literal : List Char} {pieces : List Piece}

theorem ofFormat_of_nulFree (nulFree : '\x00' ∉ literal) : ofFormat literal = scan literal :=
  if_neg nulFree

/-- A literal is refused for a NUL exactly if it holds one. -/
theorem ofFormat_eq_nul_iff : ofFormat literal = .error .nul ↔ '\x00' ∈ literal := by
  constructor
  · intro refused
    by_contra nulFree
    obtain ⟨before, bad, -, -, reports⟩ := scan_reports literal
    rw [ofFormat_of_nulFree nulFree] at refused
    rw [refused] at reports
    cases reports
  · intro member
    rw [ofFormat, if_pos member]

/-- A literal that is not refused for a NUL holds none, and all of it is walked over. -/
theorem scan_of_ofFormat {result : Except FormatError (List Piece)}
    (checked : ofFormat literal = result) (other : result ≠ .error .nul) :
    '\x00' ∉ literal ∧ scan literal = result := by
  have nulFree : '\x00' ∉ literal := by
    intro member
    exact other (checked ▸ ofFormat_eq_nul_iff.mpr member)
  exact ⟨nulFree, ofFormat_of_nulFree nulFree ▸ checked⟩

/-- All directives of a literal that is accepted are complete, and its pieces are theirs. -/
theorem layout_of_ofFormat (accepted : ofFormat literal = .ok pieces) :
    0 ∉ ofChars literal ∧ (Layout.ofText .full (ofChars literal)).ending = .complete ∧
      (Layout.ofText .full (ofChars literal)).pieces = pieces := by
  obtain ⟨nulFree, scanned⟩ := scan_of_ofFormat accepted (by simp)
  obtain ⟨before, bad, -, -, reports⟩ := scan_reports literal
  refine ⟨mt zero_mem_ofChars.mp nulFree, ?_⟩
  generalize Layout.ofText .full (ofChars literal) = layout at reports
  rw [scanned] at reports
  cases reports with
  | accepted segments => exact ⟨rfl, rfl⟩

/-- What stands in front of the first malformed directive is accepted. -/
theorem ofFormat_of_segments {segments : List Segment}
    (wellFormed : ∀ segment ∈ segments, segment.WellFormed .full)
    (spelled : ofChars literal = segments.flatMap Segment.text) (nulFree : '\x00' ∉ literal) :
    Layout.ofText .full (ofChars literal) = ⟨segments, .complete⟩ ∧
      ofFormat literal = .ok (segments.filterMap Segment.piece?) := by
  have layout : Layout.ofText .full (ofChars literal) = ⟨segments, .complete⟩ := by
    have complete : Layout.WellFormed .full ⟨segments, .complete⟩ := ⟨wellFormed, trivial⟩
    have found := Layout.ofText_text complete
    rwa [Layout.text, Ending.text, List.append_nil, ← spelled] at found
  obtain ⟨before, bad, -, -, reports⟩ := scan_reports literal
  refine ⟨layout, ?_⟩
  rw [ofFormat_of_nulFree nulFree]
  rw [layout] at reports
  generalize scan literal = result at reports
  cases reports with
  | accepted => rfl

end Piece

end FormattedOutput
