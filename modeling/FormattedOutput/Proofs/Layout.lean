import FormattedOutput.Proofs.Modifiers

/-!
# The layout of a format

A format without NUL is a sequence of literal bytes and complete directives, followed by nothing,
by a directive that the end of the format cuts off, or by a directive whose conversion is none and
any text behind it. Such a layout spells one text, and every text without NUL is spelled by exactly
one layout.
-/

namespace FormattedOutput

/-- One part of a format. -/
inductive Segment where
  /-- A byte that stands for itself. -/
  | literal (byte : UInt8)
  /-- A percent sign, modifiers and the byte of a conversion. -/
  | directive (modifiers : Modifiers) (byte : UInt8) (conversion : Conversion)
  deriving DecidableEq, Repr

namespace Segment

/-- The bytes that spell a segment. -/
def text : Segment → Bytes
  | literal byte => [byte]
  | directive modifiers byte _ => '%'.toUInt8 :: (modifiers.text ++ [byte])

/-- A literal byte is neither NUL nor a percent sign, and a directive belongs to the grammar. -/
def WellFormed (features : Features) : Segment → Prop
  | literal byte => byte ≠ 0 ∧ byte ≠ '%'.toUInt8
  | directive modifiers byte conversion =>
    modifiers.GreedyBefore features [byte] ∧
      Conversion.ofByte? features byte = some conversion

end Segment

/-- What follows the last complete directive and the literal bytes behind it. -/
inductive Ending where
  /-- Nothing: every directive is complete. -/
  | complete
  /-- A percent sign and modifiers, and then the format ends. -/
  | truncated (modifiers : Modifiers)
  /-- A percent sign, modifiers, a byte that is no conversion, and any text. -/
  | unsupported (modifiers : Modifiers) (byte : UInt8) (rest : Bytes)
  deriving DecidableEq, Repr

namespace Ending

/-- The bytes that spell an ending. -/
def text : Ending → Bytes
  | complete => []
  | truncated modifiers => '%'.toUInt8 :: modifiers.text
  | unsupported modifiers byte rest => '%'.toUInt8 :: (modifiers.text ++ byte :: rest)

/-- The directive in an ending begins as the grammar has it, and goes wrong as the ending says. -/
def WellFormed (features : Features) : Ending → Prop
  | complete => True
  | truncated modifiers => modifiers.GreedyBefore features []
  | unsupported modifiers byte _ =>
    modifiers.GreedyBefore features [byte] ∧ byte ≠ 0 ∧
      Conversion.ofByte? features byte = none

end Ending

/-- A format taken apart. -/
structure Layout where
  segments : List Segment
  ending : Ending
  deriving DecidableEq, Repr

namespace Layout

/-- The format that a layout spells. -/
def text (layout : Layout) : Bytes := layout.segments.flatMap Segment.text ++ layout.ending.text

/-- All parts of a layout are well-formed. -/
def WellFormed (features : Features) (layout : Layout) : Prop :=
  (∀ segment ∈ layout.segments, segment.WellFormed features) ∧ layout.ending.WellFormed features

/-- A layout with further segments in front. -/
def prepend (segments : List Segment) (layout : Layout) : Layout :=
  { layout with segments := segments ++ layout.segments }

/-- The layout of a text. -/
def ofText (features : Features) : Bytes → Layout
  | [] => ⟨[], .complete⟩
  | first :: rest =>
    if first = '%'.toUInt8 then
      match _h : (Modifiers.split features rest).2 with
      | [] => ⟨[], .truncated (Modifiers.split features rest).1⟩
      | byte :: after =>
        match Conversion.ofByte? features byte with
        | none => ⟨[], .unsupported (Modifiers.split features rest).1 byte after⟩
        | some conversion =>
          (ofText features after).prepend
            [.directive (Modifiers.split features rest).1 byte conversion]
    else (ofText features rest).prepend [.literal first]
termination_by text => text.length
decreasing_by
  · have whole := congrArg List.length (Modifiers.text_split features rest)
    rw [_h] at whole
    simp only [List.length_append, List.length_cons] at whole ⊢
    omega
  · simp

variable {features : Features} {segments : List Segment} {layout : Layout}

@[simp] theorem segments_prepend (segments : List Segment) (layout : Layout) :
    (layout.prepend segments).segments = segments ++ layout.segments := rfl

@[simp] theorem ending_prepend (segments : List Segment) (layout : Layout) :
    (layout.prepend segments).ending = layout.ending := rfl

theorem text_prepend (segments : List Segment) (layout : Layout) :
    (layout.prepend segments).text = segments.flatMap Segment.text ++ layout.text := by
  simp only [text, segments_prepend, ending_prepend, List.flatMap_append, List.append_assoc]

theorem wellFormed_prepend (front : ∀ segment ∈ segments, segment.WellFormed features)
    (back : layout.WellFormed features) : (layout.prepend segments).WellFormed features := by
  refine ⟨?_, back.2⟩
  intro segment member
  rcases List.mem_append.mp member with inFront | inBack
  · exact front segment inFront
  · exact back.1 segment inBack

/-- The layout of a text spells that text. -/
theorem text_ofText (features : Features) (format : Bytes) :
    (ofText features format).text = format := by
  fun_induction ofText features format with
  | case1 => rfl
  | case2 rest behind =>
    have whole := Modifiers.text_split features rest
    simp only [behind, List.append_nil] at whole
    simp [text, Ending.text, whole]
  | case3 rest byte after behind unsupported =>
    have whole := Modifiers.text_split features rest
    rw [behind] at whole
    simp [text, Ending.text, whole]
  | case4 rest byte after behind conversion supported ih =>
    have whole := Modifiers.text_split features rest
    rw [behind] at whole
    simp [text_prepend, Segment.text, ih, whole]
  | case5 first rest other ih => simp [text_prepend, Segment.text, ih]

/-- The layout of a text without NUL is well-formed. -/
theorem wellFormed_ofText (features : Features) (format : Bytes) (nulFree : 0 ∉ format) :
    (ofText features format).WellFormed features := by
  fun_induction ofText features format with
  | case1 => simp [WellFormed, Ending.WellFormed]
  | case2 rest behind =>
    have greedy := Modifiers.split_greedyBefore features rest
    rw [behind] at greedy
    exact ⟨by simp, greedy⟩
  | case3 rest byte after behind unsupported =>
    have whole := Modifiers.text_split features rest
    have greedy := Modifiers.split_greedyBefore features rest
    rw [behind] at whole greedy
    have nonzero : byte ≠ 0 := by
      rintro rfl
      rw [← whole] at nulFree
      simp at nulFree
    exact ⟨by simp, greedy.congr rfl, nonzero, unsupported⟩
  | case4 rest byte after behind conversion supported ih =>
    have whole := Modifiers.text_split features rest
    have greedy := Modifiers.split_greedyBefore features rest
    rw [behind] at whole greedy
    have nulFreeAfter : 0 ∉ after := by
      intro member
      rw [← whole] at nulFree
      simp [member] at nulFree
    apply wellFormed_prepend _ (ih nulFreeAfter)
    simpa [Segment.WellFormed] using ⟨greedy.congr rfl, supported⟩
  | case5 first rest other ih =>
    simp only [List.mem_cons, not_or] at nulFree
    apply wellFormed_prepend _ (ih nulFree.2)
    simpa [Segment.WellFormed] using ⟨Ne.symm nulFree.1, other⟩

section Percent

variable {text after : Bytes} {modifiers : Modifiers} {byte : UInt8}

theorem ofText_truncated (found : Modifiers.split features text = (modifiers, [])) :
    ofText features ('%'.toUInt8 :: text) = ⟨[], .truncated modifiers⟩ := by
  rw [ofText, if_pos rfl]
  split
  next => rw [found]
  next behind => simp [found] at behind

theorem ofText_unsupported (found : Modifiers.split features text = (modifiers, byte :: after))
    (unsupported : Conversion.ofByte? features byte = none) :
    ofText features ('%'.toUInt8 :: text) = ⟨[], .unsupported modifiers byte after⟩ := by
  rw [ofText, if_pos rfl]
  split
  next behind => simp [found] at behind
  next behind =>
    rw [found] at behind
    cases behind
    simp only [unsupported, found]

theorem ofText_directive (found : Modifiers.split features text = (modifiers, byte :: after))
    {conversion : Conversion} (supported : Conversion.ofByte? features byte = some conversion) :
    ofText features ('%'.toUInt8 :: text) =
      (ofText features after).prepend [.directive modifiers byte conversion] := by
  rw [ofText, if_pos rfl]
  split
  next behind => simp [found] at behind
  next behind =>
    rw [found] at behind
    cases behind
    simp only [supported, found]

end Percent

/-- Bytes other than a percent sign are literal, whatever follows them. -/
theorem ofText_plain (features : Features) {plain : Bytes} (other : '%'.toUInt8 ∉ plain)
    (after : Bytes) : ofText features (plain ++ after) =
      (ofText features after).prepend (plain.map .literal) := by
  induction plain with
  | nil => rfl
  | cons first plain ih =>
    simp only [List.mem_cons, not_or] at other
    rw [List.cons_append, ofText, if_neg (Ne.symm other.1), ih other.2]
    rfl

/-- A well-formed segment in front of a text is the first segment of its layout. -/
theorem ofText_segment {segment : Segment} (h : segment.WellFormed features) (after : Bytes) :
    ofText features (segment.text ++ after) = (ofText features after).prepend [segment] := by
  cases segment with
  | literal byte => rw [Segment.text, List.singleton_append, ofText, if_neg h.2]
  | directive modifiers byte conversion =>
    have found : Modifiers.split features (modifiers.text ++ byte :: after) =
        (modifiers, byte :: after) := Modifiers.split_text_append (h.1.congr rfl)
    simp only [Segment.text, List.cons_append, List.append_assoc, List.nil_append]
    exact ofText_directive found h.2

/-- A well-formed ending is the layout of its text. -/
theorem ofText_ending {ending : Ending} (h : ending.WellFormed features) :
    ofText features ending.text = ⟨[], ending⟩ := by
  cases ending with
  | complete => simp [Ending.text, ofText]
  | truncated modifiers =>
    have found : Modifiers.split features modifiers.text = (modifiers, []) := by
      simpa using Modifiers.split_text_append h
    exact ofText_truncated found
  | unsupported modifiers byte after =>
    have found : Modifiers.split features (modifiers.text ++ byte :: after) =
        (modifiers, byte :: after) := Modifiers.split_text_append (h.1.congr rfl)
    exact ofText_unsupported found h.2.2

/-- Well-formed segments in front of a text are the first segments of its layout. -/
theorem ofText_flatMap (wellFormed : ∀ segment ∈ segments, segment.WellFormed features)
    (after : Bytes) : ofText features (segments.flatMap Segment.text ++ after) =
      (ofText features after).prepend segments := by
  induction segments with
  | nil => rfl
  | cons segment rest ih =>
    have front := wellFormed segment List.mem_cons_self
    have back := ih fun other member => wellFormed other (List.mem_cons_of_mem _ member)
    rw [List.flatMap_cons, List.append_assoc, ofText_segment front, back]
    rfl

/-- A well-formed layout is the layout of the text that it spells. -/
theorem ofText_text (h : layout.WellFormed features) : ofText features layout.text = layout := by
  obtain ⟨segments, ending⟩ := layout
  rw [text, ofText_flatMap h.1, ofText_ending h.2]
  simp [prepend]

/-- Every format without NUL is spelled by exactly one well-formed layout. -/
theorem existsUnique_layout (features : Features) {format : Bytes} (nulFree : 0 ∉ format) :
    ∃! layout : Layout, layout.WellFormed features ∧ layout.text = format := by
  refine ⟨ofText features format, ⟨wellFormed_ofText features format nulFree,
    text_ofText features format⟩, ?_⟩
  rintro other ⟨wellFormed, rfl⟩
  exact (ofText_text wellFormed).symm

end Layout

end FormattedOutput
