import FormattedOutput.Proofs.Composition
import FormattedOutput.Proofs.Pieces
import FormattedOutput.Proofs.Truncation

/-!
# Escaped text

Any text without NUL can be written by a format: every percent sign is doubled, and the pairs are
directives that write one percent sign each. Such a format asks for no argument, whatever the
features, and it is the only one of literal bytes and pairs of percent signs that writes its text.
-/

namespace FormattedOutput

/-- A text in which a certain element is written twice wherever it stands. -/
def doubled {α : Type} [DecidableEq α] (wanted : α) (text : List α) : List α :=
  text.flatMap fun element => if element = wanted then [element, element] else [element]

/-- The format for a text: every percent sign is doubled. -/
def Bytes.escape (text : Bytes) : Bytes := doubled '%'.toUInt8 text

/-- A format of literal bytes and pairs of percent signs. -/
inductive Bytes.Plain : Bytes → Prop
  | nil : Plain []
  | literal {byte : UInt8} {rest : Bytes} (other : byte ≠ '%'.toUInt8) (later : Plain rest) :
    Plain (byte :: rest)
  | percent {rest : Bytes} (later : Plain rest) : Plain ('%'.toUInt8 :: '%'.toUInt8 :: rest)

section Doubled

variable {α : Type} [DecidableEq α] {wanted element : α}

theorem doubled_append (wanted : α) (first second : List α) :
    doubled wanted (first ++ second) = doubled wanted first ++ doubled wanted second :=
  List.flatMap_append

theorem doubled_cons_self (wanted : α) (rest : List α) :
    doubled wanted (wanted :: rest) = wanted :: wanted :: doubled wanted rest := by
  simp [doubled]

theorem doubled_cons_of_ne (other : element ≠ wanted) (rest : List α) :
    doubled wanted (element :: rest) = element :: doubled wanted rest := by
  simp [doubled, other]

theorem mem_doubled {text : List α} : element ∈ doubled wanted text ↔ element ∈ text := by
  simp only [doubled, List.mem_flatMap]
  constructor
  · rintro ⟨found, member, twice⟩
    have same : element = found := by
      split at twice <;> simpa using twice
    exact same ▸ member
  · intro member
    exact ⟨element, member, by split <;> simp⟩

theorem doubled_of_notMem {text : List α} (absent : wanted ∉ text) :
    doubled wanted text = text := by
  induction text with
  | nil => rfl
  | cons element rest ih =>
    simp only [List.mem_cons, not_or] at absent
    rw [doubled_cons_of_ne (Ne.symm absent.1), ih absent.2]

end Doubled

namespace Bytes

/-- Doubling a character below 128 doubles its byte. -/
theorem ofChars_doubled_percent (literal : List Char) :
    ofChars (doubled '%' literal) = (ofChars literal).escape := by
  induction literal with
  | nil => rfl
  | cons character rest ih =>
    rw [ofChars_cons, escape, doubled_append]
    by_cases percent : character = '%'
    · rw [percent, doubled_cons_self, ofChars_cons, ofChars_cons, ih]
      rfl
    · have other := Piece.percent_notMem_utf8EncodeChar percent
      rw [doubled_cons_of_ne percent, ofChars_cons, ih, doubled_of_notMem other]
      rfl

theorem length_le_escape (text : Bytes) : text.length ≤ text.escape.length := by
  induction text with
  | nil => rfl
  | cons byte rest ih =>
    by_cases percent : byte = '%'.toUInt8
    · rw [percent, escape, doubled_cons_self]
      exact Nat.le_succ_of_le (Nat.succ_le_succ ih)
    · rw [escape, doubled_cons_of_ne percent]
      exact Nat.succ_le_succ ih

theorem plain_escape (text : Bytes) : text.escape.Plain := by
  induction text with
  | nil => exact .nil
  | cons byte rest ih =>
    by_cases percent : byte = '%'.toUInt8
    · rw [percent, escape, doubled_cons_self]
      exact .percent ih
    · rw [escape, doubled_cons_of_ne percent]
      exact .literal percent ih

theorem Plain.exists_eq_escape {format : Bytes} (h : format.Plain) :
    ∃ text : Bytes, format = text.escape := by
  induction h with
  | nil => exact ⟨[], rfl⟩
  | @literal byte rest other later ih =>
    obtain ⟨text, rfl⟩ := ih
    exact ⟨byte :: text, (doubled_cons_of_ne other text).symm⟩
  | percent later ih =>
    obtain ⟨text, rfl⟩ := ih
    exact ⟨'%'.toUInt8 :: text, (doubled_cons_self _ text).symm⟩

end Bytes

namespace Segment

/-- The segment that writes a byte: a pair for a percent sign, and the byte itself otherwise. -/
def plain (byte : UInt8) : Segment :=
  if byte = '%'.toUInt8 then .directive ⟨false, false, [], false⟩ byte .percent else .literal byte

theorem flatMap_text_plain (text : Bytes) :
    (text.map plain).flatMap Segment.text = text.escape := by
  induction text with
  | nil => rfl
  | cons byte rest ih =>
    rw [List.map_cons, List.flatMap_cons, ih]
    by_cases percent : byte = '%'.toUInt8
    · rw [percent, Bytes.escape, Bytes.escape, doubled_cons_self]
      rfl
    · rw [Bytes.escape, Bytes.escape, doubled_cons_of_ne percent, plain, if_neg percent]
      rfl

/-- Pairs of percent signs and literal bytes belong to the grammar, whatever the features. -/
theorem wellFormed_of_mem_map_plain (features : Features) {text : Bytes} (nulFree : 0 ∉ text) :
    ∀ segment ∈ text.map plain, segment.WellFormed features := by
  intro segment member
  obtain ⟨byte, inside, rfl⟩ := List.mem_map.mp member
  have nonzero : byte ≠ 0 := fun nul => nulFree (nul ▸ inside)
  by_cases percent : byte = '%'.toUInt8
  · rw [plain, if_pos percent, percent]
    refine ⟨⟨by simp, by simp, ?_, ?_, ?_, ?_⟩, rfl⟩
    · exact fun _ => by decide
    · exact fun _ => by decide
    · intro byte first
      obtain rfl : '%'.toUInt8 = byte := by simpa using first
      rfl
    · exact fun _ _ => by decide
  · rw [plain, if_neg percent]
    exact ⟨nonzero, percent⟩

theorem bind_plain (byte : UInt8) (args : List Arg) :
    (plain byte).bind args = .ok (.text byte (plain byte).text.length, args) := by
  by_cases percent : byte = '%'.toUInt8
  · rw [plain, if_pos percent, percent]
    rfl
  · rw [plain, if_neg percent]
    rfl

theorem piece?_plain (byte : UInt8) : (plain byte).piece? = none := by
  rw [plain]
  split <;> rfl

end Segment

section Plan

variable {text : Bytes}

/-- The steps that write a text byte by byte. -/
def Step.ofText (text : Bytes) : List Step :=
  text.map fun byte => .text byte (Segment.plain byte).text.length

theorem Step.taken_ofText (text : Bytes) : (Step.ofText text).flatMap Step.taken = [] := by
  simp [Step.ofText, Step.taken]

theorem Step.calls_ofText (text : Bytes) :
    (Step.ofText text).flatMap Step.calls = text.map .put := by
  rw [Step.ofText, List.flatMap_map, List.map_eq_flatMap]
  rfl

theorem Sink.content_map_put (text : Bytes) : Sink.content (text.map .put) = text := by
  simp [Sink.content, List.flatMap_map, Sink.Call.bytes]

theorem Layout.planFrom_plain (text : Bytes) (args : List Arg) :
    planFrom .complete (text.map Segment.plain) args = ⟨Step.ofText text, none, 0⟩ := by
  induction text with
  | nil => rfl
  | cons byte rest ih =>
    rw [List.map_cons, planFrom, Segment.bind_plain]
    simp only [ih]
    rfl

/-- The plan of an escaped text writes the text and takes nothing, whatever the arguments. -/
theorem Plan.ofFormat_escape (features : Features) (nulFree : 0 ∉ text) (args : List Arg) :
    ofFormat features text.escape args = ⟨Step.ofText text, none, 0⟩ := by
  rw [← Segment.flatMap_text_plain]
  exact ofFormat_flatMap_self (Segment.wellFormed_of_mem_map_plain features nulFree)
    (Layout.planFrom_plain text args)

theorem Plan.calls_ofFormat_escape (features : Features) (nulFree : 0 ∉ text) (args : List Arg) :
    (ofFormat features text.escape args).calls = text.map .put := by
  rw [ofFormat_escape features nulFree, calls, Step.calls_ofText]

end Plan

section Interpretation

variable {σ : Type} [Sink σ] {text : Bytes}

/-- An escaped text is interpreted to its end, and no argument is taken or changed. -/
theorem interpret_escape (features : Features) (nulFree : 0 ∉ text) (sink : σ) (ceiling : Ceiling)
    (args : List Arg) :
    let outcome := interpret features sink ceiling text.escape args
    outcome.written = text.length ∧ outcome.stopped = none ∧ outcome.consumed = 0 ∧
      outcome.args = args := by
  intro outcome
  have plan := Plan.ofFormat_escape features nulFree args
  refine ⟨?_, ?_, ?_, ?_⟩
  · have counted : outcome.written = _ := written_interpret ..
    rw [counted, Plan.calls_ofFormat_escape features nulFree, Sink.content_map_put]
  · have ended : outcome.stopped = _ := stopped_interpret
    rw [ended, plan]
  · have taken : outcome.consumed = _ := consumed_interpret
    rw [taken, plan, Step.taken_ofText, List.length_nil]
  · have left : outcome.args = _ := args_interpret_eq
    have stored := Plan.length_storedFrom 0 (Step.ofText text)
    rw [Step.taken_ofText, List.length_nil, List.length_eq_zero_iff] at stored
    rw [left, plan, Plan.argsFrom, stored, Step.taken_ofText]
    rfl

theorem sink_formatTo_escape (features : Features) (nulFree : 0 ∉ text)
    (short : text.length < 2 ^ 64) (sink : σ) (args : List Arg) :
    (formatTo features sink text.escape args).sink = Sink.applyAll sink (text.map .put) := by
  have written : (formatTo features sink text.escape args).written = text.length :=
    (interpret_escape features nulFree sink .unbounded args).1
  rw [sink_formatTo sink args (written ▸ short), Plan.calls_ofFormat_escape features nulFree]

end Interpretation

/-- A buffer with room for the text and a terminator holds both afterwards, and nothing was cut. -/
theorem formatWithin_escape (features : Features) {text : Bytes} (nulFree : 0 ∉ text)
    {buffer : Array UInt8} (size : buffer.size = text.length + 1) (args : List Arg) :
    let filled := formatWithin features buffer text.escape args
    filled.buffer.toList = text ++ [0] ∧ filled.length = text.length ∧ filled.args = args ∧
      filled.events = [] := by
  intro filled
  obtain ⟨written, stopped, -, left⟩ := interpret_escape features nulFree (Cursor.ofBuffer buffer)
    (.reservingTerminator buffer.size) args
  have content : Sink.content (Plan.ofFormat features text.escape args).calls = text := by
    rw [Plan.calls_ofFormat_escape features nulFree, Sink.content_map_put]
  have whole : text.take (buffer.size - 1) = text := List.take_of_length_le (by omega)
  refine ⟨?_, written, left, ?_⟩
  · have stored : filled.buffer = _ := buffer_formatWithin features buffer text.escape args
    have behind : buffer.toList.drop (text.length + 1) = [] :=
      List.drop_of_length_le (by rw [Array.length_toList]; omega)
    rw [stored, content, whole, toList_buffer_terminate (by omega), behind]
  · have events : filled.events = _ := events_formatWithin features buffer (Cursor.ofBuffer buffer)
      (.reservingTerminator buffer.size) text.escape args
    have uncut : min text.length (buffer.size - 1) = text.length := by omega
    rw [events, content, uncut, Outcome.events, stopped, truncationEvents,
      if_neg (Nat.lt_irrefl _), List.append_nil]

/-- The check of a literal with doubled percent signs accepts it and asks for nothing. -/
theorem Piece.ofFormat_doubled {literal : List Char} (nulFree : '\x00' ∉ literal) :
    Piece.ofFormat (doubled '%' literal) = .ok [] := by
  have wellFormed := Segment.wellFormed_of_mem_map_plain .full
    (mt Bytes.zero_mem_ofChars.mp nulFree)
  have spelled : Bytes.ofChars (doubled '%' literal) =
      ((Bytes.ofChars literal).map Segment.plain).flatMap Segment.text := by
    rw [Bytes.ofChars_doubled_percent, Segment.flatMap_text_plain]
  obtain ⟨-, accepted⟩ := ofFormat_of_segments wellFormed spelled (mt mem_doubled.mp nulFree)
  rw [accepted, List.filterMap_map, List.filterMap_eq_nil_iff.mpr]
  exact fun byte _ => Segment.piece?_plain byte

/-- Escaping is undone by formatting. A text without NUL, every percent sign of it doubled, is a
    format that puts the bytes of the text one by one and nothing else into any sink, whatever the
    features, reports their number, does not stop early, and neither takes an argument nor changes
    one; a buffer with one byte more than the text holds the text and a terminator; and if the text
    is the encoding of a literal, the format is that of the doubled literal, and the check accepts
    it without pieces. In the other direction, of the formats without NUL exactly those of literal
    bytes and pairs of percent signs are what their own output is escaped to. -/
theorem formatTo_escape (features : Features) (args : List Arg) :
    (∀ text : Bytes, 0 ∉ text → text.length < 2 ^ 64 →
      (∀ (σ : Type) [Sink σ] (sink : σ),
        let outcome := formatTo features sink text.escape args
        outcome.sink = Sink.applyAll sink (text.map .put) ∧ outcome.written = text.length ∧
          outcome.stopped = none ∧ outcome.consumed = 0 ∧ outcome.args = args) ∧
      (∀ buffer : Array UInt8, buffer.size = text.length + 1 →
        let filled := formatWithin features buffer text.escape args
        filled.buffer.toList = text ++ [0] ∧ filled.length = text.length ∧ filled.args = args ∧
          filled.events = []) ∧
      ∀ literal : List Char, Bytes.ofChars literal = text →
        Bytes.ofChars (doubled '%' literal) = text.escape ∧
          Piece.ofFormat (doubled '%' literal) = .ok []) ∧
    ∀ format : Bytes, 0 ∉ format → format.length < 2 ^ 64 →
      let outcome := formatTo features (HandleSink.appending #[]) format args
      format.Plain ↔ format = Bytes.escape outcome.sink.handle.toList := by
  refine ⟨?_, ?_⟩
  · intro text nulFree short
    refine ⟨?_, ?_, ?_⟩
    · intro σ _ sink outcome
      exact ⟨sink_formatTo_escape features nulFree short sink args,
        interpret_escape features nulFree sink .unbounded args⟩
    · intro buffer size
      exact formatWithin_escape features nulFree size args
    · rintro literal rfl
      exact ⟨Bytes.ofChars_doubled_percent literal,
        Piece.ofFormat_doubled (mt Bytes.zero_mem_ofChars.mpr nulFree)⟩
  · intro format nulFree short outcome
    constructor
    · intro plain
      obtain ⟨text, rfl⟩ := plain.exists_eq_escape
      have nulFreeText : 0 ∉ text := mt mem_doubled.mpr nulFree
      have written : outcome.written = text.length :=
        (interpret_escape features nulFreeText _ .unbounded args).1
      have output : outcome.sink.handle.toList = text := by
        have delivered : outcome.sink.handle.toList = _ :=
          toList_handle_formatTo (written ▸ Nat.lt_of_le_of_lt text.length_le_escape short)
        rw [delivered, Plan.calls_ofFormat_escape features nulFreeText, Sink.content_map_put]
      rw [output]
    · intro same
      rw [same]
      exact Bytes.plain_escape _

/-- Percent signs at both ends, in front of what could be a flag, a width and a conversion, and a
    byte that no encoding has, where neither optional part of the language is there. -/
theorem formatTo_escape_bare :
    let text := Bytes.ofString "%-5%%ld" ++ [255, '%'.toUInt8]
    let literal := "%é%".toList
    let outcome := formatTo ⟨false, false⟩ CallLog.empty text.escape [.int 7]
    let filled := formatWithin ⟨false, false⟩ #[1, 2, 3, 4, 5]
      (Bytes.ofChars literal).escape [.int 7]
    let written := formatTo ⟨false, false⟩ (HandleSink.appending #[]) (Bytes.ofString "a%%%%b") []
    (0 ∉ text ∧ text.length < 2 ^ 64 ∧ (Bytes.ofString "a%%%%b").Plain) ∧
      outcome.sink.calls = text.map .put ∧ outcome.written = 9 ∧ outcome.stopped = none ∧
      filled.buffer.toList = Bytes.ofString "%é%" ++ [0] ∧
      Piece.ofFormat "%%é%%".toList = .ok [] ∧
      Bytes.ofString "a%%%%b" = Bytes.escape written.sink.handle.toList := by
  intro text literal outcome filled written
  have nulFree : 0 ∉ text := by decide +kernel
  have short : text.length < 2 ^ 64 := by decide +kernel
  have plain : (Bytes.ofString "a%%%%b").Plain := .literal (by decide) (.percent (.percent
    (.literal (by decide) .nil)))
  obtain ⟨texts, -⟩ := formatTo_escape ⟨false, false⟩ [.int 7]
  obtain ⟨sink, length, stopped, -⟩ := (texts text nulFree short).1 CallLog CallLog.empty
  obtain ⟨-, buffers, literals⟩ := texts (Bytes.ofChars literal) (by decide +kernel)
    (by decide +kernel)
  obtain ⟨bytes, -⟩ := buffers #[1, 2, 3, 4, 5] (by decide +kernel)
  obtain ⟨-, accepted⟩ := literals literal rfl
  obtain ⟨-, formats⟩ := formatTo_escape ⟨false, false⟩ []
  refine ⟨⟨nulFree, short, plain⟩, ?_, length.trans (by decide +kernel), stopped, bytes, accepted,
    (formats _ (by decide +kernel) (by decide +kernel)).mp plain⟩
  exact (congrArg CallLog.calls sink).trans (CallLog.calls_applyAll_empty _)

end FormattedOutput
