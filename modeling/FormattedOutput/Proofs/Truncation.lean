import FormattedOutput.Buffer
import FormattedOutput.Proofs.Bytewise
import FormattedOutput.Proofs.CallSequence

/-!
# Truncation

Formatting into a buffer whose last byte is kept for the terminator does what formatting without a
limit does, as far as anything but the buffer is concerned. The buffer receives the first bytes of
the whole output, as many as fit in front of the terminator, and nothing behind the terminator
changes.
-/

namespace FormattedOutput

variable {features : Features} {format : Bytes} {args : List Arg}

/-- An appending sink behind a ceiling receives the first bytes of all calls of the plan. -/
theorem toList_handle_interpret (features : Features) (ceiling : Ceiling) (format : Bytes)
    (args : List Arg) :
    (interpret features (HandleSink.appending #[]) ceiling format args).sink.handle.toList =
      (Sink.content (Plan.ofFormat features format args).calls).take ceiling.remaining := by
  rw [interpret_eq, Sink.applyAll_eq_foldl, Sink.content_clip, HandleSink.foldl_put_appending]
  simp [HandleSink.appending]

/-- Without a ceiling it receives all of them. -/
theorem toList_handle_formatTo
    (fits : (formatTo features (HandleSink.appending #[]) format args).written < 2 ^ 64) :
    (formatTo features (HandleSink.appending #[]) format args).sink.handle.toList =
      Sink.content (Plan.ofFormat features format args).calls := by
  rw [formatTo, written_interpret] at fits
  rw [formatTo, toList_handle_interpret]
  exact List.take_of_length_le (Nat.le_of_lt_succ fits)

/-- A cursor behind a ceiling holds the first bytes of all calls of the plan. -/
theorem cursor_interpret (features : Features) (buffer : Array UInt8) (ceiling : Ceiling)
    (format : Bytes) (args : List Arg) :
    (interpret features (Cursor.ofBuffer buffer) ceiling format args).sink =
      (Cursor.ofBuffer buffer).putAll
        ((Sink.content (Plan.ofFormat features format args).calls).take ceiling.remaining) := by
  have whole := Sink.Bytewise.putAll_eq (Cursor.ofBuffer buffer)
    ((Sink.content (Plan.ofFormat features format args).calls).take ceiling.remaining)
  rw [interpret_eq, Sink.applyAll_eq_foldl, Sink.content_clip, ← whole]
  rfl

section Independence

variable {σ τ : Type} [Sink σ] [Sink τ]

/-- What is stored in the count slots depends on neither the sink nor the ceiling. -/
theorem args_interpret (features : Features) (sink : σ) (other : τ) (ceiling limit : Ceiling)
    (format : Bytes) (args : List Arg) :
    (interpret features sink ceiling format args).args =
      (interpret features other limit format args).args := by
  rw [interpret_eq, interpret_eq]

/-- Neither do the events of an interpretation. -/
theorem events_interpret (features : Features) (sink : σ) (other : τ) (ceiling limit : Ceiling)
    (format : Bytes) (args : List Arg) :
    (interpret features sink ceiling format args).events =
      (interpret features other limit format args).events := by
  rw [interpret_eq, interpret_eq]
  rfl

/-- What a destination lets through is what fits in front of the terminator. -/
theorem deposited_interpret (features : Features) (sink : σ) (size : Nat) (format : Bytes)
    (args : List Arg) :
    (interpret features sink (.reservingTerminator size) format args).deposited =
      min (Sink.content (Plan.ofFormat features format args).calls).length (size - 1) := by
  rw [interpret_eq, Ceiling.deposited_claimMany]
  exact Nat.zero_add _

end Independence

/-- A buffer after a text that leaves room for a terminator, and the terminator. -/
theorem toList_buffer_terminate {buffer : Array UInt8} {text : Bytes}
    (room : text.length < buffer.size) :
    ((Cursor.ofBuffer buffer).putAll text).terminate.2.buffer.toList =
      text ++ 0 :: buffer.toList.drop (text.length + 1) := by
  have fits : min buffer.size text.length = text.length := by omega
  have position : ((Cursor.ofBuffer buffer).putAll text).position = text.length := by
    simp [Cursor.position_putAll, Cursor.ofBuffer, fits]
  have stored : ((Cursor.ofBuffer buffer).putAll text).buffer.toList =
      text ++ buffer.toList.drop text.length := by
    rw [Cursor.toList_buffer_putAll]
    simp [Cursor.ofBuffer, fits, List.take_of_length_le (Nat.le_of_lt room)]
  have size : ((Cursor.ofBuffer buffer).putAll text).buffer.size = buffer.size :=
    Cursor.size_buffer_putAll _ text
  have behind : buffer.toList.drop text.length =
      buffer.toList[text.length] :: buffer.toList.drop (text.length + 1) :=
    List.drop_eq_getElem_cons (by simpa using room)
  simp only [Cursor.terminate, position, size, room, dif_pos, Array.toList_set, stored]
  rw [behind, List.set_append_right _ _ (Nat.le_refl _), Nat.sub_self, List.set_cons_zero]

/-- An output is cut if it does not fit in front of the terminator. -/
theorem truncationEvents_eq (written size : Nat) :
    truncationEvents written (min written (size - 1)) =
      if size - 1 < written then [.outputTruncated written (min written (size - 1))] else [] := by
  have cut : min written (size - 1) < written ↔ size - 1 < written := by omega
  simp only [truncationEvents, cut]

/-- The buffer holds the first bytes of all calls of the plan, and the terminator. -/
theorem buffer_formatWithin (features : Features) (buffer : Array UInt8) (format : Bytes)
    (args : List Arg) :
    (formatWithin features buffer format args).buffer =
      ((Cursor.ofBuffer buffer).putAll
        ((Sink.content (Plan.ofFormat features format args).calls).take
          (buffer.size - 1))).terminate.2.buffer := by
  have room : (Ceiling.reservingTerminator buffer.size).remaining = buffer.size - 1 := rfl
  rw [← room, ← cursor_interpret]
  rfl

/-- The events of a buffer are those of any interpretation, and one more if the output is cut. -/
theorem events_formatWithin {σ : Type} [Sink σ] (features : Features) (buffer : Array UInt8)
    (sink : σ) (ceiling : Ceiling) (format : Bytes) (args : List Arg) :
    (formatWithin features buffer format args).events =
      (interpret features sink ceiling format args).events ++
        truncationEvents (Sink.content (Plan.ofFormat features format args).calls).length
          (min (Sink.content (Plan.ofFormat features format args).calls).length
            (buffer.size - 1)) := by
  rw [← deposited_interpret features (Cursor.ofBuffer buffer),
    ← written_interpret features (Cursor.ofBuffer buffer) (.reservingTerminator buffer.size),
    events_interpret features sink (Cursor.ofBuffer buffer) ceiling
      (.reservingTerminator buffer.size)]
  rfl

/-- The truncation law. Formatting within a buffer reports the length of the whole output, stores
    the same counts and stops for the same reason as formatting without a limit. The buffer holds
    the first bytes of the whole output, as many as fit in front of a terminator, the terminator,
    and behind it what it held before; an output that does not fit is an event. -/
theorem formatWithin_eq_take (features : Features) (buffer : Array UInt8) (format : Bytes)
    (args : List Arg)
    (fits : (formatTo features (HandleSink.appending #[]) format args).written < 2 ^ 64) :
    let whole := formatTo features (HandleSink.appending #[]) format args
    let output := whole.sink.handle.toList
    let kept := min whole.written (buffer.size - 1)
    let cut := formatWithin features buffer format args
    output.length = whole.written ∧ cut.length = whole.written ∧ cut.args = whole.args ∧
      (buffer.size = 0 → cut.buffer = buffer) ∧
      (0 < buffer.size →
        cut.buffer.toList = output.take kept ++ 0 :: buffer.toList.drop (kept + 1)) ∧
      cut.events = whole.events ++
        if buffer.size - 1 < whole.written then [.outputTruncated whole.written kept] else [] := by
  intro whole output kept cut
  have written : whole.written =
      (Sink.content (Plan.ofFormat features format args).calls).length :=
    written_interpret features _ _ format args
  have delivered : output = Sink.content (Plan.ofFormat features format args).calls :=
    toList_handle_formatTo fits
  have length : output.length = whole.written := by rw [written, delivered]
  have stored : cut.buffer =
      ((Cursor.ofBuffer buffer).putAll (output.take (buffer.size - 1))).terminate.2.buffer := by
    rw [delivered]
    exact buffer_formatWithin features buffer format args
  refine ⟨length, ?_, ?_, ?_, ?_, ?_⟩
  · rw [written]
    exact written_interpret features _ _ format args
  · exact args_interpret features _ _ _ _ format args
  · intro empty
    have nothing : buffer = #[] := Array.eq_empty_of_size_eq_zero empty
    rw [stored, nothing]
    rfl
  · intro nonempty
    have taken : output.take (buffer.size - 1) = output.take kept := by
      rw [List.take_eq_take_iff, length]
      omega
    have fits : (output.take kept).length = kept := by
      rw [List.length_take, length]
      omega
    have room : (output.take kept).length < buffer.size := by omega
    rw [stored, taken, toList_buffer_terminate room, fits]
  · have events := events_formatWithin features buffer (HandleSink.appending #[]) .unbounded format
      args
    rw [← written, truncationEvents_eq] at events
    exact events

/-- Seven bytes where four fit: the count is that of the whole output, the cut is in the middle of a
    field, and the interpretation stops early for want of an argument. -/
theorem formatWithin_eq_take_inside_field :
    let format := Bytes.ofString "ab%-4s%n.%d"
    let args := [.str (Bytes.ofString "xyz"), .count 9]
    let buffer : Array UInt8 := #[1, 2, 3, 4, 5]
    let whole := formatTo .full (HandleSink.appending #[]) format args
    let cut := formatWithin .full buffer format args
    whole.written < 2 ^ 64 ∧ cut.length = 7 ∧ cut.buffer.toList = Bytes.ofString "abxy" ++ [0] ∧
      cut.args = [.str (Bytes.ofString "xyz"), .count 6] ∧
      cut.events = [.stoppedEarly .missingArgument 7 11, .outputTruncated 7 4] := by
  intro format args buffer whole cut
  have fits : whole.written < 2 ^ 64 := by decide +kernel
  obtain ⟨-, length, stored, -, bytes, events⟩ :=
    formatWithin_eq_take .full buffer format args fits
  refine ⟨fits, ?_, ?_, ?_, ?_⟩
  · rw [length]
    decide +kernel
  · rw [bytes (by decide)]
    decide +kernel
  · rw [stored]
    decide +kernel
  · rw [events]
    decide +kernel

end FormattedOutput
