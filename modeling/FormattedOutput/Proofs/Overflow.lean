import FormattedOutput.Proofs.Truncation

/-!
# Buffers that are too small

Formatting into a buffer that should be large enough and formatting into one whose last byte is kept
for the terminator do the same as long as the output leaves room for the terminator. If it does not,
both store as much of the output as they can: the whole buffer in the one case, and all of it but
the last byte, which is the terminator, in the other.
-/

namespace FormattedOutput

variable {features : Features} {buffer : Array UInt8} {format : Bytes} {args : List Arg}

/-- A buffer after a text that leaves no room for a terminator. -/
theorem toList_buffer_terminate_full {text : Bytes} (full : buffer.size ≤ text.length) :
    ((Cursor.ofBuffer buffer).putAll text).terminate.2.buffer.toList = text.take buffer.size := by
  have position : ((Cursor.ofBuffer buffer).putAll text).position = buffer.size := by
    simp [Cursor.position_putAll, Cursor.ofBuffer, full]
  have size : ((Cursor.ofBuffer buffer).putAll text).buffer.size = buffer.size :=
    Cursor.size_buffer_putAll _ text
  rw [Cursor.terminate, dif_neg (by omega), Cursor.toList_buffer_putAll]
  simp [Cursor.ofBuffer, full]

/-- Keeping the last byte for the terminator changes no other byte of a buffer that is full. -/
theorem buffer_terminate_cut {text : Bytes} (full : buffer.size ≤ text.length) :
    ((Cursor.ofBuffer buffer).putAll (text.take (buffer.size - 1))).terminate.2.buffer =
      ((Cursor.ofBuffer buffer).putAll text).terminate.2.buffer.setIfInBounds
        (buffer.size - 1) 0 := by
  apply Array.toList_inj.mp
  rw [Array.toList_setIfInBounds, toList_buffer_terminate_full full]
  rcases Nat.eq_zero_or_pos buffer.size with empty | nonempty
  · have nothing : buffer = #[] := Array.eq_empty_of_size_eq_zero empty
    rw [nothing]
    rfl
  · have short : (text.take (buffer.size - 1)).length = buffer.size - 1 := by
      rw [List.length_take]
      omega
    have last : buffer.size - 1 < (text.take buffer.size).length := by
      rw [List.length_take]
      omega
    have nothingBehind : buffer.toList.drop (buffer.size - 1 + 1) = [] :=
      List.drop_of_length_le (by rw [Array.length_toList]; omega)
    have nothingLeft : (text.take buffer.size).drop (buffer.size - 1 + 1) = [] :=
      List.drop_of_length_le (by rw [List.length_take]; omega)
    rw [toList_buffer_terminate (by omega), short, List.set_eq_take_append_cons_drop, if_pos last,
      nothingBehind, nothingLeft, List.take_take, Nat.min_eq_left (Nat.sub_le ..)]

/-- The buffer holds all calls of the plan, as far as it has room, and the terminator. -/
theorem buffer_formatInto
    (fits : (formatTo features (HandleSink.appending #[]) format args).written < 2 ^ 64) :
    (formatInto features buffer format args).buffer =
      ((Cursor.ofBuffer buffer).putAll
        (Sink.content (Plan.ofFormat features format args).calls)).terminate.2.buffer := by
  rw [formatTo, written_interpret] at fits
  have whole : (Sink.content (Plan.ofFormat features format args).calls).take
      (Ceiling.unbounded).remaining = Sink.content (Plan.ofFormat features format args).calls :=
    List.take_of_length_le (Nat.le_of_lt_succ fits)
  have stored := cursor_interpret features buffer .unbounded format args
  rw [whole] at stored
  rw [← stored]
  rfl

/-- The two ways to fill a buffer agree. Both report the length of the whole output and store the
    same counts. An output that leaves room for the terminator is stored by both in the same way; of
    a longer one the first fills the buffer to its end, and the second differs from that only in the
    last byte, which is the terminator. -/
theorem formatInto_agrees_formatWithin (features : Features) (buffer : Array UInt8)
    (format : Bytes) (args : List Arg)
    (fits : (formatTo features (HandleSink.appending #[]) format args).written < 2 ^ 64) :
    let whole := formatTo features (HandleSink.appending #[]) format args
    let output := whole.sink.handle.toList
    let filled := formatInto features buffer format args
    let cut := formatWithin features buffer format args
    (output.length = whole.written ∧ filled.length = whole.written ∧ filled.args = whole.args) ∧
      (cut.length = filled.length ∧ cut.args = filled.args) ∧
      (whole.written < buffer.size →
        filled.buffer.toList = output ++ 0 :: buffer.toList.drop (whole.written + 1) ∧
          cut.buffer = filled.buffer) ∧
      (buffer.size ≤ whole.written →
        filled.buffer.toList = output.take buffer.size ∧
          cut.buffer = filled.buffer.setIfInBounds (buffer.size - 1) 0) := by
  intro whole output filled cut
  have written : whole.written =
      (Sink.content (Plan.ofFormat features format args).calls).length :=
    written_interpret features _ _ format args
  have delivered : output = Sink.content (Plan.ofFormat features format args).calls :=
    toList_handle_formatTo fits
  have length : output.length = whole.written := by rw [written, delivered]
  have reported : filled.length = whole.written :=
    (written_interpret features _ _ format args).trans written.symm
  have storedFilled : filled.buffer =
      ((Cursor.ofBuffer buffer).putAll output).terminate.2.buffer := by
    rw [delivered]
    exact buffer_formatInto fits
  have storedCut : cut.buffer =
      ((Cursor.ofBuffer buffer).putAll (output.take (buffer.size - 1))).terminate.2.buffer := by
    rw [delivered]
    exact buffer_formatWithin features buffer format args
  refine ⟨⟨length, reported, args_interpret features _ _ _ _ format args⟩,
    ⟨(written_interpret features _ _ format args).trans (written.symm.trans reported.symm),
      args_interpret features _ _ _ _ format args⟩, ?_, ?_⟩
  · intro room
    rw [← length] at room
    have uncut : output.take (buffer.size - 1) = output := List.take_of_length_le (by omega)
    rw [storedCut, storedFilled, uncut, toList_buffer_terminate room, length]
    exact ⟨rfl, rfl⟩
  · intro full
    rw [← length] at full
    have stored : filled.buffer.toList = output.take buffer.size := by
      rw [storedFilled, toList_buffer_terminate_full full]
    refine ⟨stored, ?_⟩
    rw [storedCut, storedFilled]
    exact buffer_terminate_cut full

/-- A value that straddles the end of the buffer: the four bytes of a padded text meet the last three
    of five. -/
theorem formatInto_agrees_formatWithin_straddling :
    let format := Bytes.ofString "ab%-4s%n.%d"
    let args := [.str (Bytes.ofString "xyz"), .count 9]
    let buffer : Array UInt8 := #[1, 2, 3, 4, 5]
    let whole := formatTo .full (HandleSink.appending #[]) format args
    let filled := formatInto .full buffer format args
    let cut := formatWithin .full buffer format args
    whole.written < 2 ^ 64 ∧ filled.length = 7 ∧ cut.length = 7 ∧
      filled.args = [.str (Bytes.ofString "xyz"), .count 6] ∧ cut.args = filled.args ∧
      filled.buffer.toList = Bytes.ofString "abxyz" ∧
      cut.buffer.toList = Bytes.ofString "abxy" ++ [0] := by
  intro format args buffer whole filled cut
  have fits : whole.written < 2 ^ 64 := by decide +kernel
  obtain ⟨⟨-, length, counts⟩, ⟨sameLength, sameCounts⟩, -, overflowing⟩ :=
    formatInto_agrees_formatWithin .full buffer format args fits
  obtain ⟨filledBytes, cutBytes⟩ := overflowing (by decide +kernel)
  have seven : filled.length = 7 := by
    rw [length]
    decide +kernel
  have bytes : filled.buffer.toList = Bytes.ofString "abxyz" := by
    rw [filledBytes]
    decide +kernel
  refine ⟨fits, seven, sameLength.trans seven, ?_, sameCounts, bytes, ?_⟩
  · rw [counts]
    decide +kernel
  · rw [cutBytes, Array.toList_setIfInBounds, bytes]
    decide +kernel

end FormattedOutput
