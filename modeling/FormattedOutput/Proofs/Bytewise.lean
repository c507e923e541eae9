import FormattedOutput.Proofs.Delivery
import FormattedOutput.Sink.Cursor
import FormattedOutput.Sink.Handle

/-!
# Bytewise sinks

A sink is bytewise if it takes a text as it would take its bytes one by one. Then only the bytes of
the calls made on it matter, and not how they were split into calls. Routines that write one byte
are bytewise by construction; a cursor stores a text in one piece, and is bytewise all the same.
-/

namespace FormattedOutput

/-- Taking a text is taking its bytes one by one. -/
class Sink.Bytewise (σ : Type) [Sink σ] : Prop where
  putAll_eq : ∀ (sink : σ) (bytes : Bytes), Sink.putAll sink bytes = bytes.foldl Sink.put sink

/-- A bytewise sink after a sequence of calls depends only on the bytes of the calls. -/
theorem Sink.applyAll_eq_foldl {σ : Type} [Sink σ] [Sink.Bytewise σ] (sink : σ)
    (calls : List Sink.Call) :
    Sink.applyAll sink calls = (Sink.content calls).foldl Sink.put sink := by
  induction calls generalizing sink with
  | nil => rfl
  | cons call rest ih =>
    have first : Sink.apply sink call = call.bytes.foldl Sink.put sink := by
      cases call with
      | put byte => rfl
      | putAll bytes => exact Sink.Bytewise.putAll_eq sink bytes
    rw [Sink.content_cons, List.foldl_append, ← first, ← ih]
    rfl

namespace HandleSink

instance {η : Type} : Sink.Bytewise (HandleSink η) where
  putAll_eq _ _ := rfl

/-- An appending sink holds what it was given, in order. -/
theorem foldl_put_appending (initial : Array UInt8) (bytes : Bytes) :
    bytes.foldl Sink.put (appending initial) = appending (initial ++ bytes.toArray) := by
  induction bytes generalizing initial with
  | nil => simp
  | cons byte rest ih =>
    have first : Sink.put (appending initial) byte = appending (initial.push byte) := rfl
    rw [List.foldl_cons, first, ih]
    congr 1
    apply Array.toList_inj.mp
    simp

end HandleSink

namespace Cursor

/-- The buffer after a text: what was stored before, the part of the text that fits, and what stood
    behind it. -/
theorem toList_buffer_putAll (cursor : Cursor) (bytes : Bytes) :
    (cursor.putAll bytes).buffer.toList =
      cursor.buffer.toList.take cursor.position ++
        bytes.take (cursor.buffer.size - cursor.position) ++
        cursor.buffer.toList.drop (cursor.position +
          min (cursor.buffer.size - cursor.position) bytes.length) := by
  simp only [putAll, Array.toList_append, Array.toList_extract, List.extract_eq_take_drop,
    List.length_take, Nat.sub_zero, List.drop_zero]
  congr 1
  apply List.take_of_length_le
  simp

theorem position_putAll (cursor : Cursor) (bytes : Bytes) :
    (cursor.putAll bytes).position =
      cursor.position + min (cursor.buffer.size - cursor.position) bytes.length := by
  simp [putAll]

theorem size_buffer_putAll (cursor : Cursor) (bytes : Bytes) :
    (cursor.putAll bytes).buffer.size = cursor.buffer.size := by
  have inside := cursor.position_le
  rw [← Array.length_toList, toList_buffer_putAll, ← Array.length_toList] at *
  simp only [List.length_append, List.length_take, List.length_drop]
  omega

theorem eq_of_toList_eq {cursor other : Cursor}
    (buffer : cursor.buffer.toList = other.buffer.toList)
    (position : cursor.position = other.position) : cursor = other := by
  cases cursor
  cases other
  simp_all [Array.toList_inj]

/-- The buffer after a byte for which there is room. -/
theorem toList_buffer_put {cursor : Cursor} (room : cursor.position < cursor.buffer.size)
    (byte : UInt8) :
    (cursor.put byte).buffer.toList = cursor.buffer.toList.take cursor.position ++
      byte :: cursor.buffer.toList.drop (cursor.position + 1) := by
  have inside : cursor.position < cursor.buffer.toList.length := by simpa using room
  simp only [put, room, dif_pos, Array.toList_set, List.set_eq_take_append_cons_drop, inside,
    if_true]

/-- What stands around a byte that is stored: the text so far with the byte behind it, and any part
    of what is behind the byte. -/
theorem buffer_put_parts {cursor : Cursor} (room : cursor.position < cursor.buffer.size)
    (byte : UInt8) :
    (cursor.put byte).buffer.toList.take (cursor.position + 1) =
        cursor.buffer.toList.take cursor.position ++ [byte] ∧
      ∀ count, (cursor.put byte).buffer.toList.drop (cursor.position + 1 + count) =
        cursor.buffer.toList.drop (cursor.position + 1 + count) := by
  have length : (cursor.buffer.toList.take cursor.position).length = cursor.position := by
    rw [List.length_take, Array.length_toList]
    omega
  rw [toList_buffer_put room]
  refine ⟨?_, ?_⟩
  · rw [List.take_append, length, List.take_take, Nat.min_eq_right (Nat.le_succ _),
      Nat.add_sub_cancel_left]
    rfl
  · intro count
    have behind : cursor.position + 1 + count - cursor.position = count + 1 := by omega
    rw [List.drop_append, length, behind, List.drop_succ_cons, List.drop_drop,
      List.drop_of_length_le (by omega), List.nil_append]

/-- Storing a text for which there is room is storing its first byte and then the others. -/
theorem putAll_cons_of_room {cursor : Cursor} (room : cursor.position < cursor.buffer.size)
    (byte : UInt8) (rest : Bytes) :
    cursor.putAll (byte :: rest) = (cursor.put byte).putAll rest := by
  have position : (cursor.put byte).position = cursor.position + 1 := by simp [put, room]
  have size : (cursor.put byte).buffer.size = cursor.buffer.size := by simp [put, room]
  obtain ⟨stored, kept⟩ := buffer_put_parts room byte
  obtain ⟨more, left⟩ : ∃ more, cursor.buffer.size - cursor.position = more + 1 :=
    ⟨cursor.buffer.size - cursor.position - 1, by omega⟩
  have leftBehind : cursor.buffer.size - (cursor.position + 1) = more := by omega
  have same : cursor.position + min (more + 1) (rest.length + 1) =
      cursor.position + 1 + min more rest.length := by
    omega
  apply eq_of_toList_eq
  · rw [toList_buffer_putAll, toList_buffer_putAll, position, size, left, leftBehind, stored, kept,
      List.length_cons, same, List.take_succ_cons, List.append_assoc _ [byte]]
    rfl
  · rw [position_putAll, position_putAll, position, size, List.length_cons]
    omega

/-- Storing a text is storing its first byte and then the others, with room or without. -/
theorem putAll_cons (cursor : Cursor) (byte : UInt8) (rest : Bytes) :
    cursor.putAll (byte :: rest) = (cursor.put byte).putAll rest := by
  by_cases room : cursor.position < cursor.buffer.size
  · exact putAll_cons_of_room room byte rest
  · have full : cursor.put byte = cursor := by simp [put, room]
    have left : cursor.buffer.size - cursor.position = 0 := by omega
    rw [full]
    apply eq_of_toList_eq
    · simp [toList_buffer_putAll, left]
    · simp [position_putAll, left]

instance : Sink.Bytewise Cursor where
  putAll_eq cursor bytes := by
    induction bytes generalizing cursor with
    | nil =>
      apply eq_of_toList_eq
      · simp [Sink.putAll, toList_buffer_putAll]
      · simp [Sink.putAll, position_putAll]
    | cons byte rest ih =>
      rw [List.foldl_cons, ← ih]
      exact putAll_cons cursor byte rest

end Cursor

end FormattedOutput
