import FormattedOutput.Sink.Basic

/-!
# Cursors

A cursor fills a buffer of fixed size from its start. It moves by one for each byte stored and never
past the end: bytes that do not fit are dropped. How many bytes are allowed in is decided above the
sink, by a ceiling.
-/

namespace FormattedOutput

/-- A buffer and how much of it was written. -/
structure Cursor where
  buffer : Array UInt8
  position : Nat
  position_le : position ≤ buffer.size
  deriving DecidableEq

namespace Cursor

/-- A cursor at the start of a buffer. -/
def ofBuffer (buffer : Array UInt8) : Cursor := ⟨buffer, 0, Nat.zero_le _⟩

/-- The size of the buffer. -/
def capacity (cursor : Cursor) : Nat := cursor.buffer.size

/-- The bytes stored so far, without a terminator. -/
def written (cursor : Cursor) : Bytes := cursor.buffer.toList.take cursor.position

/-- Stores a byte and moves on; drops it at the end of the buffer. -/
def put (cursor : Cursor) (byte : UInt8) : Cursor :=
  if h : cursor.position < cursor.buffer.size then
    ⟨cursor.buffer.set cursor.position byte, cursor.position + 1, by
      simpa using Nat.succ_le_of_lt h⟩
  else cursor

/-- Stores as much of a text as fits in one piece and moves behind it. -/
def putAll (cursor : Cursor) (bytes : Bytes) : Cursor :=
  let stored := bytes.take (cursor.buffer.size - cursor.position)
  let before := cursor.buffer.extract 0 cursor.position
  let after := cursor.buffer.extract (cursor.position + stored.length) cursor.buffer.size
  ⟨before ++ stored.toArray ++ after, cursor.position + stored.length, by
    have := cursor.position_le
    simp [before]
    omega⟩

instance : Sink Cursor where
  put := Cursor.put
  putAll := Cursor.putAll

/-- Stores a NUL at the position without moving: whether there was room, and the cursor. -/
def terminate (cursor : Cursor) : Bool × Cursor :=
  if h : cursor.position < cursor.buffer.size then
    (true, ⟨cursor.buffer.set cursor.position 0, cursor.position, by simpa using Nat.le_of_lt h⟩)
  else (false, cursor)

end Cursor

end FormattedOutput
