import FormattedOutput.Sink.Cursor
import FormattedOutput.Trace

/-!
# Formatting into a buffer

A buffer of fixed size takes the output and a NUL terminator behind it. Either the buffer is meant
to be large enough, and then an output that is longer leaves no room for the terminator; or its last
byte is kept for the terminator and the output is cut to the rest. Both answer the length of the
whole output.
-/

namespace FormattedOutput

/-- What formatting into a buffer leaves behind. -/
structure Formatted where
  /-- The length of the output, cut or not. -/
  length : Nat
  /-- The whole buffer. -/
  buffer : Array UInt8
  /-- All arguments, with the final content of the count slots. -/
  args : List Arg
  /-- What happened on the way. -/
  events : List Event

/-- Formats into a buffer that should be large enough. Bytes past its end are dropped, and the
    terminator is stored only if room is left. -/
def formatInto (features : Features) (buffer : Array UInt8) (format : Bytes) (args : List Arg) :
    Formatted :=
  let outcome := interpret features (Cursor.ofBuffer buffer) .unbounded format args
  { length := outcome.written
    buffer := outcome.sink.terminate.2.buffer
    args := outcome.args
    events := outcome.events }

/-- The event of an output that was cut. -/
def truncationEvents (written kept : Nat) : List Event :=
  if kept < written then [.outputTruncated written kept] else []

/-- Formats into a buffer, its last byte kept for the terminator. A length not below the size of the
    buffer means that the output was cut. -/
def formatWithin (features : Features) (buffer : Array UInt8) (format : Bytes)
    (args : List Arg) : Formatted :=
  let outcome :=
    interpret features (Cursor.ofBuffer buffer) (.reservingTerminator buffer.size) format args
  { length := outcome.written
    buffer := outcome.sink.terminate.2.buffer
    args := outcome.args
    events := outcome.events ++ truncationEvents outcome.written outcome.deposited }

end FormattedOutput
