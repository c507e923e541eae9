import FormattedOutput.Sink.Basic

/-!
# Handles

An output routine that writes one byte to some handle is a sink: a text is written byte by byte.
-/

namespace FormattedOutput

/-- A handle and the routine that writes one byte to it. -/
structure HandleSink (η : Type) where
  handle : η
  write : η → UInt8 → η

namespace HandleSink

variable {η : Type}

instance : Sink (HandleSink η) where
  put sink byte := { sink with handle := sink.write sink.handle byte }

/-- A growing array of bytes, written at its end. -/
def appending (bytes : Array UInt8) : HandleSink (Array UInt8) := ⟨bytes, Array.push⟩

end HandleSink

end FormattedOutput
