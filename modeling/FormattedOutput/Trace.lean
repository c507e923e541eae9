import FormattedOutput.Interpretation

/-!
# Trace events

What happens apart from output: an interpretation that stops early, a bounded output that is cut,
and a device that has to drain. An event has a level, a message and named fields.

Events are those of a build with the feature `tracing`. A build without it reports none and is
otherwise the same: events are read off what an interpretation, an output and a device did, and
none of these reads an event back.
-/

namespace FormattedOutput

/-- One event, as it is reported with the feature `tracing`; without that, none is. -/
inductive Event where
  /-- An interpretation stopped early, with this length written and this much of the format read. -/
  | stoppedEarly (stop : Stop) (written position : Nat)
  /-- Of a bounded output of length `written` only `kept` bytes were let through. -/
  | outputTruncated (written kept : Nat)
  /-- A device had not drained when it was first asked. -/
  | waitingToDrain
  deriving DecidableEq, Repr

/-- The value of a field of an event. -/
inductive EventField where
  | text (value : String)
  | number (value : Nat)
  deriving DecidableEq, Repr

namespace Stop

/-- A stop in words; an unsupported byte is given in decimal. -/
def describe : Stop → String
  | unsupported byte => s!"Unsupported({byte.toNat})"
  | truncated => "Truncated"
  | missingArgument => "MissingArgument"
  | mismatch conversion => s!"Mismatch({conversion.name})"

end Stop

namespace Event

/-- How important an event is. -/
def level : Event → String
  | stoppedEarly .. => "DEBUG"
  | outputTruncated .. => "TRACE"
  | waitingToDrain => "TRACE"

/-- What an event says. -/
def message : Event → String
  | stoppedEarly .. => "format interpretation stopped early"
  | outputTruncated .. => "bounded output truncated"
  | waitingToDrain => "waiting for transmit buffer to drain"

/-- The fields of an event. -/
def fields : Event → List (String × EventField)
  | stoppedEarly stop written position =>
    [("stop", .text s!"Some({stop.describe})"), ("written", .number written),
      ("at", .number position)]
  | outputTruncated written kept => [("written", .number written), ("kept", .number kept)]
  | waitingToDrain => []

end Event

/-- The events of an interpretation: one if it stopped early. -/
def Outcome.events {σ : Type} (outcome : Outcome σ) : List Event :=
  match outcome.stopped with
  | none => []
  | some stop => [.stoppedEarly stop outcome.written outcome.position]

end FormattedOutput
