import FormattedOutput.Device.Basic
import FormattedOutput.Trace

/-!
# Consoles

A console streams formatted output to the device selected at the moment, and waits after each output
until the device has drained.
-/

namespace FormattedOutput

/-- A console and the device it streams to. -/
structure Console (δ : Type) where
  device : δ

/-- What printing on a console leaves behind. -/
structure Printed (δ : Type) where
  console : Console δ
  /-- The length of the output. -/
  length : Nat
  /-- All arguments, with the final content of the count slots. -/
  args : List Arg
  /-- What happened on the way. -/
  events : List Event

namespace Console

variable {δ : Type}

/-- Routes all further output to another device: the previous one, and the console. -/
def select (console : Console δ) (device : δ) : δ × Console δ := (console.device, ⟨device⟩)

variable [Device δ]

/-- Waits until the device has drained. A device that has not when it is first asked is an event. -/
def flush (console : Console δ) : Console δ × List Event :=
  match Device.poll console.device with
  | (true, polled) => (⟨polled⟩, [])
  | (false, polled) => (⟨Device.drain polled⟩, [.waitingToDrain])

/-- Formats straight to the device, then waits until it has drained. -/
def print (features : Features) (console : Console δ) (format : Bytes) (args : List Arg) :
    Printed δ :=
  let outcome := formatTo features (Transmitter.mk console.device) format args
  let (drained, waiting) := flush ⟨outcome.sink.device⟩
  { console := drained
    length := outcome.written
    args := outcome.args
    events := outcome.events ++ waiting }

end Console

end FormattedOutput
