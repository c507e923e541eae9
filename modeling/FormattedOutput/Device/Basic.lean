import FormattedOutput.Sink.Basic

/-!
# Devices

A device transmits bytes. It can be asked whether everything it was given has left it; asking is a
step of the device, and a device that answers no comes closer to being empty by it, so that waiting
for it ends.
-/

namespace FormattedOutput

/-- A transmitter with states of type `δ`. -/
class Device (δ : Type) where
  /-- The state after one more byte. -/
  put : δ → UInt8 → δ
  /-- Whether the device has drained, and its state after the question. -/
  poll : δ → Bool × δ
  /-- A bound on the number of times the device still answers no. -/
  backlog : δ → Nat
  /-- Each answer of no lowers the bound. -/
  backlog_poll_lt : ∀ device, (poll device).1 = false → backlog (poll device).2 < backlog device

namespace Device

variable {δ : Type} [Device δ]

/-- Asks a device until it has drained. -/
def drain (device : δ) : δ :=
  if _h : (poll device).1 then (poll device).2 else drain (poll device).2
termination_by backlog device
decreasing_by exact backlog_poll_lt device (by simpa using _h)

end Device

/-- A device as a sink: a text is transmitted byte by byte. -/
structure Transmitter (δ : Type) where
  device : δ

instance {δ : Type} [Device δ] : Sink (Transmitter δ) where
  put transmitter byte := ⟨Device.put transmitter.device byte⟩

end FormattedOutput
