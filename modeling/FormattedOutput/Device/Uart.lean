import FormattedOutput.Device.Basic

/-!
# A serial transmitter

A transmitter with a busy counter. Each byte put adds a fixed amount to the counter, and each
question whether it has drained takes one off until the counter is zero.
-/

namespace FormattedOutput

/-- A serial transmitter. -/
structure Uart where
  /-- The bytes transmitted, in order. -/
  output : Array UInt8
  /-- How many questions will still be answered with no. -/
  busy : Nat
  /-- How many questions were asked. -/
  polls : Nat
  /-- What each byte adds to `busy`. -/
  perPut : Nat
  deriving DecidableEq, Repr

namespace Uart

/-- A transmitter that has not transmitted anything. -/
def new (busy perPut : Nat) : Uart := ⟨#[], busy, 0, perPut⟩

/-- Transmits a byte. -/
def put (uart : Uart) (byte : UInt8) : Uart :=
  { uart with output := uart.output.push byte, busy := uart.busy + uart.perPut }

/-- Whether the transmitter has drained; the question is counted and, if the answer is no, shortens
    the wait. -/
def poll (uart : Uart) : Bool × Uart :=
  (uart.busy = 0, { uart with busy := uart.busy - 1, polls := uart.polls + 1 })

instance : Device Uart where
  put := Uart.put
  poll := Uart.poll
  backlog := Uart.busy
  backlog_poll_lt uart h := by
    simp only [poll, decide_eq_false_iff_not] at h ⊢
    omega

end Uart

end FormattedOutput
