import FormattedOutput.Bytes

/-!
# Sinks

A sink takes output, one byte or a whole text at a time. What it does with a text is its own
choice; a sink that says nothing about texts takes their bytes one by one.
-/

namespace FormattedOutput

/-- A destination of output with states of type `σ`. -/
class Sink (σ : Type) where
  /-- The state after one more byte. -/
  put : σ → UInt8 → σ
  /-- The state after one more text. -/
  putAll : σ → Bytes → σ := fun sink bytes => bytes.foldl put sink

namespace Sink

variable {σ : Type} [Sink σ]

/-- The state after `count` copies of a byte, each put on its own. -/
def fill (sink : σ) (byte : UInt8) (count : Nat) : σ :=
  count.repeat (fun state => put state byte) sink

/-- One call on a sink. -/
inductive Call where
  | put (byte : UInt8)
  | putAll (bytes : Bytes)
  deriving DecidableEq, Repr

/-- The bytes that a call offers. -/
def Call.bytes : Call → Bytes
  | put byte => [byte]
  | putAll bytes => bytes

/-- The state after one call. -/
def apply (sink : σ) : Call → σ
  | .put byte => put sink byte
  | .putAll bytes => putAll sink bytes

/-- The state after a sequence of calls. -/
def applyAll (sink : σ) (calls : List Call) : σ := calls.foldl apply sink

end Sink

/-- A sink that writes down every call made on it, the latest first. -/
structure CallLog where
  reversed : List Sink.Call
  deriving DecidableEq, Repr

namespace CallLog

/-- No call was made yet. -/
def empty : CallLog := ⟨[]⟩

/-- The calls in the order in which they were made. -/
def calls (log : CallLog) : List Sink.Call := log.reversed.reverse

instance : Sink CallLog where
  put log byte := ⟨.put byte :: log.reversed⟩
  putAll log bytes := ⟨.putAll bytes :: log.reversed⟩

theorem applyAll_reversed (log : CallLog) (calls : List Sink.Call) :
    (Sink.applyAll log calls).reversed = calls.reverse ++ log.reversed := by
  induction calls generalizing log with
  | nil => rfl
  | cons call rest ih =>
    have step : (Sink.apply log call).reversed = call :: log.reversed := by cases call <;> rfl
    simp only [Sink.applyAll, List.foldl_cons, List.reverse_cons, List.append_assoc] at ih ⊢
    rw [ih, step]
    rfl

theorem calls_applyAll_empty (calls : List Sink.Call) :
    (Sink.applyAll empty calls).calls = calls := by
  simp [CallLog.calls, applyAll_reversed, empty]

end CallLog

end FormattedOutput
