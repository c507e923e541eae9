import FormattedOutput.Sink.Basic

/-!
# Borrowed sinks

A routine that writes to a sink may be given the sink itself or only a reference to it. A reference
is a sink of its own: it hands on every call as it is, a text in one piece, and keeps nothing.
-/

namespace FormattedOutput

/-- A sink that is used through a reference to it. -/
structure BorrowedSink (σ : Type) where
  target : σ

namespace BorrowedSink

variable {σ : Type} [Sink σ]

instance : Sink (BorrowedSink σ) where
  put sink byte := ⟨Sink.put sink.target byte⟩
  putAll sink bytes := ⟨Sink.putAll sink.target bytes⟩

/-- Calls through a reference are calls on what it refers to. -/
theorem target_applyAll (sink : BorrowedSink σ) (calls : List Sink.Call) :
    (Sink.applyAll sink calls).target = Sink.applyAll sink.target calls := by
  induction calls generalizing sink with
  | nil => rfl
  | cons call rest ih =>
    have step : (Sink.apply sink call).target = Sink.apply sink.target call := by
      cases call <;> rfl
    simp only [Sink.applyAll, List.foldl_cons] at ih ⊢
    rw [ih, step]

end BorrowedSink

end FormattedOutput
