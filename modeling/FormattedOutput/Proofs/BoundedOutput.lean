import FormattedOutput.Proofs.CallSequence

/-!
# Bounded output

What any sequence of operations on a bounded output passes on to the sink is the beginning of what
the operations render without a ceiling, as long as there is room. The lengths that they answer are
those of the whole renderings, and what is cut costs no calls: fill bytes without room are not put
at all, however many they are.
-/

namespace FormattedOutput

namespace Sink

/-- Whether a call puts a single byte. -/
def Call.isPut : Call → Bool
  | put _ => true
  | putAll _ => false

@[simp] theorem Call.isPut_put (byte : UInt8) : (put byte).isPut = true := rfl

@[simp] theorem Call.isPut_putAll (bytes : Bytes) : (putAll bytes).isPut = false := rfl

/-- Every call that puts a single byte offers one. -/
theorem countP_isPut_le (calls : List Call) :
    calls.countP Call.isPut ≤ (content calls).length := by
  induction calls with
  | nil => exact Nat.le_refl 0
  | cons call rest ih =>
    rw [List.countP_cons, content_cons, List.length_append]
    cases call with
    | put byte =>
      simp only [Call.isPut_put, Call.bytes, if_true, List.length_singleton]
      omega
    | putAll bytes =>
      simp only [Call.isPut_putAll, Bool.false_eq_true, if_false]
      omega

/-- Clipping leaves at most one call for every byte that has room. -/
theorem countP_isPut_clip_le (room : Nat) (calls : List Call) :
    (clip room calls).countP Call.isPut ≤ room := by
  have offered := countP_isPut_le (clip room calls)
  rw [content_clip, List.length_take] at offered
  omega

/-- Clipping drops no text, for what is left of it may be empty but is put. -/
theorem countP_not_isPut_clip (room : Nat) (calls : List Call) :
    (clip room calls).countP (¬ ·.isPut) = calls.countP (¬ ·.isPut) := by
  fun_induction clip room calls with
  | case1 => rfl
  | case2 byte rest ih => simpa using ih
  | case3 room byte rest ih => simpa using ih
  | case4 room bytes rest ih => simpa using ih

end Sink

namespace Bounded

/-- One operation on a bounded output. -/
inductive Operation where
  | put (byte : UInt8)
  | putAll (bytes : Bytes)
  | fill (byte : UInt8) (count : Nat)
  | field (value : Bytes) (width : Int) (pad : Pad)
  deriving DecidableEq, Repr

namespace Operation

/-- The bytes that an operation stands for, cut or not. A field is as wide as its width asks, or as
    its value if that is longer. What is missing is filled in front of the value if the width is not
    negative, and otherwise behind it, and there with spaces whatever the pad is. -/
def rendering : Operation → Bytes
  | put byte => [byte]
  | putAll bytes => bytes
  | fill byte count => List.replicate count byte
  | field value width pad =>
    let missing := width.natAbs - value.length
    if 0 ≤ width then List.replicate missing pad.byte ++ value
    else value ++ List.replicate missing ' '.toUInt8

/-- The calls that an operation asks for. -/
def calls : Operation → List Sink.Call
  | put byte => [.put byte]
  | putAll bytes => [.putAll bytes]
  | fill byte count => List.replicate count (.put byte)
  | field value width pad => (Rendering.field value width pad).calls

theorem content_calls (operation : Operation) :
    Sink.content operation.calls = operation.rendering := by
  cases operation with
  | put byte => rfl
  | putAll bytes => simp [calls, rendering, Sink.Call.bytes]
  | fill byte count => simp [calls, rendering]
  | field value width pad =>
    simp only [calls, rendering, Rendering.calls]
    split <;> simp [Sink.Call.bytes]

theorem content_flatMap_calls (operations : List Operation) :
    Sink.content (operations.flatMap calls) = operations.flatMap rendering := by
  induction operations with
  | nil => rfl
  | cons operation rest ih =>
    rw [List.flatMap_cons, Sink.content_append, content_calls, ih, List.flatMap_cons]

/-- A field is at least as wide as it should be, and at least as long as its value. -/
theorem length_rendering_field (value : Bytes) (width : Int) (pad : Pad) :
    (field value width pad).rendering.length = max width.natAbs value.length := by
  simp only [rendering]
  split <;> simp only [List.length_append, List.length_replicate] <;> omega

/-- An operation asks for at most one text. -/
theorem countP_not_isPut_calls_le (operation : Operation) :
    operation.calls.countP (¬ ·.isPut) ≤ 1 := by
  cases operation with
  | put byte => exact Nat.zero_le 1
  | putAll bytes => exact Nat.le_refl 1
  | fill byte count => simp [calls, List.countP_replicate]
  | field value width pad =>
    simp only [calls, Rendering.calls]
    split <;> simp [List.countP_replicate]

theorem countP_not_isPut_flatMap_calls_le (operations : List Operation) :
    (operations.flatMap calls).countP (¬ ·.isPut) ≤ operations.length := by
  induction operations with
  | nil => exact Nat.le_refl 0
  | cons operation rest ih =>
    have first := countP_not_isPut_calls_le operation
    rw [List.flatMap_cons, List.countP_append, List.length_cons]
    omega

end Operation

variable {σ : Type} [Sink σ]

/-- Carries out one operation. -/
def operate (out : Bounded σ) : Operation → Nat × Bounded σ
  | .put byte => out.put byte
  | .putAll bytes => out.putAll bytes
  | .fill byte count => out.fill byte count
  | .field value width pad => out.field value width pad

/-- Carries out a sequence of operations; gives the lengths that they answer. -/
def operateAll (out : Bounded σ) : List Operation → List Nat × Bounded σ
  | [] => ([], out)
  | operation :: rest =>
    let (length, out) := out.operate operation
    let (lengths, out) := out.operateAll rest
    (length :: lengths, out)

theorem operate_delivers (out : Bounded σ) (operation : Operation) :
    out.Delivers operation.calls (out.operate operation) := by
  cases operation with
  | put byte => exact put_delivers out byte
  | putAll bytes => exact putAll_delivers out bytes
  | fill byte count => exact fill_delivers out byte count
  | field value width pad => exact field_delivers out value width pad

/-- A sequence of operations answers the length of each rendering and makes the calls of all of
    them, as far as there is room. -/
theorem operateAll_delivers (out : Bounded σ) (operations : List Operation) :
    (out.operateAll operations).1 = operations.map (·.rendering.length) ∧
      out.Delivers (operations.flatMap Operation.calls)
        ((operations.flatMap Operation.rendering).length, (out.operateAll operations).2) := by
  -- on the operations, with any ceiling: the first of them leaves less room to the others
  induction operations generalizing out with
  | nil => exact ⟨rfl, rfl, rfl, by simp [operateAll]⟩
  | cons operation rest ih =>
    have first := operate_delivers out operation
    obtain ⟨lengths, later⟩ := ih (out.operate operation).2
    have length : (out.operate operation).1 = operation.rendering.length := by
      rw [first.count, Operation.content_calls]
    refine ⟨?_, ?_⟩
    · rw [List.map_cons, ← length, ← lengths]
      rfl
    · have whole := first.append later
      rw [length, ← List.length_append] at whole
      exact whole

/-- Bounded output is the exact prefix of what is rendered without a ceiling. The calls on the sink
    are the same for every sink. They offer the first bytes of all renderings, as many as there was
    room for, and the ceiling has let through so many more. Every operation answers the length of
    its whole rendering, for a field the larger one of its width and the length of its value. No
    more single bytes are put than there was room for, and no more texts than there are
    operations. -/
theorem operateAll_eq_take (ceiling : Ceiling) (operations : List Operation) :
    let room := ceiling.cap - ceiling.deposited
    let whole := operations.flatMap Operation.rendering
    let calls := (Bounded.mk CallLog.empty ceiling |>.operateAll operations).2.sink.calls
    Sink.content calls = whole.take room ∧
      calls.countP Sink.Call.isPut ≤ room ∧ calls.length ≤ room + operations.length ∧
      (∀ value width pad,
        (Operation.field value width pad).rendering.length = max width.natAbs value.length) ∧
      ∀ (σ : Type) [Sink σ] (sink : σ),
        let result := (Bounded.mk sink ceiling).operateAll operations
        result.1 = operations.map (·.rendering.length) ∧
          result.2.sink = Sink.applyAll sink calls ∧
          result.2.ceiling.cap = ceiling.cap ∧
          result.2.ceiling.deposited = ceiling.deposited + min whole.length room := by
  intro room whole calls
  have clipped : calls = Sink.clip room (operations.flatMap Operation.calls) := by
    have delivered := (operateAll_delivers ⟨CallLog.empty, ceiling⟩ operations).2.sink
    exact (congrArg CallLog.calls delivered).trans (CallLog.calls_applyAll_empty _)
  have offered : Sink.content (operations.flatMap Operation.calls) = whole :=
    Operation.content_flatMap_calls operations
  have puts : calls.countP Sink.Call.isPut ≤ room := by
    rw [clipped]
    exact Sink.countP_isPut_clip_le room _
  refine ⟨?_, puts, ?_, Operation.length_rendering_field, ?_⟩
  · rw [clipped, Sink.content_clip, offered]
  · have texts := Operation.countP_not_isPut_flatMap_calls_le operations
    rw [← Sink.countP_not_isPut_clip room, ← clipped] at texts
    have parts := List.length_eq_countP_add_countP Sink.Call.isPut (l := calls)
    omega
  · intro σ _ sink result
    obtain ⟨lengths, delivered⟩ := operateAll_delivers ⟨sink, ceiling⟩ operations
    have claimed : result.2.ceiling = (ceiling.claimMany whole.length).2 := by
      rw [← offered]
      exact delivered.ceiling
    refine ⟨lengths, ?_, ?_, ?_⟩
    · rw [clipped]
      exact delivered.sink
    · rw [claimed]
      rfl
    · rw [claimed]
      rfl

/-- The smallest width of 32 bits where three bytes have room: the value and one space get through,
    and nothing behind them. -/
example :
    let operations := [.field (Bytes.ofString "42") Int32.minValue.toInt .zero, .put 33]
    let result := (Bounded.mk CallLog.empty (.reservingTerminator 4)).operateAll operations
    result.1 = [2147483648, 1] ∧
      result.2.sink.calls = [.putAll (Bytes.ofString "42"), .put 32] := by
  decide +kernel

end Bounded

end FormattedOutput
