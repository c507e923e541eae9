import FormattedOutput.Proofs.CountSlots

/-!
# Formatting a concatenation

Formatting two formats written one behind the other is formatting the first and then the second with
the arguments that the first one left. Only the counts that the second one stores are shifted, by
the length that the first one wrote.
-/

namespace FormattedOutput

variable {features : Features} {first : Bytes} {args : List Arg}

section Interpretation

variable {σ τ : Type} [Sink σ] [Sink τ] {sink : σ} {other : τ} {ceiling limit : Ceiling}

theorem ofFormat_append_of_complete (nulFree : 0 ∉ first) (second : Bytes)
    (complete : (interpret features other limit first args).stopped = none) :
    Plan.ofFormat features (first ++ second) args =
      (Plan.ofFormat features second
        (args.drop (interpret features other limit first args).consumed)).prependAll
          (Plan.ofFormat features first args).steps := by
  rw [stopped_interpret] at complete
  rw [Plan.ofFormat_append nulFree complete, consumed_interpret]

/-- Lengths and numbers of arguments add up, whatever the sinks and ceilings. -/
theorem interpret_append (nulFree : 0 ∉ first) (second : Bytes)
    (complete : (interpret features other limit first args).stopped = none) :
    let front := interpret features other limit first args
    let back := interpret features other limit second (args.drop front.consumed)
    let whole := interpret features sink ceiling (first ++ second) args
    whole.written = front.written + back.written ∧ whole.stopped = back.stopped ∧
      whole.consumed = front.consumed + back.consumed := by
  intro front back whole
  have plan := ofFormat_append_of_complete nulFree second complete
  refine ⟨?_, ?_, ?_⟩
  · simp only [whole, front, back, written_interpret, plan, Plan.calls_prependAll,
      Sink.content_append, List.length_append]
    rfl
  · simp only [whole, front, back, stopped_interpret, plan, Plan.prependAll]
  · simp only [whole, front, back, consumed_interpret, plan, Plan.prependAll, List.flatMap_append,
      List.length_append]

/-- The arguments are those that the first format takes, and behind them those of the second, with
    counts that go on from the length of the first. -/
theorem args_interpret_append (nulFree : 0 ∉ first) (second : Bytes)
    (complete : (interpret features other limit first args).stopped = none) :
    let front := interpret features other limit first args
    let left := args.drop front.consumed
    ∃ taken : List Arg, taken.length = front.consumed ∧ front.args = taken ++ left ∧
      (interpret features sink ceiling (first ++ second) args).args =
        taken ++ Plan.argsFrom front.written (Plan.ofFormat features second left).steps left := by
  intro front left
  have counted : front.written =
      (Sink.content ((Plan.ofFormat features first args).steps.flatMap Step.calls)).length :=
    written_interpret ..
  have consumed : front.consumed =
      ((Plan.ofFormat features first args).steps.flatMap Step.taken).length := consumed_interpret
  refine ⟨Plan.storedFrom 0 (Plan.ofFormat features first args).steps, ?_, ?_, ?_⟩
  · rw [Plan.length_storedFrom, consumed]
  · have found : front.args = _ := args_interpret_eq
    rw [found, Plan.argsFrom, ← consumed]
  · rw [args_interpret_eq, ofFormat_append_of_complete nulFree second complete, Plan.prependAll,
      Plan.argsFrom_append, Nat.zero_add, ← counted, ← consumed]

end Interpretation

theorem calls_formatTo_log {format : Bytes}
    (fits : (formatTo features CallLog.empty format args).written < 2 ^ 64) :
    (formatTo features CallLog.empty format args).sink.calls =
      (Plan.ofFormat features format args).calls := by
  rw [sink_formatTo _ args fits, CallLog.calls_applyAll_empty]

/-- Formatting is compositional. A format without NUL that is interpreted to its end is followed by
    any other: the calls are those of the first and then those of the second with the arguments that
    are left, the lengths add up, the reason to stop is that of the second, and the counts that the
    second one stores go on from the length of the first. -/
theorem formatTo_append (nulFree : 0 ∉ first) (second : Bytes)
    (complete : (formatTo features CallLog.empty first args).stopped = none) {σ : Type} [Sink σ]
    (sink : σ) (fits : (formatTo features sink (first ++ second) args).written < 2 ^ 64) :
    let front := formatTo features CallLog.empty first args
    let left := args.drop front.consumed
    let back := formatTo features CallLog.empty second left
    let whole := formatTo features sink (first ++ second) args
    whole.sink = Sink.applyAll sink (front.sink.calls ++ back.sink.calls) ∧
      whole.written = front.written + back.written ∧
      whole.stopped = back.stopped ∧
      whole.consumed = front.consumed + back.consumed ∧
      whole.args.take front.consumed = front.args.take front.consumed ∧
      (∀ index written, StoresCount features second left index written →
        whole.args[front.consumed + index]? =
          some (.count (Int32.ofNat (min (front.written + written) maxCount)))) ∧
      ∀ index, (∀ written, ¬ StoresCount features second left index written) →
        whole.args[front.consumed + index]? = args[front.consumed + index]? := by
  intro front left back whole
  obtain ⟨written, stopped, consumed⟩ : whole.written = front.written + back.written ∧
      whole.stopped = back.stopped ∧ whole.consumed = front.consumed + back.consumed :=
    interpret_append nulFree second complete
  obtain ⟨taken, size, frontArgs, wholeArgs⟩ : ∃ taken : List Arg, taken.length = front.consumed ∧
      front.args = taken ++ left ∧ whole.args = taken ++
        Plan.argsFrom front.written (Plan.ofFormat features second left).steps left :=
    args_interpret_append nulFree second complete
  have behind : ∀ index, whole.args[front.consumed + index]? =
      (Plan.argsFrom front.written (Plan.ofFormat features second left).steps left)[index]? := by
    intro index
    rw [wholeArgs, List.getElem?_append_right (by omega), size, Nat.add_sub_cancel_left]
  refine ⟨?_, written, stopped, consumed, ?_, ?_, ?_⟩
  · have fitsWhole : whole.written < 2 ^ 64 := fits
    have fitsFront : front.written < 2 ^ 64 := by omega
    have fitsBack : back.written < 2 ^ 64 := by omega
    have calls : whole.sink = _ := sink_formatTo sink args fits
    rw [calls, ofFormat_append_of_complete nulFree second complete, Plan.calls_prependAll,
      calls_formatTo_log fitsFront, calls_formatTo_log fitsBack]
    rfl
  · rw [wholeArgs, frontArgs, ← size, List.take_left, List.take_left]
  · intro index length stores
    rw [behind, stores.getElem?_argsFrom]
  · intro index untouched
    rw [behind, getElem?_argsFrom_of_not_storesCount untouched, List.getElem?_drop]

/-- The first format ends in a percent sign and the second one begins with what could be a flag and a
    conversion; then it stores a count. -/
theorem formatTo_append_percent :
    let first := Bytes.ofString "a%5d%%"
    let second := Bytes.ofString "0d%n%s"
    let args := [.int 7, .count (-1), .str (Bytes.ofString "xy")]
    let front := formatTo .full CallLog.empty first args
    let whole := formatTo .full CallLog.empty (first ++ second) args
    (0 ∉ first ∧ front.stopped = none ∧ whole.written < 2 ^ 64 ∧
        StoresCount .full second (args.drop front.consumed) 0 2) ∧
      whole.written = 7 + 4 ∧ whole.stopped = none ∧ whole.args[1]? = some (.count 9) := by
  intro first second args front whole
  have nulFree : 0 ∉ first := by decide +kernel
  have complete : front.stopped = none := by decide +kernel
  have fits : whole.written < 2 ^ 64 := by decide +kernel
  have stores : StoresCount .full second (args.drop front.consumed) 0 2 :=
    ⟨Bytes.ofString "0d", Bytes.ofString "n%s", ⟨.space, 0, false, .count⟩, 1, -1,
      by decide +kernel⟩
  obtain ⟨-, written, stopped, -, -, slots, -⟩ :=
    formatTo_append nulFree second complete CallLog.empty fits
  have slot : whole.args[front.consumed + 0]? = some (.count (Int32.ofNat
      (min (front.written + 2) maxCount))) := slots 0 2 stores
  have consumed : front.consumed = 1 := by decide +kernel
  have seven : front.written = 7 := by decide +kernel
  refine ⟨⟨nulFree, complete, fits, stores⟩, ?_, ?_, ?_⟩
  · have total : whole.written = _ := written
    have four : (formatTo .full CallLog.empty second (args.drop front.consumed)).written = 4 := by
      decide +kernel
    rw [total, four, ← seven]
  · exact stopped.trans (by decide +kernel)
  · rw [consumed, seven] at slot
    exact slot

end FormattedOutput
