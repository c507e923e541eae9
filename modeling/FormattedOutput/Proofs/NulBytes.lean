import FormattedOutput.Buffer
import FormattedOutput.Proofs.Composition

/-!
# Bytes behind a NUL

A NUL ends a format and a string argument, wherever it stands in them. What is behind it is never
looked at: the plan of a format and its arguments is, but for what is kept in the strings, the plan
of the format and the strings cut at their first NUL. So inputs that agree up to there cannot be
told apart.
-/

namespace FormattedOutput

theorem Bytes.untilNul_untilNul (bytes : Bytes) : bytes.untilNul.untilNul = bytes.untilNul :=
  untilNul_eq_self (zero_notMem_untilNul bytes)

namespace Arg

/-- The argument, a string cut at its first NUL. -/
def untilNul : Arg → Arg
  | str bytes => str bytes.untilNul
  | arg => arg

/-- Count slots are no strings. -/
theorem slot?_untilNul (arg : Arg) : arg.untilNul.slot? = arg.slot? := by
  cases arg <;> rfl

theorem map_slot?_map_untilNul (args : List Arg) :
    (args.map untilNul).map slot? = args.map slot? := by
  simp only [List.map_map, Function.comp_def, slot?_untilNul]

end Arg

/-- A directive makes the same of a string and of the string cut at its first NUL. -/
theorem Directive.effect?_untilNul (directive : Directive) (arg : Arg) :
    directive.effect? arg.untilNul = directive.effect? arg := by
  cases arg with
  | str bytes =>
    cases conversion : directive.conversion <;>
      simp only [effect?, conversion, Arg.untilNul, Arg.integer?, Arg.slot?, Option.map_none,
        Bytes.untilNul_untilNul]
  | int value | uint value | long value | ulong value | char value | float value | count slot => rfl

namespace Step

/-- The step with the argument that it takes cut. -/
def untilNul : Step → Step
  | text byte length => text byte length
  | convert arg rendering length => convert arg.untilNul rendering length

theorem calls_untilNul (step : Step) : step.untilNul.calls = step.calls := by
  cases step <;> rfl

theorem length_untilNul (step : Step) : step.untilNul.length = step.length := by
  cases step <;> rfl

theorem stored_untilNul (written : Nat) (step : Step) :
    step.untilNul.stored written = (step.stored written).map Arg.untilNul := by
  cases step with
  | text byte length => rfl
  | convert arg rendering length => cases rendering <;> rfl

end Step

namespace Plan

/-- The plan with all arguments cut. -/
def untilNul (plan : Plan) : Plan := { plan with steps := plan.steps.map Step.untilNul }

theorem calls_untilNul (plan : Plan) : plan.untilNul.calls = plan.calls := by
  simp only [calls, untilNul, List.flatMap_map, Step.calls_untilNul]

theorem storedFrom_map_untilNul (written : Nat) (steps : List Step) :
    storedFrom written (steps.map Step.untilNul) =
      (storedFrom written steps).map Arg.untilNul := by
  induction steps generalizing written with
  | nil => rfl
  | cons step rest ih =>
    rw [List.map_cons, storedFrom, storedFrom, ih, Step.stored_untilNul, Step.calls_untilNul,
      List.map_append]

end Plan

/-- Binding cut arguments is binding the arguments and cutting them then. -/
theorem Segment.bind_map_untilNul (segment : Segment) (args : List Arg) :
    segment.bind (args.map Arg.untilNul) =
      (segment.bind args).map fun bound => (bound.1.untilNul, bound.2.map Arg.untilNul) := by
  cases segment with
  | literal byte => rfl
  | directive modifiers byte conversion =>
    simp only [bind]
    split
    next => rfl
    next =>
      cases args with
      | nil => rfl
      | cons arg rest =>
        simp only [List.map_cons, Directive.effect?_untilNul]
        cases (modifiers.directive conversion).effect? arg <;> rfl

theorem Layout.planFrom_map_untilNul (ending : Ending) (segments : List Segment)
    (args : List Arg) :
    planFrom ending segments (args.map Arg.untilNul) = (planFrom ending segments args).untilNul := by
  induction segments generalizing args with
  | nil => rfl
  | cons segment rest ih =>
    rw [planFrom, planFrom, Segment.bind_map_untilNul]
    cases segment.bind args with
    | error stop => rfl
    | ok bound =>
      simp only [Except.map, ih]
      rfl

/-- The plan of a cut format with cut arguments is the plan of both, with its arguments cut. -/
theorem Plan.ofFormat_untilNul (features : Features) (format : Bytes) (args : List Arg) :
    ofFormat features format.untilNul (args.map Arg.untilNul) =
      (ofFormat features format args).untilNul := by
  rw [ofFormat, Bytes.untilNul_untilNul, Layout.plan, Layout.planFrom_map_untilNul]
  rfl

/-- The outcome with the strings among the arguments cut, all else as it is. -/
def Outcome.untilNul {σ : Type} (outcome : Outcome σ) : Outcome σ :=
  { outcome with args := outcome.args.map Arg.untilNul }

/-- The same for formatting into a buffer. -/
def Formatted.untilNul (formatted : Formatted) : Formatted :=
  { formatted with args := formatted.args.map Arg.untilNul }

theorem interpret_untilNul {σ : Type} [Sink σ] (features : Features) (sink : σ)
    (ceiling : Ceiling) (format : Bytes) (args : List Arg) :
    interpret features sink ceiling format.untilNul (args.map Arg.untilNul) =
      (interpret features sink ceiling format args).untilNul := by
  have lengths (steps : List Step) :
      (steps.map Step.untilNul).map Step.length = steps.map Step.length := by
    simp only [List.map_map, Function.comp_def, Step.length_untilNul]
  have cut := Plan.ofFormat_untilNul features format args
  simp only [interpret_eq, cut, Plan.calls_untilNul]
  simp only [Plan.untilNul, Plan.storedFrom_map_untilNul, lengths, List.length_map,
    Outcome.untilNul, List.map_append, List.map_drop]

theorem formatInto_untilNul (features : Features) (buffer : Array UInt8) (format : Bytes)
    (args : List Arg) :
    formatInto features buffer format.untilNul (args.map Arg.untilNul) =
      (formatInto features buffer format args).untilNul := by
  simp only [formatInto, interpret_untilNul]
  rfl

theorem formatWithin_untilNul (features : Features) (buffer : Array UInt8) (format : Bytes)
    (args : List Arg) :
    formatWithin features buffer format.untilNul (args.map Arg.untilNul) =
      (formatWithin features buffer format args).untilNul := by
  simp only [formatWithin, interpret_untilNul]
  rfl

/-- Bytes behind a NUL never matter. If the format is cut at its first NUL and every string argument
    at its own, then an interpretation with any sink and any ceiling, or in a buffer of either kind,
    is what it was, but for the strings that were cut: it makes the same calls, reports the same
    length and the same events, stops for the same reason at the same position and leaves the same
    count slots. So two inputs that agree up to their first NULs cannot be told apart. -/
theorem interpret_unaware_behind_nul (features : Features) (format : Bytes) (args : List Arg) :
    (∀ (σ : Type) [Sink σ] (sink : σ) (ceiling : Ceiling),
      let whole := interpret features sink ceiling format args
      let cut := interpret features sink ceiling format.untilNul (args.map Arg.untilNul)
      cut = whole.untilNul ∧ cut.events = whole.events ∧
        cut.args.map Arg.slot? = whole.args.map Arg.slot?) ∧
      (∀ buffer,
        formatInto features buffer format.untilNul (args.map Arg.untilNul) =
            (formatInto features buffer format args).untilNul ∧
          formatWithin features buffer format.untilNul (args.map Arg.untilNul) =
            (formatWithin features buffer format args).untilNul) ∧
      ∀ (other : Bytes) (others : List Arg), other.untilNul = format.untilNul →
        others.map Arg.untilNul = args.map Arg.untilNul →
          (∀ (σ : Type) [Sink σ] (sink : σ) (ceiling : Ceiling),
            let first := interpret features sink ceiling format args
            let second := interpret features sink ceiling other others
            second.untilNul = first.untilNul ∧ second.events = first.events ∧
              second.args.map Arg.slot? = first.args.map Arg.slot?) ∧
          ∀ buffer,
            (formatInto features buffer other others).untilNul =
                (formatInto features buffer format args).untilNul ∧
              (formatWithin features buffer other others).untilNul =
                (formatWithin features buffer format args).untilNul := by
  refine ⟨?_, ?_, ?_⟩
  · intro σ _ sink ceiling whole cut
    have same : cut = whole.untilNul := interpret_untilNul features sink ceiling format args
    refine ⟨same, ?_, ?_⟩
    · rw [same]
      rfl
    · rw [same]
      exact Arg.map_slot?_map_untilNul whole.args
  · intro buffer
    exact ⟨formatInto_untilNul features buffer format args,
      formatWithin_untilNul features buffer format args⟩
  · intro other others sameFormat sameArgs
    refine ⟨?_, ?_⟩
    · intro σ _ sink ceiling first second
      have same : second.untilNul = first.untilNul := by
        rw [← interpret_untilNul, sameFormat, sameArgs, interpret_untilNul]
      refine ⟨same, ?_, ?_⟩
      · have events : second.untilNul.events = first.untilNul.events := congrArg _ same
        exact events
      · rw [← Arg.map_slot?_map_untilNul, ← Arg.map_slot?_map_untilNul first.args]
        exact congrArg (fun outcome => outcome.args.map Arg.slot?) same
    · intro buffer
      rw [← formatInto_untilNul, ← formatWithin_untilNul, sameFormat, sameArgs,
        formatInto_untilNul, formatWithin_untilNul]
      exact ⟨rfl, rfl⟩

/-- A NUL inside a directive, behind its flag, and one inside a string whose field is filled. -/
theorem interpret_unaware_behind_nul_flag :
    let format := Bytes.ofString "a%-4s%n%0\x00d"
    let other := Bytes.ofString "a%-4s%n%0\x00%s\x00"
    let args := [.str (Bytes.ofString "xy\x00z"), .count 9]
    let others := [.str (Bytes.ofString "xy\x00\x00abc"), .count 9]
    let first := interpret .full CallLog.empty .unbounded format args
    let second := interpret .full CallLog.empty .unbounded other others
    (other.untilNul = format.untilNul ∧ others.map Arg.untilNul = args.map Arg.untilNul) ∧
      first.untilNul.args = [.str (Bytes.ofString "xy"), .count 5] ∧
      second.sink.calls = first.sink.calls ∧
      second.events = [.stoppedEarly .truncated 5 8] := by
  intro format other args others first second
  have sameFormat : other.untilNul = format.untilNul := by decide +kernel
  have sameArgs : others.map Arg.untilNul = args.map Arg.untilNul := by decide +kernel
  obtain ⟨cuts, -, agree⟩ := interpret_unaware_behind_nul .full format args
  obtain ⟨cut, -, -⟩ := cuts CallLog CallLog.empty .unbounded
  obtain ⟨same, events, -⟩ := (agree other others sameFormat sameArgs).1 CallLog CallLog.empty
    .unbounded
  refine ⟨⟨sameFormat, sameArgs⟩, ?_, ?_, ?_⟩
  · rw [← cut]
    decide +kernel
  · exact congrArg (fun outcome => outcome.sink.calls) same
  · exact events.trans (by decide +kernel)

end FormattedOutput
