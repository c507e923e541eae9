import FormattedOutput.Proofs.FirstStep
import FormattedOutput.Trace

/-!
# Early stops

An interpretation that stops early stops at a directive that is malformed or finds no fitting
argument. What stands in front of that directive is interpreted to its end, and its effect is all
that is left behind: the directive writes nothing, fills nothing and stores nothing.
-/

namespace FormattedOutput

variable {features : Features} {spec format front : Bytes} {pending args : List Arg} {stop : Stop}
  {length : Nat}

/-- A plan without steps that stops early begins with a directive that is refused. -/
theorem exists_refuses_of_ofFormat_eq {back : Bytes}
    (plan : Plan.ofFormat features back pending = ⟨[], some stop, length⟩) :
    ∃ spec, back = '%'.toUInt8 :: spec ∧ Refuses features spec pending stop length := by
  have begins := Plan.begins features back pending
  rw [plan] at begins
  cases begins with
  | refused refused => exact ⟨_, rfl, refused⟩

/-- A plan that stops early is that of the text in front of the directive that is refused. -/
theorem exists_of_stopped (stopped : (Plan.ofFormat features format args).stopped = some stop) :
    ∃ front spec, format = front ++ '%'.toUInt8 :: spec ∧ 0 ∉ front ∧
      Plan.ofFormat features front args =
        ⟨(Plan.ofFormat features format args).steps, none, 0⟩ ∧
      Refuses features spec
        (args.drop ((Plan.ofFormat features format args).steps.flatMap Step.taken).length) stop
        (Plan.ofFormat features format args).excess := by
  obtain ⟨front, back, split, nulFree, plan, rest⟩ :=
    Plan.exists_of_steps_eq (List.append_nil (Plan.ofFormat features format args).steps).symm
  rw [stopped] at rest
  obtain ⟨spec, begins, refused⟩ := exists_refuses_of_ofFormat_eq rest
  exact ⟨front, spec, begins ▸ split, nulFree, plan, refused⟩

section Interpretation

variable {σ : Type} [Sink σ] {sink : σ} {ceiling : Ceiling}

/-- A directive that is refused adds nothing to the effect of what stands in front of it. -/
theorem interpret_of_refuses (nulFree : 0 ∉ front)
    (complete : (interpret features sink ceiling front args).stopped = none)
    (refused : Refuses features spec
      (args.drop (interpret features sink ceiling front args).consumed) stop length) :
    interpret features sink ceiling (front ++ '%'.toUInt8 :: spec) args =
      { interpret features sink ceiling front args with
        stopped := some stop
        position := front.length + length } := by
  rw [stopped_interpret] at complete
  rw [consumed_interpret] at refused
  have plan : Plan.ofFormat features (front ++ '%'.toUInt8 :: spec) args =
      ⟨(Plan.ofFormat features front args).steps, some stop, length⟩ := by
    rw [Plan.ofFormat_append nulFree complete, refused.ofFormat_eq, Plan.prependAll,
      List.append_nil]
  rw [interpret_eq, interpret_eq]
  simp only [plan, Plan.calls, Plan.sum_length_of_not_stopped nulFree complete]

end Interpretation

/-- Early stops leave the effect of what stands in front of them. An interpretation that does not
    stop early is no event. One that does stops at a directive that is refused, and the text in front
    of the directive is interpreted to its end. Where a directive is refused behind such a text, the
    whole interpretation has the effect of that text on the sink, the ceiling, the count and the
    arguments, and there is one event, with that count and the position that the reason to stop asks
    for. -/
theorem interpret_stops_behind {σ : Type} [Sink σ] (features : Features) (sink : σ)
    (ceiling : Ceiling) (format : Bytes) (args : List Arg) :
    let outcome := interpret features sink ceiling format args
    (outcome.stopped = none → outcome.events = []) ∧
      (∀ stop, outcome.stopped = some stop →
        ∃ front spec length, format = front ++ '%'.toUInt8 :: spec ∧ 0 ∉ front ∧
          let done := interpret features sink ceiling front args
          done.stopped = none ∧ Refuses features spec (args.drop done.consumed) stop length) ∧
      ∀ front spec stop length, format = front ++ '%'.toUInt8 :: spec → 0 ∉ front →
        let done := interpret features sink ceiling front args
        done.stopped = none → Refuses features spec (args.drop done.consumed) stop length →
          outcome = { done with stopped := some stop, position := front.length + length } ∧
            outcome.events = [.stoppedEarly stop done.written (front.length + length)] := by
  intro outcome
  refine ⟨?_, ?_, ?_⟩
  · intro complete
    rw [Outcome.events, complete]
  · intro stop stopped
    have planned : (Plan.ofFormat features format args).stopped = some stop :=
      stopped_interpret.symm.trans stopped
    obtain ⟨front, spec, split, nulFree, plan, refused⟩ := exists_of_stopped planned
    refine ⟨front, spec, (Plan.ofFormat features format args).excess, split, nulFree, ?_, ?_⟩
    · rw [stopped_interpret, plan]
    · rwa [consumed_interpret, plan]
  · rintro front spec stop length rfl nulFree done complete refused
    have effect : outcome =
        { done with stopped := some stop, position := front.length + length } :=
      interpret_of_refuses nulFree complete refused
    exact ⟨effect, by rw [effect]; rfl⟩

/-- A field of which nothing is written, for its argument is a string, behind a count. -/
theorem interpret_stops_behind_mismatch :
    let front := Bytes.ofString "ab%n"
    let spec := Bytes.ofString "-5d!"
    let args := [.count 9, .str (Bytes.ofString "x")]
    let done := interpret .full CallLog.empty .unbounded front args
    let outcome :=
      interpret .full CallLog.empty .unbounded (front ++ '%'.toUInt8 :: spec) args
    (done.stopped = none ∧
        Refuses .full spec (args.drop done.consumed) (.mismatch .signed) 4) ∧
      outcome.args = [.count 2, .str (Bytes.ofString "x")] ∧
      outcome.sink.calls = [.put 97, .put 98] ∧
      outcome.events = [.stoppedEarly (.mismatch .signed) 2 8] := by
  intro front spec args done outcome
  have complete : done.stopped = none := by decide +kernel
  have refused : Refuses .full spec (args.drop done.consumed) (.mismatch .signed) 4 := by
    have found : Directive.read .full spec = .directive ⟨.space, -5, false, .signed⟩ 3 := by
      decide +kernel
    have next : args.drop done.consumed = [.str (Bytes.ofString "x")] := by decide +kernel
    exact .mismatch found (by decide) next rfl
  obtain ⟨-, -, behind⟩ :=
    interpret_stops_behind .full CallLog.empty .unbounded (front ++ '%'.toUInt8 :: spec) args
  obtain ⟨effect, events⟩ :=
    behind front spec (.mismatch .signed) 4 rfl (by decide +kernel) complete refused
  have whole : outcome =
      { done with stopped := some (.mismatch .signed), position := front.length + 4 } := effect
  refine ⟨⟨complete, refused⟩, ?_, ?_, ?_⟩
  · rw [whole]
    decide +kernel
  · rw [whole]
    decide +kernel
  · exact events.trans (by decide +kernel)

end FormattedOutput
