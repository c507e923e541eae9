import FormattedOutput.Proofs.CallSequence

/-!
# Formats one behind the other

The plan of a format that is interpreted to its end goes on with the plan of whatever format follows
it, with the arguments that are left. In the other direction a plan can be cut behind any of its
steps, and then the text that was read by then is a format of its own.
-/

namespace FormattedOutput

namespace Plan

/-- A plan with further steps in front. -/
def prependAll (steps : List Step) (plan : Plan) : Plan := { plan with steps := steps ++ plan.steps }

@[simp] theorem prepend_prependAll (step : Step) (steps : List Step) (plan : Plan) :
    (plan.prependAll steps).prepend step = plan.prependAll (step :: steps) := rfl

@[simp] theorem calls_prependAll (steps : List Step) (plan : Plan) :
    (plan.prependAll steps).calls = steps.flatMap Step.calls ++ plan.calls := by
  simp only [calls, prependAll, List.flatMap_append]

theorem length_storedFrom (written : Nat) (steps : List Step) :
    (storedFrom written steps).length = (steps.flatMap Step.taken).length := by
  induction steps generalizing written with
  | nil => rfl
  | cons step rest ih =>
    rw [storedFrom, List.length_append, ih, Step.length_stored, List.flatMap_cons,
      List.length_append]

theorem storedFrom_append (written : Nat) (front back : List Step) :
    storedFrom written (front ++ back) = storedFrom written front ++
      storedFrom (written + (Sink.content (front.flatMap Step.calls)).length) back := by
  induction front generalizing written with
  | nil => rfl
  | cons step rest ih =>
    rw [List.cons_append, storedFrom, ih, storedFrom, List.append_assoc, List.flatMap_cons,
      Sink.content_append, List.length_append, Nat.add_assoc]

/-- All arguments behind some steps in front of which so much was written: those that the steps take,
    with what is stored in them, and those that are left. -/
def argsFrom (written : Nat) (steps : List Step) (args : List Arg) : List Arg :=
  storedFrom written steps ++ args.drop (steps.flatMap Step.taken).length

theorem argsFrom_append (written : Nat) (front back : List Step) (args : List Arg) :
    argsFrom written (front ++ back) args = storedFrom written front ++
      argsFrom (written + (Sink.content (front.flatMap Step.calls)).length) back
        (args.drop (front.flatMap Step.taken).length) := by
  rw [argsFrom, storedFrom_append, argsFrom, List.append_assoc, List.flatMap_append,
    List.length_append, List.drop_drop]

end Plan

namespace Segment

theorem WellFormed.zero_notMem_text {features : Features} {segment : Segment}
    (h : segment.WellFormed features) :
    0 ∉ segment.text := by
  cases segment with
  | literal byte => simpa [text] using Ne.symm h.1
  | directive modifiers byte conversion =>
    obtain ⟨greedy, supported⟩ := h
    have nonzero : 0 ≠ byte := by
      rintro rfl
      cases (Conversion.ofByte?_zero features).symm.trans supported
    have percent : (0 : UInt8) ≠ '%'.toUInt8 := by decide
    simpa [text, nonzero, percent] using greedy.zero_notMem

end Segment

namespace Layout

variable {ending : Ending} {segments front : List Segment} {args : List Arg} {steps : List Step}

theorem exists_of_planFrom_cons {segment : Segment}
    (complete : planFrom .complete (segment :: segments) args = ⟨steps, none, 0⟩) :
    ∃ step left later, segment.bind args = .ok (step, left) ∧ steps = step :: later ∧
      planFrom .complete segments left = ⟨later, none, 0⟩ := by
  rw [planFrom] at complete
  cases bound : segment.bind args with
  | error stop => simp [bound] at complete
  | ok result =>
    obtain ⟨step, left⟩ := result
    simp only [bound] at complete
    generalize behind : planFrom .complete segments left = plan at complete
    obtain ⟨later, stopped, excess⟩ := plan
    cases complete
    exact ⟨step, left, later, rfl, rfl, behind⟩

/-- Segments that were all bound are followed by the plan of what is behind them. -/
theorem planFrom_append (complete : planFrom .complete front args = ⟨steps, none, 0⟩)
    (ending : Ending) (back : List Segment) :
    planFrom ending (front ++ back) args =
      (planFrom ending back (args.drop (steps.flatMap Step.taken).length)).prependAll steps := by
  induction front generalizing args steps with
  | nil =>
    cases complete
    rfl
  | cons segment rest ih =>
    obtain ⟨step, left, later, bound, rfl, behind⟩ := exists_of_planFrom_cons complete
    have dropped : args.drop ((step :: later).flatMap Step.taken).length =
        left.drop (later.flatMap Step.taken).length := by
      rw [(Segment.step_of_bind bound).1, List.flatMap_cons, List.length_append, ← List.drop_drop,
        List.drop_left]
    rw [List.cons_append, planFrom, dropped]
    simp only [bound, ih behind, Plan.prepend_prependAll]

theorem sum_length_planFrom (complete : planFrom .complete front args = ⟨steps, none, 0⟩) :
    (steps.map Step.length).sum = (front.flatMap Segment.text).length := by
  induction front generalizing args steps with
  | nil =>
    cases complete
    rfl
  | cons segment rest ih =>
    obtain ⟨step, left, later, bound, rfl, behind⟩ := exists_of_planFrom_cons complete
    rw [List.map_cons, List.sum_cons, ih behind, (Segment.step_of_bind bound).2, List.flatMap_cons,
      List.length_append]

/-- A plan that does not stop early has bound every segment of a format without a bad ending. -/
theorem planFrom_of_not_stopped (complete : (planFrom ending segments args).stopped = none) :
    ending = .complete ∧
      planFrom .complete segments args = ⟨(planFrom ending segments args).steps, none, 0⟩ := by
  induction segments generalizing args with
  | nil =>
    cases ending with
    | complete => exact ⟨rfl, rfl⟩
    | truncated modifiers | unsupported modifiers byte rest => cases complete
  | cons segment rest ih =>
    rw [planFrom] at complete ⊢
    rw [planFrom]
    cases bound : segment.bind args with
    | error stop => simp [bound] at complete
    | ok result =>
      simp only [bound] at complete ⊢
      obtain ⟨whole, plan⟩ := ih complete
      exact ⟨whole, by rw [plan]; rfl⟩

/-- A plan is cut behind some of its steps between two segments. -/
theorem exists_of_steps_planFrom {before after : List Step}
    (cut : (planFrom ending segments args).steps = before ++ after) :
    ∃ front back, segments = front ++ back ∧
      planFrom .complete front args = ⟨before, none, 0⟩ := by
  -- the cut is counted in steps, so these are what the induction is on
  induction before generalizing segments args with
  | nil => exact ⟨[], segments, rfl, rfl⟩
  | cons step before ih =>
    cases segments with
    | nil => cases cut
    | cons segment rest =>
      rw [planFrom] at cut
      cases bound : segment.bind args with
      | error stop => simp [bound] at cut
      | ok result =>
        obtain ⟨first, left⟩ := result
        simp only [bound, Plan.prepend, List.cons_append, List.cons.injEq] at cut
        obtain ⟨rfl, cut⟩ := cut
        obtain ⟨front, back, rfl, plan⟩ := ih cut
        exact ⟨segment :: front, back, rfl, by simp [planFrom, bound, plan, Plan.prepend]⟩

theorem exists_args_eq_planFrom (ending : Ending) (segments : List Segment) (args : List Arg) :
    ∃ left, args = (planFrom ending segments args).steps.flatMap Step.taken ++ left := by
  induction segments generalizing args with
  | nil => exact ⟨args, rfl⟩
  | cons segment rest ih =>
    rw [planFrom]
    cases bound : segment.bind args with
    | error stop => exact ⟨args, rfl⟩
    | ok result =>
      obtain ⟨step, left⟩ := result
      obtain ⟨last, later⟩ := ih left
      refine ⟨last, ?_⟩
      simp only [Plan.prepend, List.flatMap_cons, List.append_assoc, ← later]
      exact (Segment.step_of_bind bound).1

end Layout

theorem Bytes.untilNul_append {front : Bytes} (nulFree : 0 ∉ front) (back : Bytes) :
    (front ++ back).untilNul = front ++ back.untilNul := by
  refine List.takeWhile_append_of_pos ?_
  intro byte member
  simpa using fun nul : byte = 0 => nulFree (nul ▸ member)

/-- What stands behind a NUL is not part of the text. -/
theorem Bytes.untilNul_append_of_mem {front : Bytes} (nul : 0 ∈ front) (back : Bytes) :
    (front ++ back).untilNul = front.untilNul := by
  induction front with
  | nil => cases nul
  | cons byte rest ih =>
    by_cases ended : byte = 0
    · simp [untilNul, ended]
    · have later : 0 ∈ rest := by simpa [Ne.symm ended] using nul
      simpa [untilNul, ended] using ih later

namespace Plan

variable {features : Features} {front format : Bytes} {args : List Arg} {steps : List Step}

theorem ofFormat_nil (features : Features) (args : List Arg) :
    ofFormat features [] args = ⟨[], none, 0⟩ := by
  rw [ofFormat, Bytes.untilNul, List.takeWhile_nil, Layout.ofText]
  rfl

theorem ofFormat_zero (features : Features) (rest : Bytes) (args : List Arg) :
    ofFormat features (0 :: rest) args = ⟨[], none, 0⟩ := ofFormat_nil features args

section Segments

variable {segments : List Segment}

/-- Segments that were all bound are followed by the plan of any format behind them. -/
theorem ofFormat_flatMap (wellFormed : ∀ segment ∈ segments, segment.WellFormed features)
    (plan : Layout.planFrom .complete segments args = ⟨steps, none, 0⟩) (back : Bytes) :
    ofFormat features (segments.flatMap Segment.text ++ back) args =
      (ofFormat features back (args.drop (steps.flatMap Step.taken).length)).prependAll steps := by
  have nulFree : 0 ∉ segments.flatMap Segment.text := by
    rw [List.mem_flatMap]
    rintro ⟨segment, member, nul⟩
    exact (wellFormed segment member).zero_notMem_text nul
  rw [ofFormat, Bytes.untilNul_append nulFree, Layout.ofText_flatMap wellFormed, Layout.plan,
    Layout.segments_prepend, Layout.ending_prepend, Layout.planFrom_append plan]
  rfl

theorem ofFormat_flatMap_self (wellFormed : ∀ segment ∈ segments, segment.WellFormed features)
    (plan : Layout.planFrom .complete segments args = ⟨steps, none, 0⟩) :
    ofFormat features (segments.flatMap Segment.text) args = ⟨steps, none, 0⟩ := by
  have whole := ofFormat_flatMap wellFormed plan []
  rw [List.append_nil, ofFormat_nil] at whole
  simpa [prependAll] using whole

end Segments

/-- A format that is interpreted to its end consists of segments that were all bound. -/
theorem exists_segments_of_not_stopped (nulFree : 0 ∉ front)
    (complete : (ofFormat features front args).stopped = none) :
    ∃ segments, (∀ segment ∈ segments, segment.WellFormed features) ∧
      segments.flatMap Segment.text = front ∧
      Layout.planFrom .complete segments args =
        ⟨(ofFormat features front args).steps, none, 0⟩ := by
  have wellFormed := (Layout.wellFormed_ofText features front nulFree).1
  have spelled := Layout.text_ofText features front
  rw [ofFormat, Bytes.untilNul_eq_self nulFree] at complete ⊢
  obtain ⟨whole, plan⟩ := Layout.planFrom_of_not_stopped complete
  rw [Layout.text, whole, Ending.text, List.append_nil] at spelled
  exact ⟨_, wellFormed, spelled, plan⟩

/-- A format that is interpreted to its end is followed by the plan of any other. -/
theorem ofFormat_append (nulFree : 0 ∉ front)
    (complete : (ofFormat features front args).stopped = none) (back : Bytes) :
    ofFormat features (front ++ back) args =
      (ofFormat features back
        (args.drop ((ofFormat features front args).steps.flatMap Step.taken).length)).prependAll
          (ofFormat features front args).steps := by
  obtain ⟨segments, wellFormed, spelled, plan⟩ := exists_segments_of_not_stopped nulFree complete
  rw [← ofFormat_flatMap wellFormed plan, spelled]

theorem sum_length_of_not_stopped (nulFree : 0 ∉ front)
    (complete : (ofFormat features front args).stopped = none) :
    ((ofFormat features front args).steps.map Step.length).sum = front.length := by
  obtain ⟨segments, -, spelled, plan⟩ := exists_segments_of_not_stopped nulFree complete
  rw [Layout.sum_length_planFrom plan, spelled]

/-- A plan is cut behind some of its steps where the text that was read by then ends. -/
theorem exists_of_steps_eq {before after : List Step}
    (cut : (ofFormat features format args).steps = before ++ after) :
    ∃ front back, format = front ++ back ∧ 0 ∉ front ∧
      ofFormat features front args = ⟨before, none, 0⟩ ∧
      ofFormat features back (args.drop (before.flatMap Step.taken).length) =
        ⟨after, (ofFormat features format args).stopped, (ofFormat features format args).excess⟩ := by
  obtain ⟨tail, whole, -⟩ := format.exists_eq_untilNul_append
  have nulFree := Bytes.zero_notMem_untilNul format
  have spelled := Layout.text_ofText features format.untilNul
  have wellFormed := (Layout.wellFormed_ofText features format.untilNul nulFree).1
  obtain ⟨front, back, segments, plan⟩ := Layout.exists_of_steps_planFrom cut
  have text : format.untilNul = front.flatMap Segment.text ++
      (back.flatMap Segment.text ++ (Layout.ofText features format.untilNul).ending.text) := by
    rw [← List.append_assoc, ← List.flatMap_append, ← segments]
    exact spelled.symm
  have split : format = front.flatMap Segment.text ++ (back.flatMap Segment.text ++
      (Layout.ofText features format.untilNul).ending.text ++ tail) := by
    rw [← List.append_assoc, ← text]
    exact whole
  generalize back.flatMap Segment.text ++
    (Layout.ofText features format.untilNul).ending.text ++ tail = rest at split
  have wellFormedFront : ∀ segment ∈ front, segment.WellFormed features := fun segment member =>
    wellFormed segment (segments ▸ List.mem_append_left _ member)
  have followed := ofFormat_flatMap wellFormedFront plan rest
  rw [← split] at followed
  refine ⟨front.flatMap Segment.text, rest, split, ?_, ofFormat_flatMap_self wellFormedFront plan,
    ?_⟩
  · exact fun member => nulFree (text ▸ List.mem_append_left _ member)
  · rw [followed, prependAll, List.append_cancel_left_eq] at cut
    rw [followed, ← cut]
    rfl

/-- The steps of a plan take arguments from the front, in their order. -/
theorem taken_append_drop (features : Features) (format : Bytes) (args : List Arg) :
    (ofFormat features format args).steps.flatMap Step.taken ++
      args.drop ((ofFormat features format args).steps.flatMap Step.taken).length = args := by
  obtain ⟨left, whole⟩ := Layout.exists_args_eq_planFrom
    (Layout.ofText features format.untilNul).ending _ args
  have dropped : args.drop ((ofFormat features format args).steps.flatMap Step.taken).length =
      left := (congrArg (List.drop _) whole).trans List.drop_left
  rw [dropped]
  exact whole.symm

end Plan

section Interpretation

variable {σ : Type} [Sink σ] {features : Features} {sink : σ} {ceiling : Ceiling} {format : Bytes}
  {args : List Arg}

theorem stopped_interpret : (interpret features sink ceiling format args).stopped =
    (Plan.ofFormat features format args).stopped := by
  rw [interpret_eq]

theorem consumed_interpret : (interpret features sink ceiling format args).consumed =
    ((Plan.ofFormat features format args).steps.flatMap Step.taken).length := by
  rw [interpret_eq, Plan.length_storedFrom]

theorem args_interpret_eq : (interpret features sink ceiling format args).args =
    Plan.argsFrom 0 (Plan.ofFormat features format args).steps args := by
  rw [interpret_eq, Plan.length_storedFrom, Plan.argsFrom]

end Interpretation

end FormattedOutput
