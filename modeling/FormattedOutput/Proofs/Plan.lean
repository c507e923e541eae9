import FormattedOutput.Interpretation
import FormattedOutput.Proofs.Coercion
import FormattedOutput.Proofs.Delivery
import FormattedOutput.Proofs.Layout
import FormattedOutput.Proofs.Reading

/-!
# Plans

A layout and a list of arguments determine what an interpretation does, before there is any output:
the arguments are bound to the directives from left to right, until one of them is missing or does
not fit or the format is at its end. The result is a plan, a list of steps and the reason to stop.
The main statement is that an interpretation follows the plan of its format and its arguments, with
any sink, under any ceiling and from any point.
-/

namespace FormattedOutput

/-- One step of an interpretation, and how much of the format it reads. -/
inductive Step where
  /-- A byte is written without an argument. -/
  | text (byte : UInt8) (length : Nat)
  /-- An argument is taken and rendered. -/
  | convert (arg : Arg) (rendering : Rendering) (length : Nat)
  deriving DecidableEq, Repr

namespace Step

/-- How much of the format a step reads. -/
def length : Step → Nat
  | text _ length => length
  | convert _ _ length => length

/-- What a step writes or stores. -/
def rendering : Step → Rendering
  | text byte _ => .byte byte
  | convert _ rendering _ => rendering

/-- The calls that a step asks for. -/
def calls (step : Step) : List Sink.Call := step.rendering.calls

/-- The argument that a step takes, with what is stored in it after so much output. -/
def stored (written : Nat) : Step → List Arg
  | text _ _ => []
  | convert _ .count _ => [.count (Int32.ofNat (min written maxCount))]
  | convert arg _ _ => [arg]

/-- The argument that a step takes, as it was before. -/
def taken : Step → List Arg
  | text _ _ => []
  | convert arg _ _ => [arg]

theorem length_stored (written : Nat) (step : Step) :
    (step.stored written).length = step.taken.length := by
  cases step with
  | text byte length => rfl
  | convert arg rendering length => cases rendering <;> rfl

end Step

/-- What an interpretation does: its steps, why it stops early after them, if it does, and how much
    of the format it reads behind them. -/
structure Plan where
  steps : List Step
  stopped : Option Stop
  excess : Nat
  deriving DecidableEq, Repr

namespace Plan

/-- A plan with one more step in front. -/
def prepend (step : Step) (plan : Plan) : Plan := { plan with steps := step :: plan.steps }

/-- All calls of a plan. -/
def calls (plan : Plan) : List Sink.Call := plan.steps.flatMap Step.calls

/-- The arguments that steps take, with what is stored in them if so much was written before. -/
def storedFrom (written : Nat) : List Step → List Arg
  | [] => []
  | step :: rest =>
    step.stored written ++ storedFrom (written + (Sink.content step.calls).length) rest

end Plan

/-- The step of a segment and the arguments that are left behind it, or why there is none. A percent
    sign takes no argument, whatever its modifiers. -/
def Segment.bind : Segment → List Arg → Except Stop (Step × List Arg)
  | literal byte, args => .ok (.text byte 1, args)
  | directive modifiers byte conversion, args =>
    let length := (directive modifiers byte conversion).text.length
    if conversion = .percent then .ok (.text '%'.toUInt8 length, args)
    else
      match args with
      | [] => .error .missingArgument
      | arg :: rest =>
        match (modifiers.directive conversion).effect? arg with
        | none => .error (.mismatch conversion)
        | some rendering => .ok (.convert arg rendering length, rest)

/-- A step takes the first of the arguments, or none of them, and reads its segment. -/
theorem Segment.step_of_bind {segment : Segment} {args left : List Arg} {step : Step}
    (bound : segment.bind args = .ok (step, left)) :
    args = step.taken ++ left ∧ step.length = segment.text.length := by
  cases segment with
  | literal byte =>
    cases bound
    exact ⟨rfl, rfl⟩
  | directive modifiers byte conversion =>
    simp only [bind] at bound
    split at bound
    next =>
      cases bound
      exact ⟨rfl, rfl⟩
    next =>
      cases args with
      | nil => cases bound
      | cons arg rest =>
        cases effect : (modifiers.directive conversion).effect? arg with
        | none => simp [effect] at bound
        | some rendering =>
          simp only [effect] at bound
          cases bound
          exact ⟨rfl, rfl⟩

namespace Ending

/-- Why an interpretation stops at an ending. -/
def stop? : Ending → Option Stop
  | complete => none
  | truncated _ => some .truncated
  | unsupported _ byte _ => some (.unsupported byte)

/-- A malformed directive is read only up to its percent sign. -/
def excess : Ending → Nat
  | complete => 0
  | truncated _ => 1
  | unsupported _ _ _ => 1

end Ending

namespace Layout

/-- The plan of some segments and an ending with some arguments. -/
def planFrom (ending : Ending) : List Segment → List Arg → Plan
  | [], _ => ⟨[], ending.stop?, ending.excess⟩
  | segment :: rest, args =>
    match segment.bind args with
    | .error stop => ⟨[], some stop, segment.text.length⟩
    | .ok (step, left) => (planFrom ending rest left).prepend step

/-- The plan of a layout with some arguments. -/
def plan (layout : Layout) (args : List Arg) : Plan :=
  planFrom layout.ending layout.segments args

end Layout

/-- The plan of a format, as far as its first NUL, with some arguments. -/
def Plan.ofFormat (features : Features) (format : Bytes) (args : List Arg) : Plan :=
  (Layout.ofText features format.untilNul).plan args

namespace Progress

variable {σ : Type} [Sink σ] {features : Features} {progress : Progress σ}

/-- The point after a step. -/
def after (progress : Progress σ) : Step → Progress σ
  | .text byte length => (progress.advance length).emit (progress.out.put byte)
  | .convert arg rendering length =>
    (progress.advance length).perform arg progress.pending.tail rendering

/-- The outcome of a plan that is followed from a point on. -/
def follow (progress : Progress σ) (plan : Plan) : Outcome σ :=
  ((plan.steps.foldl after progress).advance plan.excess).finish plan.stopped

/-- A format whose first byte is NUL is at its end. -/
theorem run_ended {rest : Bytes} (ends : rest.head? = none ∨ rest.head? = some 0) :
    progress.run features rest = progress.finish none := by
  cases rest with
  | nil => rw [run]
  | cons byte rest =>
    have nul : byte = 0 := by simpa using ends
    rw [run, if_pos nul]

/-- Carrying out a directive is binding its segment and doing the step that comes of it. -/
theorem carryOut_eq_bind (progress : Progress σ) (modifiers : Modifiers) (byte : UInt8)
    (conversion : Conversion) :
    (progress.advance (Segment.directive modifiers byte conversion).text.length).carryOut
        (modifiers.directive conversion) =
      ((Segment.directive modifiers byte conversion).bind progress.pending).map
        fun bound => progress.after bound.1 := by
  have same : (modifiers.directive conversion).conversion = conversion := rfl
  simp only [carryOut, Segment.bind, same, advance, Directive.render?_eq_effect?]
  split
  next => rfl
  next =>
    cases pending : progress.pending with
    | nil => rfl
    | cons arg rest =>
      cases effect : (modifiers.directive conversion).effect? arg with
      | none => simp only [effect, Except.map]
      | some rendering => simp only [effect, Except.map, after, pending, advance, List.tail_cons]

/-- A segment is read in one step, or the interpretation stops behind it with no other effect. -/
theorem run_segment {segment : Segment} (h : segment.WellFormed features) (rest : Bytes) :
    progress.run features (segment.text ++ rest) =
      match segment.bind progress.pending with
      | .error stop => (progress.advance segment.text.length).finish (some stop)
      | .ok (step, _) => (progress.after step).run features rest := by
  cases segment with
  | literal byte =>
    obtain ⟨nonzero, other⟩ := h
    rw [Segment.text, List.singleton_append, run, if_neg nonzero, if_neg other]
    rfl
  | directive modifiers byte conversion =>
    obtain ⟨greedy, supported⟩ := h
    have read : Directive.read features (modifiers.text ++ byte :: rest) =
        .directive (modifiers.directive conversion) (modifiers.text.length + 1) :=
      Directive.read_of_conversion greedy supported rest
    have dropped : (modifiers.text ++ byte :: rest).drop (modifiers.text.length + 1) = rest := by
      simp [List.drop_append]
    have carried := carryOut_eq_bind progress modifiers byte conversion
    have length : (Segment.directive modifiers byte conversion).text.length =
        1 + (modifiers.text.length + 1) := by
      simp only [Segment.text, List.length_cons, List.length_append, List.length_nil]
      omega
    have spelled : (Segment.directive modifiers byte conversion).text ++ rest =
        '%'.toUInt8 :: (modifiers.text ++ byte :: rest) := by
      simp [Segment.text]
    rw [length] at carried
    rw [spelled, length, run, if_neg (by decide), if_pos rfl]
    simp only [read, dropped, carried]
    cases (Segment.directive modifiers byte conversion).bind progress.pending <;> rfl

theorem after_pending (progress : Progress σ) (step : Step) :
    (progress.after step).pending =
      progress.pending.drop step.taken.length := by
  cases step with
  | text byte length => rfl
  | convert arg rendering length =>
    cases rendering <;> simp [after, perform, take, emit, Step.taken]

/-- A step takes the arguments that binding its segment takes. -/
theorem pending_after {segment : Segment} {step : Step} {left : List Arg}
    (bound : segment.bind progress.pending = .ok (step, left)) :
    (progress.after step).pending = left := by
  rw [after_pending, (Segment.step_of_bind bound).1, List.drop_left]

/-- A format at its ending stops as the ending says. -/
theorem run_ending {ending : Ending} (h : ending.WellFormed features) {tail : Bytes}
    (ends : tail.head? = none ∨ tail.head? = some 0) :
    progress.run features (ending.text ++ tail) =
      (progress.advance ending.excess).finish ending.stop? := by
  cases ending with
  | complete => exact run_ended ends
  | truncated modifiers =>
    have read : Directive.read features (modifiers.text ++ tail) = .truncated := by
      rw [← List.nil_append tail, Directive.read_text_append (h.append_of_ends ends),
        Modifiers.conclude_append_of_ends ends]
      rfl
    rw [Ending.text, List.cons_append, run, if_neg (by decide), if_pos rfl]
    simp only [read]
    rfl
  | unsupported modifiers byte rest =>
    obtain ⟨greedy, nonzero, unsupported⟩ := h
    have read : Directive.read features (modifiers.text ++ byte :: (rest ++ tail)) =
        .unsupported byte := by
      have behind : modifiers.GreedyBefore features (byte :: (rest ++ tail)) := greedy.congr rfl
      rw [Directive.read_text_append behind]
      simp only [Modifiers.conclude, nonzero, if_false, unsupported]
    have spelled : (Ending.unsupported modifiers byte rest).text ++ tail =
        '%'.toUInt8 :: (modifiers.text ++ byte :: (rest ++ tail)) := by
      simp [Ending.text]
    rw [spelled, run, if_neg (by decide), if_pos rfl]
    simp only [read]
    rfl

/-- An interpretation follows the plan of its layout. -/
theorem run_layout {layout : Layout} (h : layout.WellFormed features) {tail : Bytes}
    (ends : tail.head? = none ∨ tail.head? = some 0) :
    progress.run features (layout.text ++ tail) =
      progress.follow (layout.plan progress.pending) := by
  obtain ⟨segments, ending⟩ := layout
  obtain ⟨wellFormed, endsWell⟩ := h
  induction segments generalizing progress with
  | nil => exact run_ending endsWell ends
  | cons segment rest ih =>
    have front := wellFormed segment List.mem_cons_self
    have back : ∀ other ∈ rest, other.WellFormed features :=
      fun other member => wellFormed other (List.mem_cons_of_mem _ member)
    have whole : Layout.text ⟨segment :: rest, ending⟩ ++ tail =
        segment.text ++ (Layout.text ⟨rest, ending⟩ ++ tail) := by
      simp [Layout.text]
    rw [whole, run_segment front, Layout.plan, Layout.planFrom]
    cases bound : segment.bind progress.pending with
    | error stop => rfl
    | ok result =>
      obtain ⟨step, left⟩ := result
      have later : (progress.after step).run features (Layout.text ⟨rest, ending⟩ ++ tail) = _ :=
        ih back endsWell
      rw [pending_after bound] at later
      exact later

theorem after_written (progress : Progress σ) (step : Step) :
    (progress.after step).written = progress.written + (Sink.content step.calls).length := by
  have counted := (progress.out.perform_delivers step.rendering).count
  rw [Step.calls, ← counted]
  cases step with
  | text byte length => rfl
  | convert arg rendering length => cases rendering <;> rfl

theorem after_delivers (progress : Progress σ) (step : Step) :
    progress.out.Delivers step.calls
      ((Sink.content step.calls).length, (progress.after step).out) := by
  have delivers := progress.out.perform_delivers step.rendering
  have same : (progress.after step).out = (progress.out.perform step.rendering).2 := by
    cases step with
    | text byte length => rfl
    | convert arg rendering length => cases rendering <;> rfl
  exact ⟨rfl, by rw [same, delivers.sink, Step.calls], by rw [same, delivers.ceiling, Step.calls]⟩

theorem after_taken (progress : Progress σ) (step : Step) :
    (progress.after step).taken = progress.taken ++ step.stored progress.written := by
  cases step with
  | text byte length => simp [after, emit, advance, Step.stored]
  | convert arg rendering length =>
    cases rendering <;> simp [after, perform, take, emit, advance, slot, Step.stored]

theorem after_position (progress : Progress σ) (step : Step) :
    (progress.after step).position = progress.position + step.length := by
  cases step with
  | text byte length => rfl
  | convert arg rendering length => cases rendering <;> rfl

variable (steps : List Step)

/-- Steps deliver their calls one after the other. -/
theorem foldl_after_delivers (progress : Progress σ) :
    progress.out.Delivers (steps.flatMap Step.calls)
      ((Sink.content (steps.flatMap Step.calls)).length, (steps.foldl after progress).out) := by
  induction steps generalizing progress with
  | nil => exact ⟨rfl, rfl, by simp⟩
  | cons step rest ih =>
    have whole := (after_delivers progress step).append (ih (progress.after step))
    simpa using whole

theorem foldl_after_written (progress : Progress σ) :
    (steps.foldl after progress).written =
      progress.written + (Sink.content (steps.flatMap Step.calls)).length := by
  induction steps generalizing progress with
  | nil => rfl
  | cons step rest ih =>
    rw [List.foldl_cons, ih, after_written, List.flatMap_cons, Sink.content_append,
      List.length_append, Nat.add_assoc]

theorem foldl_after_taken (progress : Progress σ) :
    (steps.foldl after progress).taken =
      progress.taken ++ Plan.storedFrom progress.written steps := by
  induction steps generalizing progress with
  | nil => simp [Plan.storedFrom]
  | cons step rest ih =>
    rw [List.foldl_cons, ih, after_taken, after_written, Plan.storedFrom, List.append_assoc]

theorem foldl_after_position (progress : Progress σ) :
    (steps.foldl after progress).position =
      progress.position + (steps.map Step.length).sum := by
  induction steps generalizing progress with
  | nil => rfl
  | cons step rest ih =>
    rw [List.foldl_cons, ih, after_position, List.map_cons, List.sum_cons, Nat.add_assoc]

theorem foldl_after_pending (progress : Progress σ) :
    (steps.foldl after progress).pending =
      progress.pending.drop (Plan.storedFrom progress.written steps).length := by
  induction steps generalizing progress with
  | nil => rfl
  | cons step rest ih =>
    rw [List.foldl_cons, ih, after_pending, after_written, List.drop_drop, Plan.storedFrom,
      List.length_append, Step.length_stored]

/-- What following a plan leaves behind: the sink has received the calls of the plan as far as the
    ceiling had room, and everything else comes from the plan and the arguments alone. -/
theorem follow_eq (progress : Progress σ) (plan : Plan) :
    progress.follow plan =
      { sink :=
          Sink.applyAll progress.out.sink (Sink.clip progress.out.ceiling.remaining plan.calls)
        written := progress.written + (Sink.content plan.calls).length
        deposited :=
          (progress.out.ceiling.claimMany (Sink.content plan.calls).length).2.deposited
        args := progress.taken ++ Plan.storedFrom progress.written plan.steps ++
          progress.pending.drop (Plan.storedFrom progress.written plan.steps).length
        consumed := progress.taken.length + (Plan.storedFrom progress.written plan.steps).length
        stopped := plan.stopped
        position := progress.position + (plan.steps.map Step.length).sum + plan.excess } := by
  have delivers := foldl_after_delivers plan.steps progress
  have sink : (plan.steps.foldl after progress).out.sink =
      Sink.applyAll progress.out.sink (Sink.clip progress.out.ceiling.remaining plan.calls) :=
    delivers.sink
  have ceiling : (plan.steps.foldl after progress).out.ceiling =
      (progress.out.ceiling.claimMany (Sink.content plan.calls).length).2 := delivers.ceiling
  simp only [follow, finish, advance, sink, ceiling, foldl_after_written, foldl_after_taken,
    foldl_after_position, foldl_after_pending, List.length_append, Plan.calls]

end Progress

/-- An interpretation follows the plan of its format and its arguments. -/
theorem interpret_eq_follow {σ : Type} [Sink σ] (features : Features) (sink : σ)
    (ceiling : Ceiling) (format : Bytes) (args : List Arg) :
    interpret features sink ceiling format args =
      (Progress.start sink ceiling args).follow (Plan.ofFormat features format args) := by
  obtain ⟨tail, whole, ends⟩ := format.exists_eq_untilNul_append
  have wellFormed := Layout.wellFormed_ofText features format.untilNul
    (Bytes.zero_notMem_untilNul format)
  have spelled := Layout.text_ofText features format.untilNul
  have run : (Progress.start sink ceiling args).run features _ = _ :=
    Progress.run_layout wellFormed ends
  rw [spelled, ← whole] at run
  exact run

/-- What an interpretation leaves behind, in terms of its plan. Only the sink and the number of bytes
    let through depend on more than the format and the arguments. -/
theorem interpret_eq {σ : Type} [Sink σ] (features : Features) (sink : σ) (ceiling : Ceiling)
    (format : Bytes) (args : List Arg) :
    let plan := Plan.ofFormat features format args
    interpret features sink ceiling format args =
      { sink := Sink.applyAll sink (Sink.clip ceiling.remaining plan.calls)
        written := (Sink.content plan.calls).length
        deposited := (ceiling.claimMany (Sink.content plan.calls).length).2.deposited
        args := Plan.storedFrom 0 plan.steps ++ args.drop (Plan.storedFrom 0 plan.steps).length
        consumed := (Plan.storedFrom 0 plan.steps).length
        stopped := plan.stopped
        position := (plan.steps.map Step.length).sum + plan.excess } := by
  intro plan
  rw [interpret_eq_follow, Progress.follow_eq]
  simp only [Progress.start, Nat.zero_add, List.nil_append, List.length_nil, plan]

end FormattedOutput
