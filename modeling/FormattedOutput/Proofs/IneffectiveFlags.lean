import FormattedOutput.Proofs.Extension

/-!
# Flags without effect

Every conversion ignores some of the modifiers: a character its width, a string its pad, a field on
the left or without width its pad too, and all but integers the marker. Two directives that differ
only in what their conversion ignores have the same effect on every argument, and so one may stand
in place of the other anywhere in a format.
-/

namespace FormattedOutput

namespace Rendering

/-- Two renderings make the same calls, and both or neither of them store a count. -/
structure SameEffect (first second : Rendering) : Prop where
  calls : first.calls = second.calls
  count : first = .count ↔ second = .count

theorem SameEffect.refl (rendering : Rendering) : rendering.SameEffect rendering := ⟨rfl, Iff.rfl⟩

/-- The pad has an effect only on a field with a positive width. -/
theorem sameEffect_field (value : Bytes) {width : Int} {pad other : Pad}
    (same : 0 < width → pad = other) :
    (field value width pad).SameEffect (field value width other) := by
  refine ⟨?_, by simp⟩
  rcases Int.lt_trichotomy width 0 with negative | zero | positive
  · simp only [calls, if_neg (Int.not_le.mpr negative)]
  · simp only [calls, zero, Int.natAbs_zero, Nat.zero_sub, List.replicate_zero]
  · rw [same positive]

end Rendering

/-- Two directives have the same conversion and differ at most in what it ignores. -/
def Directive.Alike (first second : Directive) : Prop :=
  first.conversion = second.conversion ∧
    match first.conversion with
    | .char | .percent | .count => True
    | .str => first.width = second.width
    | .float => first.width = second.width ∧ (0 < first.width → first.pad = second.pad)
    | .unsigned | .signed | .lowerHex | .upperHex =>
      first.width = second.width ∧ first.long = second.long ∧
        (0 < first.width → first.pad = second.pad)

/-- Directives that are alike fit the same arguments and have the same effect with them. -/
theorem Directive.Alike.rel_render? {first second : Directive} (alike : first.Alike second)
    (arg : Arg) :
    Option.Rel Rendering.SameEffect (first.render? arg) (second.render? arg) := by
  obtain ⟨conversions, ignored⟩ := alike
  have both {α : Type} (found : Option α) {f g : α → Rendering}
      (same : ∀ value, (f value).SameEffect (g value)) :
      Option.Rel Rendering.SameEffect (found.map f) (found.map g) := by
    cases found with
    | none => exact .none
    | some value => exact .some (same value)
  rw [render?_eq_effect?, render?_eq_effect?]
  cases conversion : first.conversion with
  | percent =>
    simp only [effect?, ← conversions, conversion]
    exact .none
  | char =>
    simp only [effect?, ← conversions, conversion]
    exact both _ fun n => .refl _
  | count =>
    simp only [effect?, ← conversions, conversion]
    exact both _ fun slot => .refl _
  | str =>
    simp only [conversion] at ignored
    simp only [effect?, ← conversions, conversion, ignored]
    cases arg with
    | str bytes => exact .some (.refl _)
    | int | uint | long | ulong | char | float | count => exact .none
  | float =>
    simp only [conversion] at ignored
    obtain ⟨width, pad⟩ := ignored
    simp only [effect?, ← conversions, conversion, ← width]
    cases arg with
    | float value => exact .some (Rendering.sameEffect_field _ pad)
    | int | uint | long | ulong | char | str | count => exact .none
  | unsigned | signed | lowerHex | upperHex =>
    simp only [conversion] at ignored
    obtain ⟨width, long, pad⟩ := ignored
    simp only [effect?, bits, ← conversions, conversion, ← width, ← long]
    exact both _ fun n => Rendering.sameEffect_field _ pad

theorem Step.stored_convert {rendering : Rendering} (other : rendering ≠ .count) (arg : Arg)
    (length written : Nat) : (convert arg rendering length).stored written = [arg] := by
  cases rendering with
  | count => exact absurd rfl other
  | byte value | field value width pad => rfl

namespace Plan

/-- Two plans make the same calls, store the same counts in the same arguments and stop for the same
    reason. They need not read equally much of a format. -/
structure SameEffect (first second : Plan) : Prop where
  calls : first.calls = second.calls
  stored : ∀ written, storedFrom written first.steps = storedFrom written second.steps
  stopped : first.stopped = second.stopped

theorem SameEffect.refl (plan : Plan) : plan.SameEffect plan := ⟨rfl, fun _ => rfl, rfl⟩

theorem SameEffect.prependAll {first second : Plan} (same : first.SameEffect second)
    (steps : List Step) : (first.prependAll steps).SameEffect (second.prependAll steps) := by
  refine ⟨?_, ?_, same.stopped⟩
  · rw [calls_prependAll, calls_prependAll, same.calls]
  · intro written
    simp only [Plan.prependAll, storedFrom_append, same.stored]

/-- A step may be exchanged for one that takes the same argument and has the same effect with it. -/
theorem sameEffect_prepend_convert (plan : Plan) (arg : Arg) {rendering other : Rendering}
    (same : rendering.SameEffect other) (length size : Nat) :
    (plan.prepend (.convert arg rendering length)).SameEffect
      (plan.prepend (.convert arg other size)) := by
  have calls : (Step.convert arg rendering length).calls = (Step.convert arg other size).calls :=
    same.calls
  have stored (written : Nat) : (Step.convert arg rendering length).stored written =
      (Step.convert arg other size).stored written := by
    by_cases count : rendering = .count
    · rw [count, same.count.mp count]
      rfl
    · rw [Step.stored_convert count, Step.stored_convert (mt same.count.mpr count)]
  refine ⟨?_, ?_, rfl⟩
  · simp only [Plan.calls, Plan.prepend, List.flatMap_cons, calls]
  · intro written
    simp only [Plan.prepend, storedFrom, calls, stored]

theorem sameEffect_prepend_text (plan : Plan) (byte : UInt8) (length size : Nat) :
    (plan.prepend (.text byte length)).SameEffect (plan.prepend (.text byte size)) :=
  ⟨rfl, fun _ => rfl, rfl⟩

section Replace

variable {features : Features} {spec other : Bytes} {first second : Directive}

/-- At the front of a format, a directive may be replaced by one that is alike. -/
theorem sameEffect_directive (alike : first.Alike second)
    (found : Directive.read features spec = .directive first spec.length)
    (foundOther : Directive.read features other = .directive second other.length)
    (after : Bytes) (args : List Arg) :
    (ofFormat features ('%'.toUInt8 :: (spec ++ after)) args).SameEffect
      (ofFormat features ('%'.toUInt8 :: (other ++ after)) args) := by
  have read : Directive.read features (spec ++ after) = .directive first spec.length :=
    Directive.read_of_take_eq found (by simp)
  have readOther : Directive.read features (other ++ after) = .directive second other.length :=
    Directive.read_of_take_eq foundOther (by simp)
  rw [ofFormat_directive read, ofFormat_directive readOther, List.drop_left, List.drop_left]
  by_cases percent : first.conversion = .percent
  · have percentOther : second.conversion = .percent := alike.1.symm.trans percent
    rw [Directive.bind_percent percent, Directive.bind_percent percentOther]
    exact sameEffect_prepend_text _ _ _ _
  · have asksOther : second.conversion ≠ .percent := fun percentOther =>
      percent (alike.1.trans percentOther)
    cases args with
    | nil =>
      rw [Directive.bind_nil percent, Directive.bind_nil asksOther]
      exact ⟨rfl, fun _ => rfl, rfl⟩
    | cons arg rest =>
      rw [Directive.bind_cons percent, Directive.bind_cons asksOther, alike.1]
      have rendered := alike.rel_render? arg
      generalize first.render? arg = rendering at rendered
      generalize second.render? arg = renderingOther at rendered
      cases rendered with
      | none => exact ⟨rfl, fun _ => rfl, rfl⟩
      | some same => exact sameEffect_prepend_convert _ arg same _ _

end Replace

end Plan

/-- A text ends inside a directive: behind complete parts stand a percent sign and modifiers, and
    nothing else. -/
def Bytes.EndsInDirective (features : Features) (text : Bytes) : Prop :=
  ∃ segments modifiers, (Layout.mk segments (.truncated modifiers)).WellFormed features ∧
    (Layout.mk segments (.truncated modifiers)).text = text

variable {features : Features}

theorem Bytes.EndsInDirective.exists_ending {text : Bytes} (h : text.EndsInDirective features) :
    ∃ modifiers, (Layout.ofText features text).ending = .truncated modifiers := by
  obtain ⟨segments, modifiers, wellFormed, rfl⟩ := h
  exact ⟨modifiers, by rw [Layout.ofText_text wellFormed]⟩

theorem Bytes.endsInDirective_of_ending {text : Bytes} {modifiers : Modifiers} (nulFree : 0 ∉ text)
    (ending : (Layout.ofText features text).ending = .truncated modifiers) :
    text.EndsInDirective features := by
  have wellFormed := Layout.wellFormed_ofText features text nulFree
  have spelled := Layout.text_ofText features text
  generalize Layout.ofText features text = layout at wellFormed spelled ending
  obtain ⟨segments, last⟩ := layout
  obtain rfl : last = .truncated modifiers := ending
  exact ⟨segments, modifiers, wellFormed, spelled⟩

/-- What stops an interpretation at a complete directive is never the end of the format. -/
theorem Segment.bind_ne_truncated (segment : Segment) (args : List Arg) :
    segment.bind args ≠ .error .truncated := by
  cases segment with
  | literal byte => simp [bind]
  | directive modifiers byte conversion =>
    simp only [bind]
    split
    next => simp
    next =>
      cases args with
      | nil => simp
      | cons arg rest =>
        cases effect : (modifiers.directive conversion).effect? arg <;> simp [effect]

theorem Layout.exists_of_stopped_truncated {ending : Ending} {segments : List Segment}
    {args : List Arg} (stopped : (planFrom ending segments args).stopped = some .truncated) :
    ∃ modifiers, ending = .truncated modifiers := by
  induction segments generalizing args with
  | nil =>
    cases ending with
    | truncated modifiers => exact ⟨modifiers, rfl⟩
    | complete | unsupported modifiers byte rest => cases stopped
  | cons segment rest ih =>
    rw [planFrom] at stopped
    cases bound : segment.bind args with
    | error stop =>
      simp only [bound, Option.some.injEq] at stopped
      exact absurd (stopped ▸ bound) (segment.bind_ne_truncated args)
    | ok result =>
      simp only [bound] at stopped
      exact ih stopped

theorem Plan.stopped_ne_truncated {format : Bytes} (nulFree : 0 ∉ format)
    (finished : ¬ format.EndsInDirective features) (args : List Arg) :
    (ofFormat features format args).stopped ≠ some .truncated := by
  intro stopped
  rw [ofFormat, Bytes.untilNul_eq_self nulFree] at stopped
  obtain ⟨modifiers, ending⟩ := Layout.exists_of_stopped_truncated stopped
  exact finished (Bytes.endsInDirective_of_ending nulFree ending)

section Replace

variable {spec other before : Bytes} {first second : Directive}

/-- In the middle of a format, a directive may be replaced by one that is alike, if the text in front
    of it does not end inside a directive. -/
theorem Plan.sameEffect_replace (alike : first.Alike second)
    (found : Directive.read features spec = .directive first spec.length)
    (foundOther : Directive.read features other = .directive second other.length)
    (finished : ¬ before.EndsInDirective features) (after : Bytes) (args : List Arg) :
    (ofFormat features (before ++ '%'.toUInt8 :: (spec ++ after)) args).SameEffect
      (ofFormat features (before ++ '%'.toUInt8 :: (other ++ after)) args) := by
  -- either the text in front settles the plan, or the plan goes on with the directive
  by_cases complete : 0 ∉ before ∧ (ofFormat features before args).stopped = none
  · obtain ⟨nulFree, complete⟩ := complete
    rw [ofFormat_append nulFree complete, ofFormat_append nulFree complete]
    exact (sameEffect_directive alike found foundOther after _).prependAll _
  · have settled : 0 ∉ before → (ofFormat features before args).stopped ≠ none ∧
        (ofFormat features before args).stopped ≠ some .truncated := fun nulFree =>
      ⟨fun stopped => complete ⟨nulFree, stopped⟩, stopped_ne_truncated nulFree finished args⟩
    rw [ofFormat_append_of_settled settled, ofFormat_append_of_settled settled]
    exact .refl _

/-- Formats whose plans have the same effect are interpreted alike, but for the position that was
    reached in them. -/
theorem interpret_eq_of_sameEffect {σ : Type} [Sink σ] {sink : σ} {ceiling : Ceiling}
    {format changed : Bytes} {args : List Arg}
    (same : (Plan.ofFormat features format args).SameEffect
      (Plan.ofFormat features changed args)) :
    interpret features sink ceiling changed args =
      { interpret features sink ceiling format args with
        position := (interpret features sink ceiling changed args).position } := by
  simp only [interpret_eq, same.calls, same.stored, same.stopped]

/-- Flags without effect have none anywhere. Two directives that are alike are read from two
    spellings, each of them as a whole. Wherever the one stands behind a percent sign, the other may
    stand instead: what is in front of the sign must not end inside a directive, and otherwise it and
    what follows are arbitrary. With any arguments, any sink and any ceiling, the interpretation then
    has the same outcome, but for the position that it reaches. -/
theorem interpret_replace_alike (alike : first.Alike second)
    (found : Directive.read features spec = .directive first spec.length)
    (foundOther : Directive.read features other = .directive second other.length)
    (finished : ¬ before.EndsInDirective features) (after : Bytes) (args : List Arg)
    {σ : Type} [Sink σ] (sink : σ) (ceiling : Ceiling) :
    let outcome := interpret features sink ceiling (before ++ '%'.toUInt8 :: (spec ++ after)) args
    let changed := interpret features sink ceiling (before ++ '%'.toUInt8 :: (other ++ after)) args
    changed = { outcome with position := changed.position } :=
  interpret_eq_of_sameEffect (Plan.sameEffect_replace alike found foundOther finished after args)

/-- A zero flag in a field on the left and the other letter for signed integers, behind a percent
    sign that is complete and in front of a count. -/
theorem interpret_replace_alike_left :
    let before := Bytes.ofString "a%%"
    let after := Bytes.ofString "|%n%s"
    let args := [.int 7, .count 9]
    let outcome := interpret .full CallLog.empty .unbounded
      (before ++ '%'.toUInt8 :: (Bytes.ofString "-03i" ++ after)) args
    let changed := interpret .full CallLog.empty .unbounded
      (before ++ '%'.toUInt8 :: (Bytes.ofString "-3d" ++ after)) args
    (Directive.Alike ⟨.zero, -3, false, .signed⟩ ⟨.space, -3, false, .signed⟩ ∧
        Directive.read .full (Bytes.ofString "-03i") = .directive ⟨.zero, -3, false, .signed⟩ 4 ∧
        Directive.read .full (Bytes.ofString "-3d") = .directive ⟨.space, -3, false, .signed⟩ 3 ∧
        ¬ before.EndsInDirective .full) ∧
      changed.sink.calls = outcome.sink.calls ∧ changed.written = outcome.written ∧
      changed.args = [.int 7, .count 6] ∧ changed.stopped = some .missingArgument := by
  intro before after args outcome changed
  have alike : Directive.Alike ⟨.zero, -3, false, .signed⟩ ⟨.space, -3, false, .signed⟩ :=
    ⟨rfl, rfl, rfl, by decide⟩
  have found : Directive.read .full (Bytes.ofString "-03i") =
      .directive ⟨.zero, -3, false, .signed⟩ 4 := by
    decide +kernel
  have foundOther : Directive.read .full (Bytes.ofString "-3d") =
      .directive ⟨.space, -3, false, .signed⟩ 3 := by
    decide +kernel
  have finished : ¬ before.EndsInDirective .full := by
    intro inside
    obtain ⟨modifiers, ending⟩ := inside.exists_ending
    have complete : (Layout.ofText .full before).ending = .complete := by decide +kernel
    cases complete.symm.trans ending
  have same : changed = { outcome with position := changed.position } :=
    interpret_replace_alike alike found foundOther finished after args CallLog.empty .unbounded
  refine ⟨⟨alike, found, foundOther, finished⟩, ?_, ?_, ?_, ?_⟩
  · rw [same]
  · rw [same]
  · rw [same]
    decide +kernel
  · rw [same]
    decide +kernel

end Replace

end FormattedOutput
