import FormattedOutput.Proofs.EarlyStop
import FormattedOutput.Proofs.CountSlots
import FormattedOutput.Proofs.Truncation
import Mathlib.Data.List.Infix

/-!
# Longer formats and more arguments

More text behind a format, or more arguments behind a list, never take back what was done without
them: the steps of the shorter run are the first steps of the longer one. What stops an
interpretation is mostly final. More arguments only help one that has run out of them, and more text
only helps one that has come to the physical end of its format, between two directives or inside a
directive.
-/

namespace FormattedOutput

/-- What is read as a directive, or is known to be none, does not depend on what follows it. -/
theorem Directive.read_append_of_ne_truncated {features : Features} {spec : Bytes}
    (settled : read features spec ≠ .truncated) (after : Bytes) :
    read features (spec ++ after) = read features spec := by
  have whole := Modifiers.text_split features spec
  have greedy := Modifiers.split_greedyBefore features spec
  have found := read_eq_conclude features spec
  generalize Modifiers.split features spec = parts at whole greedy found
  obtain ⟨modifiers, rest⟩ := parts
  cases rest with
  -- modifiers up to the end of the text are all that more text could turn into a directive
  | nil => exact absurd found settled
  | cons byte rest =>
    have behind : modifiers.GreedyBefore features (byte :: rest ++ after) := greedy.congr rfl
    have longer : spec ++ after = modifiers.text ++ (byte :: rest ++ after) := by
      rw [← whole, List.append_assoc]
    rw [longer, read_text_append behind, found]
    rfl

/-- A directive that is refused for anything but the end of the format is refused whatever follows
    it. -/
theorem Refuses.append {features : Features} {spec : Bytes} {pending : List Arg} {stop : Stop}
    {length : Nat} (h : Refuses features spec pending stop length) (final : stop ≠ .truncated)
    (after : Bytes) : Refuses features (spec ++ after) pending stop length := by
  have settled : Directive.read features spec ≠ .truncated := by
    cases h with
    | truncated => exact absurd rfl final
    | unsupported found | missingArgument found | mismatch found => simp [found]
  have same := Directive.read_append_of_ne_truncated settled after
  cases h with
  | unsupported found => exact .unsupported (same.trans found)
  | truncated => exact absurd rfl final
  | missingArgument found asks empty => exact .missingArgument (same.trans found) asks empty
  | mismatch found asks next unfit => exact .mismatch (same.trans found) asks next unfit

/-- More arguments change nothing where there are enough, be it that the next one does not fit. -/
theorem Segment.bind_append {segment : Segment} {args : List Arg}
    (enough : segment.bind args ≠ .error .missingArgument) (more : List Arg) :
    segment.bind (args ++ more) =
      (segment.bind args).map fun bound => (bound.1, bound.2 ++ more) := by
  cases segment with
  | literal byte => rfl
  | directive modifiers byte conversion =>
    simp only [bind] at enough ⊢
    split at enough
    next percent => simp only [percent, if_true, Except.map]
    next asks =>
      cases args with
      | nil => exact absurd rfl enough
      | cons arg rest =>
        simp only [asks, if_false, List.cons_append]
        cases (modifiers.directive conversion).effect? arg <;> rfl

namespace Layout

variable {ending : Ending} {segments : List Segment} {args : List Arg}

/-- More arguments change nothing for a plan that does not run out of them. -/
theorem planFrom_append_args
    (enough : (planFrom ending segments args).stopped ≠ some .missingArgument) (more : List Arg) :
    planFrom ending segments (args ++ more) = planFrom ending segments args := by
  induction segments generalizing args with
  | nil => rfl
  | cons segment rest ih =>
    rw [planFrom] at enough ⊢
    rw [planFrom]
    cases bound : segment.bind args with
    | error stop =>
      have enoughHere : segment.bind args ≠ .error .missingArgument := by
        simp only [bound] at enough
        simpa [bound] using enough
      rw [Segment.bind_append enoughHere, bound]
      rfl
    | ok result =>
      have enoughHere : segment.bind args ≠ .error .missingArgument := by simp [bound]
      simp only [bound] at enough
      rw [Segment.bind_append enoughHere, bound]
      simp only [Except.map, ih enough]

theorem isPrefix_steps_planFrom (ending : Ending) (segments : List Segment) (args more : List Arg) :
    (planFrom ending segments args).steps <+: (planFrom ending segments (args ++ more)).steps := by
  induction segments generalizing args with
  | nil => exact List.prefix_rfl
  | cons segment rest ih =>
    rw [planFrom, planFrom]
    cases bound : segment.bind args with
    | error stop => exact List.nil_prefix
    | ok result =>
      have enoughHere : segment.bind args ≠ .error .missingArgument := by simp [bound]
      rw [Segment.bind_append enoughHere, bound]
      exact (List.prefix_cons_inj _).mpr (ih _)

end Layout

namespace Plan

variable {features : Features} {first : Bytes} {args : List Arg}

theorem isPrefix_steps_ofFormat (features : Features) (first second : Bytes) (args : List Arg) :
    (ofFormat features first args).steps <+: (ofFormat features (first ++ second) args).steps := by
  -- the text that the steps cover is interpreted to its end, and the longer text begins with it
  obtain ⟨front, back, split, nulFree, plan, -⟩ :=
    exists_of_steps_eq (List.append_nil (ofFormat features first args).steps).symm
  have complete : (ofFormat features front args).stopped = none := by rw [plan]
  have whole := ofFormat_append nulFree complete (back ++ second)
  rw [← List.append_assoc, ← split, plan] at whole
  rw [whole]
  exact List.prefix_append _ _

/-- Text behind a NUL, or behind a stop that the physical end of the format has no part in, is not
    looked at. -/
theorem ofFormat_append_of_settled
    (settled : 0 ∉ first → (ofFormat features first args).stopped ≠ none ∧
      (ofFormat features first args).stopped ≠ some .truncated) (second : Bytes) :
    ofFormat features (first ++ second) args = ofFormat features first args := by
  by_cases nul : 0 ∈ first
  · rw [ofFormat, ofFormat, Bytes.untilNul_append_of_mem nul]
  obtain ⟨early, final⟩ := settled nul
  obtain ⟨stop, stopped⟩ := Option.ne_none_iff_exists'.mp early
  rw [stopped, ne_eq, Option.some.injEq] at final
  obtain ⟨front, spec, split, nulFree, plan, refused⟩ := exists_of_stopped stopped
  have complete : (ofFormat features front args).stopped = none := by rw [plan]
  have whole := ofFormat_append nulFree complete ('%'.toUInt8 :: spec ++ second)
  rw [← List.append_assoc, ← split, plan] at whole
  rw [whole, List.cons_append, (refused.append final second).ofFormat_eq, prependAll,
    List.append_nil, ← stopped]

end Plan

/-- A run goes on where formatting `format` with `args` ended: its output begins with all that was
    written there and is counted on from it, and every slot in which a count was stored holds the
    same count. -/
structure Continues (features : Features) (format : Bytes) (args : List Arg)
    (longer : Outcome (HandleSink (Array UInt8))) : Prop where
  output : (formatTo features (HandleSink.appending #[]) format args).sink.handle.toList <+:
    longer.sink.handle.toList
  written : (formatTo features (HandleSink.appending #[]) format args).written ≤ longer.written
  slots : ∀ index written, StoresCount features format args index written →
    ∃ count, (formatTo features (HandleSink.appending #[]) format args).args[index]? =
        some (.count count) ∧
      longer.args[index]? = some (.count count)

variable {features : Features}

theorem Plan.StoresAt.of_isPrefix {steps more : List Step} {index written : Nat}
    (h : StoresAt steps index written) (begins : steps <+: more) : StoresAt more index written := by
  obtain ⟨before, arg, length, after, rfl, taken, counted⟩ := h
  obtain ⟨later, rfl⟩ := begins
  exact ⟨before, arg, length, after ++ later, by simp, taken, counted⟩

theorem continues_of_isPrefix {first whole : Bytes} {args all : List Arg}
    (begins : (Plan.ofFormat features first args).steps <+:
      (Plan.ofFormat features whole all).steps) :
    Continues features first args (formatTo features (HandleSink.appending #[]) whole all) := by
  have content : Sink.content (Plan.ofFormat features first args).calls <+:
      Sink.content (Plan.ofFormat features whole all).calls := by
    obtain ⟨later, steps⟩ := begins
    rw [Plan.calls, Plan.calls, ← steps, List.flatMap_append, Sink.content_append]
    exact List.prefix_append _ _
  refine ⟨?_, ?_, ?_⟩
  · rw [formatTo, formatTo, toList_handle_interpret, toList_handle_interpret]
    exact content.take _
  · rw [formatTo, formatTo, written_interpret, written_interpret]
    exact content.length_le
  · intro index written stores
    have here := storesCount_iff.mp stores
    have there := here.of_isPrefix begins
    rw [formatTo, formatTo, args_interpret_eq, args_interpret_eq]
    exact ⟨_, here.getElem?_storedFrom 0 _, there.getElem?_storedFrom 0 _⟩

theorem interpret_append_args {σ : Type} [Sink σ] {sink : σ} {ceiling : Ceiling} {format : Bytes}
    {args : List Arg}
    (enough : (interpret features sink ceiling format args).stopped ≠ some .missingArgument)
    (more : List Arg) : interpret features sink ceiling format (args ++ more) =
      { interpret features sink ceiling format args with
        args := (interpret features sink ceiling format args).args ++ more } := by
  rw [stopped_interpret] at enough
  have plan : Plan.ofFormat features format (args ++ more) = Plan.ofFormat features format args :=
    Layout.planFrom_append_args enough more
  have taken := congrArg List.length (Plan.taken_append_drop features format args)
  rw [List.length_append, List.length_drop] at taken
  have inside : ((Plan.ofFormat features format args).steps.flatMap Step.taken).length ≤
      args.length := by
    omega
  have left : (args ++ more).drop _ = args.drop _ ++ more := List.drop_append_of_le_length inside
  rw [interpret_eq, interpret_eq]
  simp only [plan, Plan.length_storedFrom, left, List.append_assoc]

/-- Output is monotone in the format and in the arguments. More text behind the format, or more
    arguments, let the run go on where it ended. More arguments make no other difference to a run
    that did not stop for want of one; those behind the list stay as they are. More text makes a
    difference only to a run that came to the physical end of its format: the format holds no NUL,
    and the run got through it or stopped inside the directive that its end cuts off. -/
theorem formatTo_continues (features : Features) (first second : Bytes) (args more : List Arg) :
    Continues features first args
        (formatTo features (HandleSink.appending #[]) (first ++ second) args) ∧
      Continues features first args
        (formatTo features (HandleSink.appending #[]) first (args ++ more)) ∧
      ∀ (σ : Type) [Sink σ] (sink : σ),
        let shorter := formatTo features sink first args
        (shorter.stopped ≠ some .missingArgument →
          formatTo features sink first (args ++ more) =
            { shorter with args := shorter.args ++ more }) ∧
        (formatTo features sink (first ++ second) args ≠ shorter →
          0 ∉ first ∧ (shorter.stopped = none ∨ shorter.stopped = some .truncated)) := by
  refine ⟨continues_of_isPrefix (Plan.isPrefix_steps_ofFormat features first second args),
    continues_of_isPrefix (Layout.isPrefix_steps_planFrom _ _ args more), ?_⟩
  intro σ _ sink shorter
  refine ⟨fun enough => interpret_append_args enough more, ?_⟩
  intro different
  have stopped : shorter.stopped = (Plan.ofFormat features first args).stopped := stopped_interpret
  by_contra settled
  rw [not_and, not_or, stopped] at settled
  have plan := Plan.ofFormat_append_of_settled settled second
  apply different
  simp only [shorter, formatTo, interpret_eq, plan]

/-- A count, and a directive that ends with the format: more text completes it, to a field of a
    string and a directive for which an argument is missing. A further argument is not looked at. -/
theorem formatTo_continues_truncated :
    let first := Bytes.ofString "ab%n%-"
    let second := Bytes.ofString "4s|%d"
    let args := [.count 9, .str (Bytes.ofString "x")]
    let shorter := formatTo .full (HandleSink.appending #[]) first args
    let longer := formatTo .full (HandleSink.appending #[]) (first ++ second) args
    let fuller := formatTo .full (HandleSink.appending #[]) first (args ++ [.int 5])
    (shorter.stopped ≠ some .missingArgument ∧ longer ≠ shorter ∧
        StoresCount .full first args 0 2) ∧
      Bytes.ofString "ab" <+: longer.sink.handle.toList ∧ shorter.written ≤ longer.written ∧
      longer.args[0]? = some (.count 2) ∧ shorter.stopped = some .truncated ∧
      fuller.args = [.count 2, .str (Bytes.ofString "x"), .int 5] := by
  intro first second args shorter longer fuller
  have enough : shorter.stopped ≠ some .missingArgument := by decide +kernel
  have different : longer ≠ shorter := by
    intro same
    have written := congrArg Outcome.written same
    exact absurd written (by decide +kernel)
  have stores : StoresCount .full first args 0 2 :=
    ⟨Bytes.ofString "ab", Bytes.ofString "n%-", ⟨.space, 0, false, .count⟩, 1, 9,
      by decide +kernel⟩
  obtain ⟨further, -, settles⟩ := formatTo_continues .full first second args [.int 5]
  obtain ⟨more, final⟩ := settles _ (HandleSink.appending #[])
  have output : shorter.sink.handle.toList = Bytes.ofString "ab" := by decide +kernel
  obtain ⟨count, here, there⟩ := further.slots 0 2 stores
  have two : shorter.args[0]? = some (.count 2) := by decide +kernel
  refine ⟨⟨enough, different, stores⟩, output ▸ further.output, further.written, ?_, ?_, ?_⟩
  · rw [there, ← here]
    exact two
  · have early : shorter.stopped ≠ none := by decide +kernel
    exact (final different).2.resolve_left early
  · have same : fuller = { shorter with args := shorter.args ++ [.int 5] } := more enough
    rw [same]
    decide +kernel

end FormattedOutput
