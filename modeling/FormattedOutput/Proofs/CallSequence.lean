import FormattedOutput.Proofs.Plan

/-!
# The calls of a format

Formatting into a sink without a ceiling makes a sequence of calls that depends on the format and
the arguments alone. The format is taken apart into its layout, the arguments are bound to the
directives, and the calls are those of the plan that comes of it; no sink has any influence on them.
-/

namespace FormattedOutput

variable {σ : Type} [Sink σ] {features : Features} {format : Bytes} {layout : Layout}

/-- The plan of a format is the plan of any well-formed layout that spells it. -/
theorem Plan.ofFormat_eq (wellFormed : layout.WellFormed features)
    (spelled : layout.text = format.untilNul) (args : List Arg) :
    Plan.ofFormat features format args = layout.plan args := by
  rw [Plan.ofFormat, ← spelled, Layout.ofText_text wellFormed]

/-- The length that is reported is that of all calls of the plan, whatever the ceiling. -/
theorem written_interpret (features : Features) (sink : σ) (ceiling : Ceiling) (format : Bytes)
    (args : List Arg) :
    (interpret features sink ceiling format args).written =
      (Sink.content (Plan.ofFormat features format args).calls).length := by
  rw [interpret_eq]

/-- A sink without a ceiling receives all calls of the plan. -/
theorem sink_formatTo (sink : σ) (args : List Arg)
    (fits : (formatTo features sink format args).written < 2 ^ 64) :
    (formatTo features sink format args).sink =
      Sink.applyAll sink (Plan.ofFormat features format args).calls := by
  rw [formatTo, written_interpret] at fits
  have room : (Sink.content (Plan.ofFormat features format args).calls).length ≤
      (Ceiling.unbounded).remaining := Nat.le_of_lt_succ fits
  rw [formatTo, interpret_eq]
  exact congrArg (Sink.applyAll sink) (Sink.clip_of_length_le room)

/-- A format has exactly one layout, and formatting into any sink makes the calls that the layout
    and the arguments ask for, in their order, and reports the number of their bytes. -/
theorem formatTo_applies_calls (features : Features) (format : Bytes) (args : List Arg) :
    (∃! layout : Layout, layout.WellFormed features ∧ layout.text = format.untilNul) ∧
      ∀ layout : Layout, layout.WellFormed features → layout.text = format.untilNul →
        ∀ (σ : Type) [Sink σ] (sink : σ),
          (formatTo features sink format args).written < 2 ^ 64 →
            (formatTo features sink format args).sink =
                Sink.applyAll sink (layout.plan args).calls ∧
              (formatTo features sink format args).written =
                (Sink.content (layout.plan args).calls).length := by
  refine ⟨Layout.existsUnique_layout features (Bytes.zero_notMem_untilNul format), ?_⟩
  intro layout wellFormed spelled σ _ sink fits
  rw [← Plan.ofFormat_eq wellFormed spelled args]
  exact ⟨sink_formatTo sink args fits, written_interpret features sink .unbounded format args⟩

/-- A string on the left of its field, a literal byte, a number behind a zero and a count, after
    which the format ends at its NUL. -/
theorem formatTo_applies_calls_log :
    let format := Bytes.ofString "%-4s|%03d%n\x00%s"
    let args := [.str (Bytes.ofString "ab"), .int (-7), .count 9]
    let outcome := formatTo .full CallLog.empty format args
    outcome.written < 2 ^ 64 ∧ outcome.written = 8 ∧
      outcome.sink.calls =
        [.putAll (Bytes.ofString "ab"), .put 32, .put 32, .put 124, .put 48,
          .putAll (Bytes.ofString "-7")] := by
  intro format args outcome
  have fits : outcome.written < 2 ^ 64 := by decide +kernel
  have applied := (formatTo_applies_calls .full format args).2
    (Layout.ofText .full format.untilNul)
    (Layout.wellFormed_ofText .full _ (Bytes.zero_notMem_untilNul format))
    (Layout.text_ofText .full _) CallLog CallLog.empty fits
  refine ⟨fits, ?_, ?_⟩
  · rw [applied.2]
    decide +kernel
  · rw [applied.1]
    decide +kernel

end FormattedOutput
