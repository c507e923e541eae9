import FormattedOutput.Proofs.Composition

/-!
# How a plan begins

The first byte of a format, and behind a percent sign what is read as a directive and the next
argument, say how the plan of the format begins. There are five ways, and each of them but the end
of the format and a directive that is refused leaves a format and arguments whose plan goes on.
-/

namespace FormattedOutput

/-- The step of a directive that reads so much of the format, and the arguments that are left behind
    it, or why there is none. -/
def Directive.bind (directive : Directive) (length : Nat) (args : List Arg) :
    Except Stop (Step × List Arg) :=
  if directive.conversion = .percent then .ok (.text '%'.toUInt8 length, args)
  else
    match args with
    | [] => .error .missingArgument
    | arg :: rest =>
      match directive.render? arg with
      | none => .error (.mismatch directive.conversion)
      | some rendering => .ok (.convert arg rendering length, rest)

namespace Directive

variable {directive : Directive}

theorem bind_percent (percent : directive.conversion = .percent) (length : Nat)
    (args : List Arg) : directive.bind length args = .ok (.text '%'.toUInt8 length, args) := by
  simp only [bind, percent, if_true]

theorem bind_nil (asks : directive.conversion ≠ .percent) (length : Nat) :
    directive.bind length [] = .error .missingArgument := by
  simp only [bind, asks, if_false]

theorem bind_cons (asks : directive.conversion ≠ .percent) (length : Nat) (arg : Arg)
    (rest : List Arg) : directive.bind length (arg :: rest) =
      match directive.render? arg with
      | none => .error (.mismatch directive.conversion)
      | some rendering => .ok (.convert arg rendering length, rest) := by
  simp only [bind, asks, if_false]

end Directive

theorem Segment.bind_directive (modifiers : Modifiers) (byte : UInt8) (conversion : Conversion)
    (args : List Arg) : (directive modifiers byte conversion).bind args =
      (modifiers.directive conversion).bind (directive modifiers byte conversion).text.length
        args := by
  simp only [bind, Directive.bind, Directive.render?_eq_effect?]
  rfl

/-- Why the directive in front of which so many arguments are pending has no effect, `spec` being
    the text behind its percent sign, and how much of the format is read from that sign on. -/
inductive Refuses (features : Features) (spec : Bytes) (pending : List Arg) : Stop → Nat → Prop
  | unsupported {byte : UInt8} (found : Directive.read features spec = .unsupported byte) :
    Refuses features spec pending (.unsupported byte) 1
  | truncated (found : Directive.read features spec = .truncated) :
    Refuses features spec pending .truncated 1
  | missingArgument {directive : Directive} {length : Nat}
      (found : Directive.read features spec = .directive directive length)
      (asks : directive.conversion ≠ .percent) (empty : pending = []) :
    Refuses features spec pending .missingArgument (1 + length)
  | mismatch {directive : Directive} {length : Nat} {arg : Arg} {rest : List Arg}
      (found : Directive.read features spec = .directive directive length)
      (asks : directive.conversion ≠ .percent) (next : pending = arg :: rest)
      (unfit : directive.render? arg = none) :
    Refuses features spec pending (.mismatch directive.conversion) (1 + length)

namespace Plan

variable {features : Features} {args : List Arg} {spec : Bytes}

theorem ofFormat_segment (segment : Segment) (h : segment.WellFormed features) (back : Bytes)
    (args : List Arg) : ofFormat features (segment.text ++ back) args =
      match segment.bind args with
      | .error stop => ⟨[], some stop, segment.text.length⟩
      | .ok (step, left) => (ofFormat features back left).prepend step := by
  rw [ofFormat, Bytes.untilNul_append h.zero_notMem_text, Layout.ofText_segment h, Layout.plan,
    Layout.segments_prepend, Layout.ending_prepend, List.singleton_append, Layout.planFrom]
  rfl

theorem ofFormat_literal {byte : UInt8} (nonzero : byte ≠ 0) (other : byte ≠ '%'.toUInt8)
    (back : Bytes) (args : List Arg) :
    ofFormat features (byte :: back) args = (ofFormat features back args).prepend (.text byte 1) :=
  ofFormat_segment (.literal byte) ⟨nonzero, other⟩ back args

/-- A complete directive is bound, and the plan goes on behind it. -/
theorem ofFormat_directive {directive : Directive} {length : Nat}
    (found : Directive.read features spec = .directive directive length) (args : List Arg) :
    ofFormat features ('%'.toUInt8 :: spec) args =
      match directive.bind (1 + length) args with
      | .error stop => ⟨[], some stop, 1 + length⟩
      | .ok (step, left) => (ofFormat features (spec.drop length) left).prepend step := by
  obtain ⟨modifiers, byte, conversion, after, rfl, greedy, supported, rfl, rfl⟩ :=
    Directive.exists_of_read_eq_directive found
  have whole := ofFormat_segment (.directive modifiers byte conversion) ⟨greedy, supported⟩ after
    args
  have size : (Segment.directive modifiers byte conversion).text.length =
      1 + (modifiers.text.length + 1) := by
    simp only [Segment.text, List.length_cons, List.length_append, List.length_nil]
    omega
  have dropped : (modifiers.text ++ byte :: after).drop (modifiers.text.length + 1) = after := by
    simp [List.drop_append]
  rw [Segment.bind_directive, size] at whole
  rw [dropped, ← whole]
  simp [Segment.text]

/-- A directive that ends with the format, or has no conversion, ends the plan. -/
theorem ofFormat_malformed {stop : Stop}
    (found : Directive.read features spec = .truncated ∧ stop = .truncated ∨
      ∃ byte, Directive.read features spec = .unsupported byte ∧ stop = .unsupported byte)
    (args : List Arg) : ofFormat features ('%'.toUInt8 :: spec) args = ⟨[], some stop, 1⟩ := by
  have read := Directive.read_of_untilNul (Modifiers.split_greedyBefore features spec.untilNul)
    (Modifiers.text_split features spec.untilNul)
  have spelled : Bytes.untilNul ('%'.toUInt8 :: spec) = '%'.toUInt8 :: spec.untilNul := rfl
  rw [read] at found
  rw [ofFormat, spelled]
  generalize split : Modifiers.split features spec.untilNul = parts at found
  obtain ⟨modifiers, rest⟩ := parts
  cases rest with
  | nil =>
    rcases found with ⟨-, rfl⟩ | ⟨byte, found, -⟩
    · rw [Layout.ofText_truncated split]
      rfl
    · cases found
  | cons first after =>
    have nonzero : first ≠ 0 := by
      rintro rfl
      have whole := Modifiers.text_split features spec.untilNul
      rw [split] at whole
      exact spec.zero_notMem_untilNul (whole ▸ by simp)
    cases supported : Conversion.ofByte? features first with
    | some conversion => simp [Modifiers.conclude, nonzero, supported] at found
    | none =>
      simp only [Modifiers.conclude, nonzero, if_false, supported, reduceCtorEq, false_and,
        false_or, Parsed.unsupported.injEq, exists_eq_left'] at found
      rw [Layout.ofText_unsupported split supported, found]
      rfl

end Plan

theorem Refuses.ofFormat_eq {features : Features} {spec : Bytes} {pending : List Arg} {stop : Stop}
    {length : Nat} (h : Refuses features spec pending stop length) :
    Plan.ofFormat features ('%'.toUInt8 :: spec) pending = ⟨[], some stop, length⟩ := by
  cases h with
  | unsupported found => exact Plan.ofFormat_malformed (Or.inr ⟨_, found, rfl⟩) pending
  | truncated found => exact Plan.ofFormat_malformed (Or.inl ⟨found, rfl⟩) pending
  | missingArgument found asks empty =>
    rw [Plan.ofFormat_directive found, empty, Directive.bind_nil asks]
  | mismatch found asks next unfit =>
    rw [Plan.ofFormat_directive found, next, Directive.bind_cons asks, unfit]

/-- How the plan of a format begins. -/
inductive Plan.Begins (features : Features) : Bytes → List Arg → Plan → Prop
  | ended {format : Bytes} {args : List Arg}
      (ends : format.head? = none ∨ format.head? = some 0) :
    Begins features format args ⟨[], none, 0⟩
  | literal {byte : UInt8} {rest : Bytes} {args : List Arg} (nonzero : byte ≠ 0)
      (other : byte ≠ '%'.toUInt8) :
    Begins features (byte :: rest) args ((ofFormat features rest args).prepend (.text byte 1))
  | refused {spec : Bytes} {args : List Arg} {stop : Stop} {length : Nat}
      (refused : Refuses features spec args stop length) :
    Begins features ('%'.toUInt8 :: spec) args ⟨[], some stop, length⟩
  | percent {spec : Bytes} {args : List Arg} {directive : Directive} {length : Nat}
      (found : Directive.read features spec = .directive directive length)
      (percent : directive.conversion = .percent) :
    Begins features ('%'.toUInt8 :: spec) args
      ((ofFormat features (spec.drop length) args).prepend (.text '%'.toUInt8 (1 + length)))
  | convert {spec : Bytes} {arg : Arg} {rest : List Arg} {directive : Directive} {length : Nat}
      {rendering : Rendering}
      (found : Directive.read features spec = .directive directive length)
      (asks : directive.conversion ≠ .percent) (fits : directive.render? arg = some rendering) :
    Begins features ('%'.toUInt8 :: spec) (arg :: rest)
      ((ofFormat features (spec.drop length) rest).prepend (.convert arg rendering (1 + length)))

namespace Plan

variable {features : Features}

theorem begins_directive {spec : Bytes} {directive : Directive} {length : Nat}
    (found : Directive.read features spec = .directive directive length) (args : List Arg) :
    Begins features ('%'.toUInt8 :: spec) args (ofFormat features ('%'.toUInt8 :: spec) args) := by
  by_cases percent : directive.conversion = .percent
  · rw [ofFormat_directive found, Directive.bind_percent percent]
    exact .percent found percent
  cases args with
  | nil =>
    have refused : Refuses features spec [] .missingArgument _ :=
      .missingArgument found percent rfl
    rw [refused.ofFormat_eq]
    exact .refused refused
  | cons arg rest =>
    cases fits : directive.render? arg with
    | none =>
      have refused : Refuses features spec (arg :: rest) _ _ := .mismatch found percent rfl fits
      rw [refused.ofFormat_eq]
      exact .refused refused
    | some rendering =>
      rw [ofFormat_directive found, Directive.bind_cons percent, fits]
      exact .convert found percent fits

/-- Every plan begins in one of these ways. -/
theorem begins (features : Features) (format : Bytes) (args : List Arg) :
    Begins features format args (ofFormat features format args) := by
  cases format with
  | nil =>
    rw [ofFormat_nil]
    exact .ended (Or.inl rfl)
  | cons byte rest =>
    by_cases nul : byte = 0
    · rw [nul, ofFormat_zero]
      exact .ended (Or.inr rfl)
    by_cases percent : byte = '%'.toUInt8
    · rw [percent]
      cases found : Directive.read features rest with
      | directive directive length => exact begins_directive found args
      | unsupported byte =>
        have refused : Refuses features rest args _ _ := .unsupported found
        rw [refused.ofFormat_eq]
        exact .refused refused
      | truncated =>
        have refused : Refuses features rest args _ _ := .truncated found
        rw [refused.ofFormat_eq]
        exact .refused refused
    · rw [ofFormat_literal nul percent]
      exact .literal nul percent

end Plan

end FormattedOutput
