import FormattedOutput.Proofs.FloatRendering
import FormattedOutput.Proofs.IntegerConversion
import FormattedOutput.Proofs.Plan

/-!
# A budget for the length of an output

A width has 31 bits, so a directive writes no more than `maxCount` bytes and its argument, and it
takes up at least two bytes of the format. What is left of a format and the texts that are left
among the arguments therefore bound what is still written: together with the length written so far
they are a budget that no step of an interpretation exceeds.
-/

namespace FormattedOutput

/-- The length of a text argument. -/
def Arg.textLength : Arg → Nat
  | str bytes => bytes.length
  | _ => 0

/-- The length of all text arguments together. -/
def textLengths (args : List Arg) : Nat := (args.map Arg.textLength).sum

namespace Numeral

/-- A number of 64 bits needs at most 20 digits. -/
theorem length_ofNat_le_of_word (radix : Radix) {n : Nat} (small : n < 2 ^ 64) :
    (ofNat radix n).length ≤ 20 := by
  apply length_ofNat_le (by decide)
  calc n < 2 ^ 64 := small
    _ ≤ radix.base ^ 20 := by cases radix <;> decide

theorem length_ofInt_le_of_word {n : Int} (small : n.natAbs < 10 ^ 19) :
    (ofInt n).length ≤ 20 := by
  have digits : (ofNat .decimal n.natAbs).length ≤ 19 := length_ofNat_le (by decide) small
  rw [ofInt]
  split
  next => exact Nat.succ_le_succ digits
  next => exact Nat.le_succ_of_le digits

end Numeral

namespace Directive

variable {directive : Directive} {arg : Arg} {value : Bytes} {width : Int} {pad : Pad}

theorem length_integerText?_le (found : directive.integerText? arg = some value) :
    value.length ≤ 20 := by
  by_cases signed : directive.conversion = .signed
  · rw [integerText?_signed signed] at found
    obtain ⟨n, -, rfl⟩ := Option.map_eq_some_iff.mp found
    apply Numeral.length_ofInt_le_of_word
    rw [Int.bmod]
    rcases directive.bits_eq with bits | bits <;> rw [bits] <;> split <;> omega
  · rw [integerText?_unsigned signed] at found
    obtain ⟨n, -, rfl⟩ := Option.map_eq_some_iff.mp found
    apply Numeral.length_ofNat_le_of_word
    rcases directive.bits_eq with bits | bits <;> rw [bits] <;> omega

/-- The value in the field of a directive is its text argument, or has at most 28 bytes. -/
theorem length_le_of_render? (found : directive.render? arg = some (.field value width pad)) :
    width = directive.width ∧ value.length ≤ 28 + arg.textLength := by
  cases conversion : directive.conversion with
  | percent => simp [render?, conversion] at found
  | char => simp [render?, conversion] at found
  | count => cases arg <;> simp [render?, conversion] at found
  | str =>
    cases arg with
    | str bytes =>
      simp only [render?, conversion, Option.some.injEq, Rendering.field.injEq] at found
      obtain ⟨rfl, rfl, -⟩ := found
      exact ⟨rfl, Nat.le_trans (List.takeWhile_prefix _).length_le (Nat.le_add_left _ 28)⟩
    | _ => simp [render?, conversion] at found
  | float =>
    cases arg with
    | float number =>
      simp only [render?, conversion, Option.some.injEq, Rendering.field.injEq] at found
      obtain ⟨rfl, rfl, -⟩ := found
      exact ⟨rfl, number.length_text_le⟩
    | _ => simp [render?, conversion] at found
  | unsigned | signed | lowerHex | upperHex =>
    simp only [render?, conversion, Option.map_eq_some_iff, Rendering.field.injEq] at found
    obtain ⟨text, numeral, rfl, rfl, -⟩ := found
    have short := length_integerText?_le numeral
    exact ⟨rfl, by omega⟩

/-- A directive has a width of 31 bits. -/
theorem natAbs_width_le {features : Features} {spec : Bytes} {length : Nat}
    (found : read features spec = .directive directive length) :
    directive.width.natAbs ≤ maxCount ∧ 0 < length ∧ length ≤ spec.length := by
  obtain ⟨modifiers, byte, conversion, after, rfl, -, -, rfl, rfl⟩ :=
    exists_of_read_eq_directive found
  refine ⟨?_, Nat.succ_pos _, ?_⟩
  · have capped : min modifiers.digits.decimalValue maxCount ≤ maxCount := Nat.min_le_right _ _
    simp only [Modifiers.directive, Modifiers.width]
    split <;> omega
  · rw [List.length_append, List.length_cons]
    omega

end Directive

namespace Bounded

variable {σ : Type} [Sink σ]

theorem fst_put (out : Bounded σ) (byte : UInt8) : (out.put byte).1 = 1 :=
  (out.put_delivers byte).count

/-- A field is as long as it is wide, or as its value. -/
theorem fst_field (out : Bounded σ) (value : Bytes) (width : Int) (pad : Pad) :
    (out.field value width pad).1 = max width.natAbs value.length := by
  simp only [field, fill, putAll]
  split <;> simp only <;> omega

end Bounded

namespace Progress

variable {σ : Type}

/-- What is written in any case, and what is still written at most: the length of the output so far,
    what the rest of the format makes of its directives, and the texts among the arguments. -/
def budget (progress : Progress σ) (rest : Bytes) : Nat :=
  progress.written + rest.length * maxCount + textLengths progress.pending

theorem written_le_budget (progress : Progress σ) (rest : Bytes) :
    progress.written ≤ progress.budget rest := by
  rw [budget, Nat.add_assoc]
  exact Nat.le_add_right _ _

variable [Sink σ] {features : Features} {progress next : Progress σ} {directive : Directive}

/-- Everything that carrying out a directive can do. -/
theorem carryOut_cases (done : progress.carryOut directive = .ok next) :
    (directive.conversion = .percent ∧ next = progress.emit (progress.out.put '%'.toUInt8)) ∨
      ∃ arg rest rendering, progress.pending = arg :: rest ∧
        directive.render? arg = some rendering ∧ next = progress.perform arg rest rendering := by
  rw [carryOut] at done
  split at done
  next percent => exact Or.inl ⟨percent, (Except.ok.inj done).symm⟩
  next =>
    cases pending : progress.pending with
    | nil =>
      rw [pending] at done
      cases done
    | cons arg rest =>
      rw [pending] at done
      cases rendered : directive.render? arg with
      | none => simp [rendered] at done
      | some rendering =>
        simp only [rendered, Except.ok.injEq] at done
        exact Or.inr ⟨arg, rest, rendering, rfl, rendered, done.symm⟩

/-- A directive writes at most `maxCount` bytes and the text that it takes. -/
theorem written_le_of_carryOut (narrow : directive.width.natAbs ≤ maxCount)
    (done : progress.carryOut directive = .ok next) :
    next.written + textLengths next.pending ≤
      progress.written + maxCount + textLengths progress.pending := by
  have wide : 28 ≤ maxCount := by decide
  obtain ⟨-, rfl⟩ | ⟨arg, rest, rendering, pending, rendered, rfl⟩ := carryOut_cases done
  · simp only [emit, Bounded.fst_put]
    omega
  · have texts : textLengths progress.pending = arg.textLength + textLengths rest := by
      rw [pending, textLengths, List.map_cons, List.sum_cons]
      rfl
    rw [texts]
    cases rendering with
    | byte byte =>
      simp only [perform, emit, take, Bounded.fst_put]
      omega
    | field value width pad =>
      obtain ⟨rfl, short⟩ := Directive.length_le_of_render? rendered
      simp only [perform, emit, take, Bounded.fst_field]
      omega
    | count =>
      simp only [perform, take]
      omega

/-- From one point of an interpretation, with what is left of the format there, to the next. -/
inductive Next (features : Features) : Progress σ × Bytes → Progress σ × Bytes → Prop
  | literal {progress : Progress σ} {byte : UInt8} {rest : Bytes} (text : byte ≠ 0)
      (other : byte ≠ '%'.toUInt8) :
    Next features (progress, byte :: rest)
      ((progress.advance 1).emit (progress.out.put byte), rest)
  | directive {progress next : Progress σ} {directive : Directive} {length : Nat} {rest : Bytes}
      (read : Directive.read features rest = .directive directive length)
      (done : (progress.advance (1 + length)).carryOut directive = .ok next) :
    Next features (progress, '%'.toUInt8 :: rest) (next, rest.drop length)

/-- An interpretation goes on from the next point as from this one. -/
theorem run_eq_of_next {point later : Progress σ × Bytes} (h : Next features point later) :
    point.1.run features point.2 = later.1.run features later.2 := by
  cases h with
  | literal text other =>
    simp only
    rw [run, if_neg text, if_neg other]
  | directive read done =>
    simp only
    rw [run, if_neg (by decide), if_pos rfl]
    simp only [read, done]

/-- No step exceeds the budget. -/
theorem budget_le_of_next {point later : Progress σ × Bytes} (h : Next features point later) :
    later.1.budget later.2 ≤ point.1.budget point.2 := by
  cases h with
  | @literal progress byte rest text other =>
    have wide : 1 ≤ maxCount := by decide
    simp only [budget, emit, advance, Bounded.fst_put, List.length_cons, Nat.add_mul]
    omega
  | @directive progress next directive length rest read done =>
    obtain ⟨narrow, positive, inside⟩ := Directive.natAbs_width_le read
    have written := written_le_of_carryOut narrow done
    have shorter : (rest.drop length).length * maxCount + maxCount ≤
        (rest.length + 1) * maxCount := by
      rw [← Nat.succ_mul, List.length_drop]
      exact Nat.mul_le_mul_right _ (by omega)
    simp only [advance] at written
    simp only [budget, List.length_cons]
    omega

/-- A run keeps to the budget that it starts with, at every point that it passes. -/
theorem budget_le_of_reaches {point later : Progress σ × Bytes}
    (h : Relation.ReflTransGen (Next features) point later) :
    later.1.budget later.2 ≤ point.1.budget point.2 := by
  induction h with
  | refl => exact Nat.le_refl _
  | tail _ last ih => exact Nat.le_trans (budget_le_of_next last) ih

theorem run_eq_of_reaches {point later : Progress σ × Bytes}
    (h : Relation.ReflTransGen (Next features) point later) :
    point.1.run features point.2 = later.1.run features later.2 := by
  induction h with
  | refl => rfl
  | tail _ last ih => rw [ih, run_eq_of_next last]

/-- The length that a run answers is the one at the last point that it passes. -/
theorem exists_reaches_written_run (progress : Progress σ) (rest : Bytes) :
    ∃ later, Relation.ReflTransGen (Next features) (progress, rest) later ∧
      (progress.run features rest).written = later.1.written := by
  fun_induction run features progress rest with
  | case1 progress => exact ⟨_, .refl, rfl⟩
  | case2 progress rest => exact ⟨_, .refl, rfl⟩
  | case3 progress rest => exact ⟨_, .refl, rfl⟩
  | case4 progress rest => exact ⟨_, .refl, rfl⟩
  | case5 progress rest => exact ⟨_, .refl, rfl⟩
  | case6 progress rest directive length read moved next done nonzero ih =>
    obtain ⟨later, reached, same⟩ := ih
    exact ⟨later, .head (.directive read done) reached, same⟩
  | case7 progress byte rest text other ih =>
    obtain ⟨later, reached, same⟩ := ih
    exact ⟨later, .head (.literal text other) reached, same⟩

end Progress

/-- What a format and its arguments write at most. -/
def outputBound (format : Bytes) (args : List Arg) : Nat :=
  format.length * (2 ^ 31 - 1) + textLengths args

theorem length_le_outputBound (format : Bytes) (args : List Arg) :
    format.length ≤ outputBound format args :=
  Nat.le_trans (Nat.le_mul_of_pos_right _ (by decide)) (Nat.le_add_right _ _)

section Interpretation

variable {σ : Type} (sink : σ) (ceiling : Ceiling) (format : Bytes) (args : List Arg)

theorem budget_start :
    (Progress.start sink ceiling args).budget format = outputBound format args := by
  have most : maxCount = 2 ^ 31 - 1 := rfl
  simp only [Progress.budget, Progress.start, outputBound, most, Nat.zero_add]

variable [Sink σ] {features : Features}

/-- A run keeps to the bound at every point, and has the rest of the interpretation in front of it
    there. -/
theorem written_le_outputBound {sink ceiling format args} {point : Progress σ × Bytes}
    (reached : Relation.ReflTransGen (Progress.Next features)
      (Progress.start sink ceiling args, format) point) :
    point.1.written ≤ outputBound format args ∧
      interpret features sink ceiling format args = point.1.run features point.2 := by
  have kept := Progress.budget_le_of_reaches reached
  rw [budget_start] at kept
  exact ⟨Nat.le_trans (point.1.written_le_budget point.2) kept,
    Progress.run_eq_of_reaches reached⟩

end Interpretation

end FormattedOutput
