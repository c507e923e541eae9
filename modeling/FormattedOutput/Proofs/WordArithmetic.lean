import FormattedOutput.Proofs.Bytewise
import FormattedOutput.Proofs.CallSequence
import FormattedOutput.Proofs.OutputBudget
import FormattedOutput.WordMachine

/-!
# Words that are wide enough

As long as the budget of an output is below the size of a word, an interpretation on words gives the
result of the one on numbers: no sum is too large, no difference below zero and no part of a text
outside of it. Each operation is shown to do on words what it does on numbers, from the one fact
that its own component keeps to itself; a run then keeps to its budget.
-/

namespace FormattedOutput.WordMachine

variable {bits : Nat}

theorem add?_eq {first second : Nat} (fits : first + second < 2 ^ bits) :
    add? bits first second = some (first + second) := if_pos fits

theorem sub?_eq {first second : Nat} (order : second ≤ first) :
    sub? first second = some (first - second) := if_pos order

theorem slice?_take {text : Bytes} {stop : Nat} (inside : stop ≤ text.length) :
    slice? text 0 stop = some (text.take stop) := by
  rw [slice?, if_pos ⟨Nat.zero_le _, inside⟩, List.drop_zero]

theorem slice?_drop {text : Bytes} {start : Nat} (inside : start ≤ text.length) :
    slice? text start text.length = some (text.drop start) := by
  rw [slice?, if_pos ⟨inside, Nat.le_refl _⟩, List.take_length]

theorem overwrite?_eq {text part : Bytes} {start : Nat}
    (inside : start + part.length ≤ text.length) :
    overwrite? text start (start + part.length) part =
      some (text.take start ++ part ++ text.drop (start + part.length)) := by
  rw [overwrite?, slice?, if_pos ⟨Nat.le_add_right _ _, inside⟩, Option.bind_some, if_pos]
  rw [List.length_drop, List.length_take]
  omega

/-- The words of a ceiling. -/
def RawCeiling.of (ceiling : Ceiling) : RawCeiling := ⟨ceiling.deposited, ceiling.cap⟩

namespace RawCeiling

variable {ceiling : Ceiling}

/-- No difference is below zero, as no ceiling lets through more than it may. -/
theorem remaining?_of (ceiling : Ceiling) :
    (of ceiling).remaining? = some ceiling.remaining := sub?_eq ceiling.deposited_le

theorem claimOne?_of (fits : ceiling.cap < 2 ^ bits) :
    (of ceiling).claimOne? bits = some (ceiling.claimOne.1, of ceiling.claimOne.2) := by
  by_cases room : ceiling.deposited < ceiling.cap
  · have sum : ceiling.deposited + 1 < 2 ^ bits := Nat.lt_of_le_of_lt room fits
    simp only [claimOne?, of, Ceiling.claimOne, room, if_true, dif_pos, add?_eq sum,
      Option.map_some]
  · simp only [claimOne?, of, Ceiling.claimOne, room, if_false, dif_neg, not_false_eq_true]

theorem claimMany?_of (fits : ceiling.cap < 2 ^ bits) (n : Nat) :
    (of ceiling).claimMany? bits n =
      some ((ceiling.claimMany n).1, of (ceiling.claimMany n).2) := by
  have granted := (ceiling.claimMany n).2.deposited_le
  have sum : ceiling.deposited + min n ceiling.remaining < 2 ^ bits :=
    Nat.lt_of_le_of_lt granted fits
  simp only [claimMany?, remaining?_of, Option.bind_eq_bind, Option.bind_some]
  rw [show (of ceiling).deposited = ceiling.deposited from rfl, add?_eq sum]
  rfl

end RawCeiling

/-- A port does what a sink does, as long as the states of the sink are good. -/
structure Follows {σ ρ : Type} [Sink σ] (port : Port ρ) (raw : σ → ρ) (good : σ → Prop) : Prop where
  put : ∀ sink byte, good sink →
    port.put? (raw sink) byte = some (raw (Sink.put sink byte)) ∧ good (Sink.put sink byte)
  putAll : ∀ sink bytes, good sink →
    port.putAll? (raw sink) bytes = some (raw (Sink.putAll sink bytes)) ∧
      good (Sink.putAll sink bytes)

theorem follows_ofSink (σ : Type) [Sink σ] : Follows (Port.ofSink σ) id fun _ => True :=
  ⟨fun _ _ _ => ⟨rfl, trivial⟩, fun _ _ _ => ⟨rfl, trivial⟩⟩

/-- The words of a cursor. -/
def RawCursor.of (cursor : Cursor) : RawCursor := ⟨cursor.buffer, cursor.position⟩

namespace RawCursor

theorem put?_of {cursor : Cursor} (fits : cursor.buffer.size < 2 ^ bits) (byte : UInt8) :
    (of cursor).put? bits byte = some (of (cursor.put byte)) := by
  by_cases room : cursor.position < cursor.buffer.size
  · have sum : cursor.position + 1 < 2 ^ bits := Nat.lt_of_le_of_lt room fits
    simp only [put?, of, Cursor.put, room, dif_pos, add?_eq sum, Option.map_some]
  · rw [put?, dif_neg (show ¬ (of cursor).position < (of cursor).buffer.size from room), Cursor.put,
      dif_neg room]

theorem putAll?_of {cursor : Cursor} (fits : cursor.buffer.size < 2 ^ bits) (bytes : Bytes) :
    (of cursor).putAll? bits bytes = some (of (cursor.putAll bytes)) := by
  have inside := cursor.position_le
  have length : (bytes.take (min bytes.length (cursor.buffer.size - cursor.position))).length =
      min bytes.length (cursor.buffer.size - cursor.position) := by
    rw [List.length_take]
    omega
  have same : bytes.take (min bytes.length (cursor.buffer.size - cursor.position)) =
      bytes.take (cursor.buffer.size - cursor.position) :=
    List.take_eq_take_iff.mpr (by omega)
  have stored : overwrite? cursor.buffer.toList cursor.position
      (cursor.position + min bytes.length (cursor.buffer.size - cursor.position))
      (bytes.take (min bytes.length (cursor.buffer.size - cursor.position))) =
        some (cursor.putAll bytes).buffer.toList := by
    have size : cursor.buffer.toList.length = cursor.buffer.size := Array.length_toList
    have fits : cursor.position +
        (bytes.take (min bytes.length (cursor.buffer.size - cursor.position))).length ≤
          cursor.buffer.toList.length := by
      omega
    have window := overwrite?_eq fits
    rw [length] at window
    rw [window, cursor.toList_buffer_putAll, same, Nat.min_comm bytes.length]
  have sum : cursor.position + min bytes.length (cursor.buffer.size - cursor.position) <
      2 ^ bits := by
    omega
  have moved : (cursor.putAll bytes).position =
      cursor.position + min bytes.length (cursor.buffer.size - cursor.position) := by
    rw [cursor.position_putAll, Nat.min_comm]
  simp only [putAll?, of, sub?_eq inside, Option.bind_eq_bind, Option.bind_some, add?_eq sum,
    slice?_take (Nat.min_le_left _ _), stored, moved]
  rfl

end RawCursor

/-- A cursor stays inside its buffer, so a word that holds the size of the buffer holds all its
    positions. -/
theorem follows_port (bits : Nat) :
    Follows (RawCursor.port bits) RawCursor.of fun cursor => cursor.buffer.size < 2 ^ bits := by
  refine ⟨?_, ?_⟩
  · intro cursor byte fits
    refine ⟨RawCursor.put?_of fits byte, ?_⟩
    have size : (cursor.put byte).buffer.size = cursor.buffer.size := by
      rw [Cursor.put]
      split
      next room => exact Array.size_set room
      next => rfl
    exact size ▸ fits
  · intro cursor bytes fits
    exact ⟨RawCursor.putAll?_of fits bytes, cursor.size_buffer_putAll bytes ▸ fits⟩

section Operations

variable {σ ρ : Type} [Sink σ] {port : Port ρ} {raw : σ → ρ} {good : σ → Prop}
  (follows : Follows port raw good)

/-- The words of an output. -/
def RawOutput.of (raw : σ → ρ) (out : Bounded σ) : RawOutput ρ :=
  ⟨raw out.sink, RawCeiling.of out.ceiling⟩

/-- An output whose sink is good and whose ceiling is a word. -/
structure Ready (bits : Nat) (good : σ → Prop) (out : Bounded σ) : Prop where
  sink : good out.sink
  ceiling : out.ceiling.cap < 2 ^ bits

include follows

theorem fill?_raw {sink : σ} (ready : good sink) (byte : UInt8) (count : Nat) :
    port.fill? (raw sink) byte count = some (raw (Sink.fill sink byte count)) ∧
      good (Sink.fill sink byte count) := by
  induction count with
  | zero => exact ⟨rfl, ready⟩
  | succ count ih =>
    obtain ⟨filled, still⟩ := ih
    rw [Port.fill?, filled, Option.bind_some]
    exact follows.put _ _ still

namespace RawOutput

variable {out : Bounded σ}

theorem put?_of (ready : Ready bits good out) (byte : UInt8) :
    (of raw out).put? bits port byte = some ((out.put byte).1, of raw (out.put byte).2) ∧
      Ready bits good (out.put byte).2 := by
  have claimed := RawCeiling.claimOne?_of ready.ceiling
  have cap : (out.put byte).2.ceiling.cap = out.ceiling.cap := by
    rw [(out.put_delivers byte).ceiling, Ceiling.cap_claimMany]
  obtain ⟨stored, still⟩ := follows.put out.sink byte ready.sink
  simp only [put?, of, claimed, Option.bind_some]
  cases claim : out.ceiling.claimOne with
  | mk granted ceiling =>
    have result : out.put byte =
        (1, ⟨if granted then Sink.put out.sink byte else out.sink, ceiling⟩) := by
      rw [Bounded.put, claim]
      cases granted <;> rfl
    rw [result] at cap ⊢
    cases granted with
    | true => exact ⟨by simp only [if_true, stored, Option.map_some], still, cap ▸ ready.ceiling⟩
    | false => exact ⟨rfl, ready.sink, cap ▸ ready.ceiling⟩

theorem putAll?_of (ready : Ready bits good out) (bytes : Bytes) :
    (of raw out).putAll? bits port bytes =
        some ((out.putAll bytes).1, of raw (out.putAll bytes).2) ∧
      Ready bits good (out.putAll bytes).2 := by
  obtain ⟨stored, still⟩ := follows.putAll out.sink
    (bytes.take (out.ceiling.claimMany bytes.length).1) ready.sink
  have claimed := RawCeiling.claimMany?_of ready.ceiling bytes.length
  refine ⟨?_, still, ready.ceiling⟩
  simp only [putAll?, of, claimed, Option.bind_eq_bind, Option.bind_some,
    slice?_take (out.ceiling.claimMany_fst_le bytes.length), stored]
  rfl

theorem fill?_of (ready : Ready bits good out) (byte : UInt8) (count : Nat) :
    (of raw out).fill? bits port byte count =
        some ((out.fill byte count).1, of raw (out.fill byte count).2) ∧
      Ready bits good (out.fill byte count).2 := by
  obtain ⟨filled, still⟩ := fill?_raw follows ready.sink byte (out.ceiling.claimMany count).1
  have claimed := RawCeiling.claimMany?_of ready.ceiling count
  refine ⟨?_, still, ready.ceiling⟩
  simp only [fill?, of, claimed, Option.bind_eq_bind, Option.bind_some, filled]
  rfl

theorem field?_of (ready : Ready bits good out) {value : Bytes} {width : Int} {pad : Pad}
    (fits : (out.field value width pad).1 < 2 ^ bits) :
    (of raw out).field? bits port value width pad =
        some ((out.field value width pad).1, of raw (out.field value width pad).2) ∧
      Ready bits good (out.field value width pad).2 := by
  have length := out.fst_field value width pad
  have narrow : width.natAbs % 2 ^ bits = width.natAbs := Nat.mod_eq_of_lt (by omega)
  have sum : width.natAbs - value.length + value.length < 2 ^ bits := by omega
  rw [field?, Bounded.field, narrow]
  split
  next =>
    obtain ⟨filled, between⟩ := fill?_of follows ready pad.byte (width.natAbs - value.length)
    obtain ⟨stored, last⟩ := putAll?_of follows between value
    refine ⟨?_, last⟩
    simp only [filled, stored, Option.bind_eq_bind, Option.bind_some]
    simp only [Bounded.fill, Bounded.putAll, add?_eq sum, Option.bind_some]
    rfl
  next =>
    obtain ⟨stored, between⟩ := putAll?_of follows ready value
    obtain ⟨filled, last⟩ := fill?_of follows between Pad.space.byte (width.natAbs - value.length)
    refine ⟨?_, last⟩
    rw [Nat.add_comm] at sum
    simp only [filled, stored, Option.bind_eq_bind, Option.bind_some]
    simp only [Bounded.fill, Bounded.putAll, add?_eq sum, Option.bind_some]
    rfl

end RawOutput

namespace State

/-- The words of a point of an interpretation. -/
def of (raw : σ → ρ) (progress : Progress σ) : State ρ where
  out := RawOutput.of raw progress.out
  written := progress.written
  position := progress.position
  taken := progress.taken
  pending := progress.pending

variable {progress next : Progress σ}

omit [Sink σ] follows in
theorem emit?_of {result : Nat × Bounded σ} (fits : progress.written + result.1 < 2 ^ bits) :
    (of raw progress).emit? bits (result.1, RawOutput.of raw result.2) =
      some (of raw (progress.emit result)) := by
  have sum : add? bits (of raw progress).written result.1 = some (progress.written + result.1) :=
    add?_eq fits
  rw [emit?, sum, Option.map_some]
  rfl

/-- Whatever a directive asks for is done on words if the length behind it is a word. -/
theorem perform?_of (ready : Ready bits good progress.out) {arg : Arg} {rest : List Arg}
    {rendering : Rendering}
    (fits : (progress.perform arg rest rendering).written < 2 ^ bits) :
    (of raw progress).perform? bits port arg rest rendering =
        some (of raw (progress.perform arg rest rendering)) ∧
      Ready bits good (progress.perform arg rest rendering).out := by
  have out_of : (of raw progress).out = RawOutput.of raw progress.out := rfl
  have take_of : ∀ arg, (of raw progress).take arg rest = of raw (progress.take arg rest) :=
    fun _ => rfl
  cases rendering with
  | byte byte =>
    obtain ⟨put, still⟩ := RawOutput.put?_of follows ready byte
    refine ⟨?_, still⟩
    rw [perform?, out_of, put, Option.bind_some, take_of]
    exact emit?_of fits
  | field value width pad =>
    have length : (progress.out.field value width pad).1 < 2 ^ bits :=
      Nat.lt_of_le_of_lt (Nat.le_add_left _ progress.written) fits
    obtain ⟨put, still⟩ := RawOutput.field?_of follows ready length
    refine ⟨?_, still⟩
    rw [perform?, out_of, put, Option.bind_some, take_of]
    exact emit?_of fits
  | count =>
    refine ⟨?_, ready⟩
    have nothing : (progress.take (.count progress.slot) rest).written +
        ((0, progress.out) : Nat × Bounded σ).1 < 2 ^ bits := fits
    exact emit?_of nothing

/-- A directive is carried out on words, or refused as it is on numbers. -/
theorem carryOut?_of (ready : Ready bits good progress.out) {directive : Directive}
    (fits : ∀ next, progress.carryOut directive = .ok next → next.written < 2 ^ bits) :
    (of raw progress).carryOut? bits port directive =
        some ((progress.carryOut directive).map (of raw)) ∧
      ∀ next, progress.carryOut directive = .ok next → Ready bits good next.out := by
  have pending_of : (of raw progress).pending = progress.pending := rfl
  rw [carryOut?, pending_of]
  rw [Progress.carryOut] at fits ⊢
  by_cases percent : directive.conversion = .percent
  · rw [if_pos percent] at fits ⊢
    have length : progress.written + (progress.out.put '%'.toUInt8).1 < 2 ^ bits := fits _ rfl
    obtain ⟨put, still⟩ := RawOutput.put?_of follows ready '%'.toUInt8
    have out_of : (of raw progress).out = RawOutput.of raw progress.out := rfl
    rw [if_pos percent, out_of, put, Option.bind_some, emit?_of length]
    refine ⟨rfl, ?_⟩
    rintro next ⟨⟩
    exact still
  · rw [if_neg percent] at fits ⊢
    rw [if_neg percent]
    cases pending : progress.pending with
    | nil =>
      refine ⟨rfl, ?_⟩
      rintro next ⟨⟩
    | cons arg rest =>
      cases rendered : directive.render? arg with
      | none =>
        simp only [rendered]
        refine ⟨rfl, ?_⟩
        rintro next ⟨⟩
      | some rendering =>
        simp only [pending, rendered] at fits ⊢
        obtain ⟨performed, still⟩ := perform?_of follows ready (fits _ rfl)
        rw [performed]
        refine ⟨rfl, ?_⟩
        rintro next ⟨⟩
        exact still

end State

end Operations

namespace State

section Reading

variable {ρ : Type} {port : Port ρ} {features : Features} {format : Bytes} {state next : State ρ}
  {stopped : Option Stop}

theorem run?_of_ended (step : state.step? bits port features format = some (.ended next stopped)) :
    state.run? bits port features format = some (next.finish stopped) := by
  rw [run?, step]

theorem run?_of_more (step : state.step? bits port features format = some (.more next))
    (onward : state.position < next.position) (inside : next.position ≤ format.length) :
    state.run? bits port features format = next.run? bits port features format := by
  rw [run?, step]
  simp only [onward, inside, and_self, if_true]

theorem step?_of_nil (here : format.drop state.position = []) :
    state.step? bits port features format = some (.ended state none) := by
  have last : format[state.position]? = none := by rw [← List.head?_drop, here, List.head?_nil]
  rw [step?, last]

variable {byte : UInt8} {rest : Bytes} (here : format.drop state.position = byte :: rest)
include here

theorem getElem?_of_drop : format[state.position]? = some byte := by
  rw [← List.head?_drop, here, List.head?_cons]

theorem position_lt : state.position < format.length := by
  by_contra behind
  rw [List.drop_eq_nil_of_le (Nat.le_of_not_lt behind)] at here
  cases here

theorem drop_succ : format.drop (state.position + 1) = rest := by
  rw [← List.drop_drop, here, List.drop_succ_cons, List.drop_zero]

theorem step?_of_zero (zero : byte = 0) :
    state.step? bits port features format = some (.ended state none) := by
  rw [step?, getElem?_of_drop here]
  simp only [zero, if_true]

variable (long : format.length < 2 ^ bits)
include long

theorem step?_of_literal (text : byte ≠ 0) (other : byte ≠ '%'.toUInt8) :
    state.step? bits port features format =
      ((state.out.put? bits port byte).bind
        ({ state with position := state.position + 1 }.emit? bits)).map .more := by
  have sum : state.position + 1 < 2 ^ bits := Nat.lt_of_le_of_lt (position_lt here) long
  rw [step?, getElem?_of_drop here]
  simp only [text, other, if_false, add?_eq sum, Option.bind_some]

end Reading

section Percent

variable {ρ : Type} {port : Port ρ} {features : Features} {format rest : Bytes}
  {state next : State ρ}
  (here : format.drop state.position = '%'.toUInt8 :: rest) (long : format.length < 2 ^ bits)
include here long

/-- The text behind a percent sign is read as a directive. -/
theorem step?_of_percent :
    state.step? bits port features format =
      { state with position := state.position + 1 }.directive? bits port features format := by
  have sum : state.position + 1 < 2 ^ bits := Nat.lt_of_le_of_lt (position_lt here) long
  have nonzero : '%'.toUInt8 ≠ 0 := by decide
  rw [step?, getElem?_of_drop here]
  simp only [nonzero, if_true, if_false, add?_eq sum, Option.bind_some]

omit long in
theorem slice?_of_drop : slice? format (state.position + 1) format.length = some rest := by
  rw [slice?_drop (position_lt here), drop_succ here]

theorem step?_of_unsupported {byte : UInt8}
    (read : Directive.read features rest = .unsupported byte) :
    state.step? bits port features format =
      some (.ended { state with position := state.position + 1 } (some (.unsupported byte))) := by
  rw [step?_of_percent here long, directive?, slice?_of_drop here]
  simp only [Option.bind_eq_bind, Option.bind_some, read]
  rfl

theorem step?_of_truncated (read : Directive.read features rest = .truncated) :
    state.step? bits port features format =
      some (.ended { state with position := state.position + 1 } (some .truncated)) := by
  rw [step?_of_percent here long, directive?, slice?_of_drop here]
  simp only [Option.bind_eq_bind, Option.bind_some, read]
  rfl

variable {directive : Directive} {length : Nat}
  (read : Directive.read features rest = .directive directive length)
include read

omit long in
/-- A directive does not reach past the end of the format. -/
theorem position_add_le : state.position + (1 + length) ≤ format.length := by
  have behind := congrArg List.length here
  obtain ⟨-, -, inside⟩ := Directive.natAbs_width_le read
  rw [List.length_drop, List.length_cons] at behind
  omega

theorem step?_of_refused {stop : Stop}
    (refused : { state with position := state.position + (1 + length) }.carryOut? bits port
      directive = some (.error stop)) :
    state.step? bits port features format =
      some (.ended { state with position := state.position + (1 + length) } (some stop)) := by
  have sum : state.position + (1 + length) < 2 ^ bits :=
    Nat.lt_of_le_of_lt (position_add_le here read) long
  rw [← Nat.add_assoc] at sum refused ⊢
  rw [step?_of_percent here long, directive?, slice?_of_drop here]
  simp only [Option.bind_eq_bind, Option.bind_some, read, add?_eq sum, refused]
  rfl

theorem step?_of_done
    (done : { state with position := state.position + (1 + length) }.carryOut? bits port
      directive = some (.ok next)) :
    state.step? bits port features format = some (.more next) := by
  have sum : state.position + (1 + length) < 2 ^ bits :=
    Nat.lt_of_le_of_lt (position_add_le here read) long
  rw [← Nat.add_assoc] at sum done
  rw [step?_of_percent here long, directive?, slice?_of_drop here]
  simp only [Option.bind_eq_bind, Option.bind_some, read, add?_eq sum, done]
  rfl

end Percent

end State

section Run

variable {σ ρ : Type} [Sink σ] {port : Port ρ} {raw : σ → ρ} {good : σ → Prop}
  (follows : Follows port raw good) {features : Features} {format : Bytes}

theorem position_of_carryOut {progress next : Progress σ} {directive : Directive}
    (done : progress.carryOut directive = .ok next) : next.position = progress.position := by
  obtain ⟨-, rfl⟩ | ⟨arg, rest, rendering, -, -, rfl⟩ := Progress.carryOut_cases done
  · rfl
  · cases rendering <;> rfl

include follows

/-- On words that hold the budget, a step leads to the point that it leads to on numbers, and reads
    on inside the format. -/
theorem State.step?_of_next {point later : Progress σ × Bytes}
    (h : Progress.Next features point later) (long : format.length < 2 ^ bits)
    (ready : Ready bits good point.1.out)
    (here : format.drop (of raw point.1).position = point.2)
    (room : point.1.budget point.2 < 2 ^ bits) :
    (of raw point.1).step? bits port features format = some (.more (of raw later.1)) ∧
      Ready bits good later.1.out ∧ format.drop (of raw later.1).position = later.2 ∧
      (of raw point.1).position < (of raw later.1).position ∧
      (of raw later.1).position ≤ format.length := by
  have kept := Nat.le_trans (later.1.written_le_budget later.2) (Progress.budget_le_of_next h)
  have fits : later.1.written < 2 ^ bits := Nat.lt_of_le_of_lt kept room
  cases h with
  | @literal progress byte rest text other =>
    obtain ⟨put, still⟩ := RawOutput.put?_of follows ready byte
    have emitted : ((of raw progress).out.put? bits port byte).bind
        ((of raw (progress.advance 1)).emit? bits) =
          some (of raw ((progress.advance 1).emit (progress.out.put byte))) := by
      have out_of : (of raw progress).out = RawOutput.of raw progress.out := rfl
      rw [out_of, put, Option.bind_some, emit?_of fits]
    have step : (of raw progress).step? bits port features format = _ :=
      (step?_of_literal here long text other).trans (congrArg (Option.map _) emitted)
    exact ⟨step, still, drop_succ here, Nat.lt_succ_self _, position_lt here⟩
  | @directive progress next directive length rest read done =>
    have ready : Ready bits good (progress.advance (1 + length)).out := ready
    have result : ∀ other, (progress.advance (1 + length)).carryOut directive = .ok other →
        other.written < 2 ^ bits := by
      intro other same
      cases done.symm.trans same
      exact fits
    obtain ⟨carried, still⟩ := carryOut?_of follows ready result
    rw [done] at carried
    have position : (of raw next).position = (of raw progress).position + (1 + length) :=
      position_of_carryOut done
    refine ⟨step?_of_done here long read carried, still next done, ?_, ?_, ?_⟩
    · rw [position, ← Nat.add_assoc, ← List.drop_drop, drop_succ here]
    · rw [position]
      exact Nat.lt_add_of_pos_right (by omega)
    · rw [position]
      exact position_add_le here read

/-- On words that hold the budget and the length of the format, a run gives what it gives on
    numbers. -/
theorem State.run?_of {progress : Progress σ} {rest : Bytes} (long : format.length < 2 ^ bits)
    (ready : Ready bits good progress.out)
    (here : format.drop (of raw progress).position = rest)
    (room : progress.budget rest < 2 ^ bits) :
    (of raw progress).run? bits port features format =
      some ((progress.run features rest).map raw) := by
  fun_induction Progress.run features progress rest with
  | case1 progress => exact run?_of_ended (step?_of_nil here)
  | case2 progress rest => exact run?_of_ended (step?_of_zero here rfl)
  | case3 progress rest byte read => exact run?_of_ended (step?_of_unsupported here long read)
  | case4 progress rest read => exact run?_of_ended (step?_of_truncated here long read)
  | case5 progress rest directive length read moved stop refused =>
    have ready : Ready bits good moved.out := ready
    have impossible : ∀ next, moved.carryOut directive = .ok next → next.written < 2 ^ bits := by
      intro next done
      cases refused.symm.trans done
    have carried := (carryOut?_of follows ready impossible).1
    rw [refused] at carried
    exact run?_of_ended (step?_of_refused here long read carried)
  | case6 progress rest directive length read moved next done nonzero ih =>
    have goes : Progress.Next features (progress, '%'.toUInt8 :: rest) (next, rest.drop length) :=
      .directive read done
    obtain ⟨step, still, later, onward, inside⟩ := step?_of_next follows goes long ready here room
    rw [run?_of_more step onward inside]
    exact ih still later (Nat.lt_of_le_of_lt (Progress.budget_le_of_next goes) room)
  | case7 progress byte rest text other ih =>
    have goes : Progress.Next features (progress, byte :: rest)
        ((progress.advance 1).emit (progress.out.put byte), rest) := .literal text other
    obtain ⟨step, still, later, onward, inside⟩ := step?_of_next follows goes long ready here room
    rw [run?_of_more step onward inside]
    exact ih still later (Nat.lt_of_le_of_lt (Progress.budget_le_of_next goes) room)

end Run

section Interpretation

variable {σ : Type} [Sink σ] {features : Features} {format : Bytes} {args : List Arg}

/-- A run on words that hold what the output costs gives what it gives on numbers. -/
theorem interpret?_of {ρ : Type} {port : Port ρ} {raw : σ → ρ} {good : σ → Prop}
    (follows : Follows port raw good) (room : outputBound format args < 2 ^ bits) {sink : σ}
    (ready : good sink) {ceiling : Ceiling} (fits : ceiling.cap < 2 ^ bits) :
    interpret? bits port features (raw sink) (.of ceiling) format args =
      some ((interpret features sink ceiling format args).map raw) := by
  have long := Nat.lt_of_le_of_lt (length_le_outputBound format args) room
  have start : Ready bits good (Progress.start sink ceiling args).out := ⟨ready, fits⟩
  rw [← budget_start sink ceiling] at room
  exact State.run?_of follows long start List.drop_zero room

/-- The length that is answered is that of all the output: a ceiling of so many bytes or more lets
    through exactly so many. -/
theorem length_content_calls (sink : σ) (ceiling : Ceiling) {limit : Nat}
    (enough : (interpret features sink ceiling format args).written ≤ limit) :
    (Sink.content (interpret features CallLog.empty ⟨0, limit, Nat.zero_le limit⟩ format
        args).sink.calls).length =
      (interpret features sink ceiling format args).written := by
  rw [written_interpret] at enough ⊢
  have room : (Sink.content (Plan.ofFormat features format args).calls).length ≤
      (⟨0, limit, Nat.zero_le limit⟩ : Ceiling).remaining := enough
  rw [interpret_eq, Sink.clip_of_length_le room, CallLog.calls_applyAll_empty]

end Interpretation

/-- Counts and positions stay in words. At every point of a run, which there goes on to the same
    outcome, the length so far is at most `2 ^ 31 - 1` for each byte of the format and the lengths
    of the text arguments; and so is the length that is answered, which is that of the whole output,
    cut or not. A run on words that hold this bound, the ceiling and the size of the buffer gives
    exactly the outcome of the run on numbers, so no sum in it is too large, no difference below
    zero and no part of a format, value or buffer outside of it. The bound is below `2 ^ 64`
    for any format of at most `2 ^ 32` bytes with text arguments of less than `2 ^ 63`. -/
theorem counts_stay_in_words {σ : Type} [Sink σ] (features : Features) (format : Bytes)
    (args : List Arg) :
    (∀ (sink : σ) (ceiling : Ceiling),
      (∀ point, Relation.ReflTransGen (Progress.Next features)
          (Progress.start sink ceiling args, format) point →
        point.1.written ≤ format.length * (2 ^ 31 - 1) + textLengths args ∧
          interpret features sink ceiling format args = point.1.run features point.2) ∧
      (interpret features sink ceiling format args).written ≤
        format.length * (2 ^ 31 - 1) + textLengths args ∧
      ∀ limit, (interpret features sink ceiling format args).written ≤ limit →
        (Sink.content (interpret features CallLog.empty ⟨0, limit, Nat.zero_le limit⟩ format
            args).sink.calls).length =
          (interpret features sink ceiling format args).written) ∧
    (∀ bits, format.length * (2 ^ 31 - 1) + textLengths args < 2 ^ bits →
      ∀ ceiling : Ceiling, ceiling.cap < 2 ^ bits →
        (∀ sink : σ,
          interpret? bits (.ofSink σ) features sink (.of ceiling) format args =
            some (interpret features sink ceiling format args)) ∧
        ∀ buffer : Array UInt8, buffer.size < 2 ^ bits →
          interpret? bits (RawCursor.port bits) features ⟨buffer, 0⟩ (.of ceiling) format args =
            some ((interpret features (Cursor.ofBuffer buffer) ceiling format args).map
              RawCursor.of)) ∧
    (format.length ≤ 2 ^ 32 → textLengths args < 2 ^ 63 →
      format.length * (2 ^ 31 - 1) + textLengths args < 2 ^ 64) := by
  refine ⟨?_, ?_, ?_⟩
  · intro sink ceiling
    refine ⟨fun point reached => written_le_outputBound reached, ?_, ?_⟩
    · obtain ⟨last, reached, same⟩ := Progress.exists_reaches_written_run
        (Progress.start sink ceiling args) format
      have bounded := (written_le_outputBound reached).1
      exact same ▸ bounded
    · intro limit enough
      exact length_content_calls sink ceiling enough
  · intro bits room ceiling fits
    refine ⟨?_, ?_⟩
    · intro sink
      exact interpret?_of (follows_ofSink σ) room trivial fits
    · intro buffer size
      have initial : (Cursor.ofBuffer buffer).buffer.size < 2 ^ bits := size
      exact interpret?_of (follows_port bits) room initial fits
  · intro short texts
    have product : format.length * (2 ^ 31 - 1) ≤ 2 ^ 32 * (2 ^ 31 - 1) :=
      Nat.mul_le_mul_right _ short
    omega

/-- A string in a field wider than a small buffer, behind a number, on words of 64 bits. -/
theorem counts_stay_in_words_wide_field :
    let format := Bytes.ofString "%3d|%-9s"
    let args := [.int (-7), .str (Bytes.ofString "ab")]
    let buffer := #[35, 35, 35, 35]
    (format.length * (2 ^ 31 - 1) + textLengths args < 2 ^ 64 ∧
      (Ceiling.reservingTerminator buffer.size).cap < 2 ^ 64 ∧ buffer.size < 2 ^ 64) ∧
    interpret? 64 (RawCursor.port 64) .full ⟨buffer, 0⟩ (.of (.reservingTerminator buffer.size))
        format args =
      some ((interpret .full (Cursor.ofBuffer buffer) (.reservingTerminator buffer.size) format
        args).map RawCursor.of) := by
  intro format args buffer
  have room : format.length * (2 ^ 31 - 1) + textLengths args < 2 ^ 64 := by decide
  have fits : (Ceiling.reservingTerminator buffer.size).cap < 2 ^ 64 := by decide
  have size : buffer.size < 2 ^ 64 := by decide
  have words := (@counts_stay_in_words Cursor _ .full format args).2.1 64 room _ fits
  exact ⟨⟨room, fits, size⟩, words.2 buffer size⟩

end FormattedOutput.WordMachine
