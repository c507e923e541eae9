import FormattedOutput.Proofs.Typing

/-!
# The check of a literal and its interpretation

The check of a format literal and the interpretation of its encoding read the same grammar, one over
characters and before any argument is there, the other over bytes and with the arguments at hand. A
literal that is accepted is interpreted to its end with all the arguments it asks for, and a literal
that is refused is interpreted up to the directive for which it is refused.
-/

namespace FormattedOutput

open Bytes

/-- What stands in front of a directive is a format literal of its own, and with arguments that are
    typed for it, whatever arguments follow, the interpretation of the whole literal does what that
    of the front does, and then stops behind the percent sign of the directive. -/
def StopsBehind (front literal : List Char) (stop : Stop) : Prop :=
  ∃ pieces, Piece.ofFormat front = .ok pieces ∧
    ∀ (σ : Type) [Sink σ] (sink : σ) (ceiling : Ceiling) (args more : List Arg),
      Piece.Typed pieces args →
        let done := interpret .full sink ceiling (ofChars front) (args ++ more)
        done.stopped = none ∧ done.consumed = args.length ∧
          done.position = (ofChars front).length ∧
          interpret .full sink ceiling (ofChars literal) (args ++ more) =
            { done with
              stopped := some stop
              position := (ofChars front).length + 1 }

variable {literal : List Char}

/-- A literal that is accepted is interpreted to its end, with all arguments of its pieces. -/
theorem interpret_of_accepted {σ : Type} [Sink σ] {pieces : List Piece} {args : List Arg}
    (accepted : Piece.ofFormat literal = .ok pieces) (typed : Piece.Typed pieces args) (sink : σ)
    (ceiling : Ceiling) :
    (interpret .full sink ceiling (ofChars literal) args).stopped = none ∧
      (interpret .full sink ceiling (ofChars literal) args).consumed = args.length := by
  obtain ⟨nulFree, complete, asked⟩ := Piece.layout_of_ofFormat accepted
  have layout : Layout.ofText .full (ofChars literal) =
      ⟨(Layout.ofText .full (ofChars literal)).segments, .complete⟩ := by
    rw [← complete]
  rw [← asked, Layout.pieces] at typed
  obtain ⟨stopped, consumed, -⟩ := interpret_of_typed nulFree layout typed [] sink ceiling
  rw [List.append_nil] at stopped consumed
  exact ⟨stopped, consumed⟩

/-- A literal whose layout has an ending is interpreted as far as that ending. -/
theorem stopsBehind_of_ending {front : List Char} {segments : List Segment} {ending : Ending}
    {stop : Stop} (nulFree : '\x00' ∉ literal) (begins : front <+: literal)
    (layout : Layout.ofText .full (ofChars literal) = ⟨segments, ending⟩)
    (spelled : ofChars front = segments.flatMap Segment.text) (stops : ending.stop? = some stop)
    (excess : ending.excess = 1) : StopsBehind front literal stop := by
  have nulFreeFront : '\x00' ∉ front := fun member => nulFree (begins.subset member)
  have nulFreeBytes := mt zero_mem_ofChars.mp nulFree
  have wellFormed := Layout.wellFormed_ofText .full (ofChars literal) nulFreeBytes
  rw [layout] at wellFormed
  obtain ⟨layoutFront, accepted⟩ :=
    Piece.ofFormat_of_segments wellFormed.1 spelled nulFreeFront
  refine ⟨_, accepted, ?_⟩
  intro σ _ sink ceiling args more typed done
  have nulFreeFrontBytes := mt zero_mem_ofChars.mp nulFreeFront
  obtain ⟨stopped, consumed, position⟩ :=
    interpret_of_typed nulFreeFrontBytes layoutFront typed more sink ceiling
  have same := interpret_of_ending nulFreeBytes nulFreeFrontBytes layout layoutFront typed more
    sink ceiling
  rw [stops, excess, ← spelled] at same
  rw [← spelled] at position
  exact ⟨stopped, consumed, position, same⟩

/-- The check and the interpretation agree. A literal that is accepted is interpreted to its end
    with arguments from the builders of its pieces. A literal that is refused for a directive is
    interpreted up to that directive and stops there for the same reason, a conversion being
    reported by its first byte. A literal is refused for a NUL exactly if it holds one. -/
theorem interpret_agrees_ofFormat (literal : List Char) :
    (∀ pieces, Piece.ofFormat literal = .ok pieces →
      ∀ (σ : Type) [Sink σ] (sink : σ) (ceiling : Ceiling) (args : List Arg),
        Piece.Built pieces args →
          (interpret .full sink ceiling (ofChars literal) args).stopped = none ∧
            (interpret .full sink ceiling (ofChars literal) args).consumed = args.length) ∧
      (∀ quoted, Piece.ofFormat literal = .error (.unsupported quoted) →
        ∃ front options conversion after first more,
          literal = front ++ ('%' :: options ++ conversion :: after) ∧
            quoted = String.ofList ('%' :: options ++ [conversion]) ∧
            String.utf8EncodeChar conversion = first :: more ∧
            StopsBehind front literal (.unsupported first)) ∧
      (∀ quoted, Piece.ofFormat literal = .error (.incomplete quoted) →
        ∃ front options, literal = front ++ '%' :: options ∧
          quoted = String.ofList ('%' :: options) ∧ StopsBehind front literal .truncated) ∧
      (Piece.ofFormat literal = .error .nul ↔ '\x00' ∈ literal) := by
  obtain ⟨front, bad, whole, spelled, reports⟩ := Piece.scan_reports literal
  have begins : front <+: literal := ⟨bad, whole.symm⟩
  generalize found : Layout.ofText .full (ofChars literal) = layout at spelled reports
  refine ⟨?_, ?_, ?_, Piece.ofFormat_eq_nul_iff⟩
  · intro pieces accepted σ _ sink ceiling args built
    exact interpret_of_accepted accepted built.typed sink ceiling
  · intro quoted refused
    obtain ⟨nulFree, scanned⟩ := Piece.scan_of_ofFormat refused (by simp)
    rw [scanned] at reports
    cases reports with
    | unsupported segments options conversion after modifiers first more encoded =>
      have stops := stopsBehind_of_ending nulFree begins found spelled rfl rfl
      exact ⟨front, options, conversion, after, first, more, whole, rfl, encoded, stops⟩
  · intro quoted refused
    obtain ⟨nulFree, scanned⟩ := Piece.scan_of_ofFormat refused (by simp)
    rw [scanned] at reports
    cases reports with
    | incomplete segments options modifiers =>
      have stops := stopsBehind_of_ending nulFree begins found spelled rfl rfl
      exact ⟨front, options, whole, rfl, stops⟩

/-- A literal that is accepted, with a character of two bytes, a width and a percent sign. -/
theorem interpret_agrees_ofFormat_accepted :
    let literal := "é%-5d%%%lx".toList
    let args := [.int (-3), .ulong 255]
    let outcome := interpret .full CallLog.empty .unbounded (ofChars literal) args
    Piece.ofFormat literal = .ok [.signed false, .unsigned true] ∧ outcome.stopped = none ∧
      outcome.consumed = 2 := by
  intro literal args outcome
  have accepted : Piece.ofFormat literal = .ok [.signed false, .unsigned true] := by
    decide +kernel
  have built : Piece.Built [.signed false, .unsigned true] args := .cons rfl (.cons rfl .nil)
  exact ⟨accepted, (interpret_agrees_ofFormat literal).1 _ accepted CallLog CallLog.empty
    .unbounded args built⟩

example :
    let literal := "ab%-5é".toList
    let outcome := interpret .full CallLog.empty .unbounded (ofChars literal) []
    Piece.ofFormat literal = .error (.unsupported "%-5é") ∧
      outcome.stopped = some (.unsupported 0xc3) ∧ outcome.position = 3 := by
  decide +kernel

end FormattedOutput
