import FormattedOutput.Proofs.Pieces
import FormattedOutput.Proofs.Plan
import Mathlib.Data.List.Forall2

/-!
# Typed arguments

An argument list is typed for the pieces of a literal if it has one fitting argument for each piece.
Binding such arguments never fails and takes all of them, so the plan of the literal goes on to the
ending of its layout.
-/

namespace FormattedOutput

/-- Whether an argument fits a directive. All integers fit all integer directives and characters,
    whatever their sizes. -/
def Piece.accepts : Piece → Arg → Bool
  | signed _, arg | unsigned _, arg | char, arg => arg.integer?.isSome
  | str, .str _ => true
  | count, .count _ => true
  | float, .float _ => true
  | _, _ => false

/-- Whether arguments fit pieces, one by one. -/
def Piece.Typed (pieces : List Piece) (args : List Arg) : Prop :=
  List.Forall₂ (fun piece arg => piece.accepts arg = true) pieces args

/-- Whether arguments are built by the builders that pieces ask for, one by one. -/
def Piece.Built (pieces : List Piece) (args : List Arg) : Prop :=
  List.Forall₂ (fun piece arg => piece.kind.builds arg = true) pieces args

namespace Piece

variable {pieces : List Piece} {args : List Arg}

theorem accepts_of_builds {piece : Piece} {arg : Arg} (built : piece.kind.builds arg = true) :
    piece.accepts arg = true := by
  cases piece with
  | signed long | unsigned long =>
    cases long <;> cases arg <;> simp_all [kind, ArgKind.builds, accepts, Arg.integer?]
  | char | str | count | float =>
    cases arg <;> simp_all [kind, ArgKind.builds, accepts, Arg.integer?]

/-- Arguments that are built as the pieces ask for are typed. -/
theorem Built.typed (built : Built pieces args) : Typed pieces args :=
  List.Forall₂.imp (fun _ _ => accepts_of_builds) built

/-- Arguments for two runs of pieces begin with arguments for the first. -/
theorem Typed.split {later : List Piece} (typed : Typed (pieces ++ later) args) :
    ∃ front back, args = front ++ back ∧ Typed pieces front := by
  induction pieces generalizing args with
  | nil => exact ⟨[], args, rfl, .nil⟩
  | cons piece pieces ih =>
    cases typed with
    | @cons _ arg _ rest fits typed =>
      obtain ⟨front, back, whole, typedFront⟩ := ih typed
      exact ⟨arg :: front, back, by rw [whole, List.cons_append], .cons fits typedFront⟩

/-- A directive makes something of an argument exactly if the argument fits its piece. -/
theorem isSome_effect? (directive : Directive) {piece : Piece}
    (taken : directive.conversion.piece? directive.long = some piece) (arg : Arg) :
    (directive.effect? arg).isSome = piece.accepts arg := by
  cases conversion : directive.conversion <;> rw [conversion] at taken <;> cases taken <;>
    simp only [Directive.effect?, conversion, accepts, Option.isSome_map]
  all_goals cases arg <;> rfl

end Piece

namespace Segment

variable {segment : Segment}

/-- A segment without a piece takes no argument. -/
theorem bind_of_piece?_eq_none (untaken : segment.piece? = none) :
    ∃ byte, ∀ args, segment.bind args = .ok (.text byte segment.text.length, args) := by
  cases segment with
  | literal byte => exact ⟨byte, fun args => rfl⟩
  | directive modifiers byte conversion =>
    have percent : conversion = .percent := by
      cases conversion <;> simp_all [piece?, Conversion.piece?]
    exact ⟨'%'.toUInt8, fun args => by simp only [bind, percent, if_true]⟩

/-- A segment with a piece takes an argument that fits the piece. -/
theorem bind_of_piece?_eq_some {piece : Piece} {arg : Arg} (taken : segment.piece? = some piece)
    (fits : piece.accepts arg = true) :
    ∃ rendering, ∀ rest,
      segment.bind (arg :: rest) = .ok (.convert arg rendering segment.text.length, rest) := by
  cases segment with
  | literal byte => cases taken
  | directive modifiers byte conversion =>
    have argument : conversion ≠ .percent := by
      rintro rfl
      cases taken
    have effect := Piece.isSome_effect? (modifiers.directive conversion) taken arg
    rw [fits] at effect
    obtain ⟨rendering, renders⟩ := Option.isSome_iff_exists.mp effect
    exact ⟨rendering, fun rest => by simp only [bind, argument, if_false, renders]⟩

end Segment

/-- The steps of segments with typed arguments: they take all of these arguments and none behind
    them, and they read the whole text of the segments. -/
theorem Layout.planFrom_of_typed {segments : List Segment} {args : List Arg}
    (typed : Piece.Typed (segments.filterMap Segment.piece?) args) :
    ∃ steps : List Step,
      (∀ ending more, planFrom ending segments (args ++ more) =
        ⟨steps, ending.stop?, ending.excess⟩) ∧
      (steps.map Step.length).sum = (segments.flatMap Segment.text).length ∧
      ∀ written, (Plan.storedFrom written steps).length = args.length := by
  induction segments generalizing args with
  | nil =>
    cases typed
    exact ⟨[], fun ending more => rfl, rfl, fun written => rfl⟩
  | cons segment rest ih =>
    cases taken : segment.piece? with
    | none =>
      rw [List.filterMap_cons_none taken] at typed
      obtain ⟨steps, plan, lengths, stored⟩ := ih typed
      obtain ⟨byte, bound⟩ := Segment.bind_of_piece?_eq_none taken
      refine ⟨.text byte segment.text.length :: steps, ?_, ?_, ?_⟩
      · intro ending more
        simp only [planFrom, bound, plan, Plan.prepend]
      · simp [lengths, Step.length]
      · intro written
        simp [Plan.storedFrom, Step.stored, stored]
    | some piece =>
      rw [List.filterMap_cons_some taken] at typed
      cases typed with
      | @cons _ arg _ _ fits later =>
        obtain ⟨steps, plan, lengths, stored⟩ := ih later
        obtain ⟨rendering, bound⟩ := Segment.bind_of_piece?_eq_some taken fits
        refine ⟨.convert arg rendering segment.text.length :: steps, ?_, ?_, ?_⟩
        · intro ending more
          simp only [planFrom, List.cons_append, bound, plan, Plan.prepend]
        · simp [lengths, Step.length]
        · intro written
          cases rendering <;> simp [Plan.storedFrom, Step.stored, stored]

/-- The plan of a format without NUL, with typed arguments for its segments. The steps depend on the
    segments and these arguments alone. -/
theorem Plan.ofFormat_of_typed {segments : List Segment} {args : List Arg} (features : Features)
    (typed : Piece.Typed (segments.filterMap Segment.piece?) args) :
    ∃ steps : List Step,
      (∀ format ending more, 0 ∉ format → Layout.ofText features format = ⟨segments, ending⟩ →
        Plan.ofFormat features format (args ++ more) = ⟨steps, ending.stop?, ending.excess⟩) ∧
      (steps.map Step.length).sum = (segments.flatMap Segment.text).length ∧
      ∀ written, (Plan.storedFrom written steps).length = args.length := by
  obtain ⟨steps, plan, lengths, stored⟩ := Layout.planFrom_of_typed typed
  refine ⟨steps, ?_, lengths, stored⟩
  intro format ending more nulFree layout
  rw [Plan.ofFormat, Bytes.untilNul_eq_self nulFree, layout]
  exact plan ending more

section Interpretation

variable {σ : Type} [Sink σ] {features : Features} {format : Bytes} {segments : List Segment}
  {ending : Ending} {args : List Arg}

/-- With typed arguments an interpretation comes to the ending of its layout, and it has then taken
    all of these arguments and none behind them. -/
theorem interpret_of_typed (nulFree : 0 ∉ format)
    (layout : Layout.ofText features format = ⟨segments, ending⟩)
    (typed : Piece.Typed (segments.filterMap Segment.piece?) args) (more : List Arg) (sink : σ)
    (ceiling : Ceiling) :
    (interpret features sink ceiling format (args ++ more)).stopped = ending.stop? ∧
      (interpret features sink ceiling format (args ++ more)).consumed = args.length ∧
      (interpret features sink ceiling format (args ++ more)).position =
        (segments.flatMap Segment.text).length + ending.excess := by
  obtain ⟨steps, plan, lengths, stored⟩ := Plan.ofFormat_of_typed features typed
  rw [interpret_eq]
  simp only [plan format ending more nulFree layout, stored, lengths, and_self]

/-- Behind the same segments another ending makes no difference but for why and where the
    interpretation stops. -/
theorem interpret_of_ending {before : Bytes} (nulFree : 0 ∉ format) (nulFreeBefore : 0 ∉ before)
    (layout : Layout.ofText features format = ⟨segments, ending⟩)
    (layoutBefore : Layout.ofText features before = ⟨segments, .complete⟩)
    (typed : Piece.Typed (segments.filterMap Segment.piece?) args) (more : List Arg) (sink : σ)
    (ceiling : Ceiling) :
    interpret features sink ceiling format (args ++ more) =
      { interpret features sink ceiling before (args ++ more) with
        stopped := ending.stop?
        position := (segments.flatMap Segment.text).length + ending.excess } := by
  obtain ⟨steps, plan, lengths, stored⟩ := Plan.ofFormat_of_typed features typed
  rw [interpret_eq, interpret_eq]
  simp only [plan format ending more nulFree layout, lengths, Plan.calls,
    plan before .complete more nulFreeBefore layoutBefore]

end Interpretation

end FormattedOutput
