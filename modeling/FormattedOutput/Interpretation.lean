import FormattedOutput.Bounded
import FormattedOutput.Rendering

/-!
# Interpretation of formats

A format is read from left to right: bytes other than a percent sign are written as they are, and
each directive takes the next argument if it needs one. The interpretation ends with the format, at
its first NUL, or early at the first directive that is malformed or finds no fitting argument; then
that directive has no effect.
-/

namespace FormattedOutput

/-- Why an interpretation ended before the end of its format. -/
inductive Stop where
  /-- The byte in the place of a conversion is none. -/
  | unsupported (byte : UInt8)
  /-- The format ends inside a directive. -/
  | truncated
  /-- No argument is left for a directive. -/
  | missingArgument
  /-- The argument does not fit the conversion. -/
  | mismatch (conversion : Conversion)
  deriving DecidableEq, Repr

/-- What an interpretation leaves behind. -/
structure Outcome (σ : Type) where
  /-- The sink after all output. -/
  sink : σ
  /-- The length of the output, cut or not. -/
  written : Nat
  /-- How many bytes the ceiling let through. -/
  deposited : Nat
  /-- All arguments, with the final content of the count slots. -/
  args : List Arg
  /-- How many arguments were taken. -/
  consumed : Nat
  /-- Why the interpretation ended early, if it did. -/
  stopped : Option Stop
  /-- How much of the format was read. -/
  position : Nat

/-- A point between two steps of an interpretation. -/
structure Progress (σ : Type) where
  out : Bounded σ
  /-- The length of the output so far, cut or not. -/
  written : Nat
  /-- How much of the format was read. -/
  position : Nat
  /-- The arguments that were taken, with what was stored in them. -/
  taken : List Arg
  /-- The arguments that are left. -/
  pending : List Arg

namespace Progress

variable {σ : Type} [Sink σ]

/-- Before the first step. -/
def start (sink : σ) (ceiling : Ceiling) (args : List Arg) : Progress σ :=
  ⟨⟨sink, ceiling⟩, 0, 0, [], args⟩

/-- The point after reading more of the format. -/
def advance (progress : Progress σ) (length : Nat) : Progress σ :=
  { progress with position := progress.position + length }

/-- The point after a bounded operation; its length is counted. -/
def emit (progress : Progress σ) (result : Nat × Bounded σ) : Progress σ :=
  { progress with out := result.2, written := progress.written + result.1 }

/-- The point after taking the next argument, which now is `arg`. -/
def take (progress : Progress σ) (arg : Arg) (rest : List Arg) : Progress σ :=
  { progress with taken := progress.taken ++ [arg], pending := rest }

/-- The length written so far as the content of a count slot; `maxCount` if it does not fit. -/
def slot (progress : Progress σ) : Int32 := Int32.ofNat (min progress.written maxCount)

/-- Does what a directive asks for with its argument. -/
def perform (progress : Progress σ) (arg : Arg) (rest : List Arg) : Rendering → Progress σ
  | .byte byte => (progress.take arg rest).emit (progress.out.put byte)
  | .field value width pad => (progress.take arg rest).emit (progress.out.field value width pad)
  | .count => progress.take (.count progress.slot) rest

/-- Carries out one directive. `%%` takes no argument. -/
def carryOut (progress : Progress σ) (directive : Directive) : Except Stop (Progress σ) :=
  if directive.conversion = .percent then
    .ok (progress.emit (progress.out.put '%'.toUInt8))
  else
    match progress.pending with
    | [] => .error .missingArgument
    | arg :: rest =>
      match directive.render? arg with
      | none => .error (.mismatch directive.conversion)
      | some rendering => .ok (progress.perform arg rest rendering)

/-- Ends the interpretation here. -/
def finish (progress : Progress σ) (stopped : Option Stop) : Outcome σ where
  sink := progress.out.sink
  written := progress.written
  deposited := progress.out.ceiling.deposited
  args := progress.taken ++ progress.pending
  consumed := progress.taken.length
  stopped := stopped
  position := progress.position

/-- Interprets the rest of a format. -/
def run (features : Features) (progress : Progress σ) : Bytes → Outcome σ
  | [] => progress.finish none
  | byte :: rest =>
    if byte = 0 then progress.finish none
    else if byte = '%'.toUInt8 then
      match Directive.read features rest with
      | .unsupported byte => (progress.advance 1).finish (some (.unsupported byte))
      | .truncated => (progress.advance 1).finish (some .truncated)
      | .directive directive length =>
        let progress := progress.advance (1 + length)
        match progress.carryOut directive with
        | .error stop => progress.finish (some stop)
        | .ok progress => run features progress (rest.drop length)
    else
      run features ((progress.advance 1).emit (progress.out.put byte)) rest
termination_by format => format.length
decreasing_by all_goals simp only [List.length_drop, List.length_cons]; omega

end Progress

/-- Interprets a format with its arguments, writing to a sink behind a ceiling. -/
def interpret {σ : Type} [Sink σ] (features : Features) (sink : σ) (ceiling : Ceiling)
    (format : Bytes) (args : List Arg) : Outcome σ :=
  (Progress.start sink ceiling args).run features format

/-- Formats into a sink. There is no limit at this level. -/
def formatTo {σ : Type} [Sink σ] (features : Features) (sink : σ) (format : Bytes)
    (args : List Arg) : Outcome σ :=
  interpret features sink .unbounded format args

end FormattedOutput
