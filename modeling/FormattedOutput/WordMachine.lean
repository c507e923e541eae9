import FormattedOutput.Interpretation
import FormattedOutput.Sink.Cursor
import Mathlib.Algebra.Group.Nat.Defs

/-!
# Interpretation on words

The interpretation once more, with sizes, counts and positions in words of so many bits and with
nothing known about how they are related: a ceiling is two words, a cursor a buffer and a word, and
the format is read at a position. A sum that does not fit in a word, a difference below zero and a
part of a text that does not lie inside it give no result, and then there is none of the whole.
-/

namespace FormattedOutput

/-- What a run leaves behind, with the sink seen in another way. -/
def Outcome.map {σ τ : Type} (f : σ → τ) (outcome : Outcome σ) : Outcome τ where
  sink := f outcome.sink
  written := outcome.written
  deposited := outcome.deposited
  args := outcome.args
  consumed := outcome.consumed
  stopped := outcome.stopped
  position := outcome.position

namespace WordMachine

/-- The sum, if it fits in a word. -/
def add? (bits first second : Nat) : Option Nat :=
  if first + second < 2 ^ bits then some (first + second) else none

/-- The difference, if it is not below zero. -/
def sub? (first second : Nat) : Option Nat :=
  if second ≤ first then some (first - second) else none

/-- The part of a text from `start` up to `stop`, if it lies inside the text. -/
def slice? (text : Bytes) (start stop : Nat) : Option Bytes :=
  if start ≤ stop ∧ stop ≤ text.length then some ((text.take stop).drop start) else none

/-- The text with the part from `start` up to `stop` replaced by one of the same length. -/
def overwrite? (text : Bytes) (start stop : Nat) (part : Bytes) : Option Bytes :=
  (slice? text start stop).bind fun window =>
    if window.length = part.length then some (text.take start ++ part ++ text.drop stop) else none

/-- What a destination becomes with one more byte or text, or that this goes wrong. -/
structure Port (ρ : Type) where
  put? : ρ → UInt8 → Option ρ
  putAll? : ρ → Bytes → Option ρ

namespace Port

variable {ρ : Type}

/-- Nothing goes wrong in a sink. -/
def ofSink (σ : Type) [Sink σ] : Port σ where
  put? sink byte := some (Sink.put sink byte)
  putAll? sink bytes := some (Sink.putAll sink bytes)

/-- Puts copies of a byte one by one. -/
def fill? (port : Port ρ) (sink : ρ) (byte : UInt8) : Nat → Option ρ
  | 0 => some sink
  | count + 1 => (port.fill? sink byte count).bind (port.put? · byte)

end Port

/-- A buffer and a position, wherever that is. -/
structure RawCursor where
  buffer : Array UInt8
  position : Nat
  deriving DecidableEq

namespace RawCursor

/-- Stores a byte and moves on; drops it at the end of the buffer. -/
def put? (bits : Nat) (cursor : RawCursor) (byte : UInt8) : Option RawCursor :=
  if h : cursor.position < cursor.buffer.size then
    (add? bits cursor.position 1).map (⟨cursor.buffer.set cursor.position byte, ·⟩)
  else some cursor

/-- Stores as much of a text as fits into the window behind the position and moves behind it. -/
def putAll? (bits : Nat) (cursor : RawCursor) (bytes : Bytes) : Option RawCursor := do
  let room ← sub? cursor.buffer.size cursor.position
  let stop ← add? bits cursor.position (min bytes.length room)
  let part ← slice? bytes 0 (min bytes.length room)
  let stored ← overwrite? cursor.buffer.toList cursor.position stop part
  return ⟨stored.toArray, stop⟩

/-- The port of a cursor. -/
def port (bits : Nat) : Port RawCursor := ⟨put? bits, putAll? bits⟩

end RawCursor

/-- How many bytes were let through and how many may be; either may be the larger one. -/
structure RawCeiling where
  deposited : Nat
  cap : Nat
  deriving DecidableEq

namespace RawCeiling

/-- How many bytes may still be let through. -/
def remaining? (ceiling : RawCeiling) : Option Nat := sub? ceiling.cap ceiling.deposited

/-- Claims room for one byte. -/
def claimOne? (bits : Nat) (ceiling : RawCeiling) : Option (Bool × RawCeiling) :=
  if ceiling.deposited < ceiling.cap then
    (add? bits ceiling.deposited 1).map fun deposited => (true, ⟨deposited, ceiling.cap⟩)
  else some (false, ceiling)

/-- Claims room for `n` bytes. -/
def claimMany? (bits : Nat) (ceiling : RawCeiling) (n : Nat) : Option (Nat × RawCeiling) := do
  let remaining ← ceiling.remaining?
  let deposited ← add? bits ceiling.deposited (min n remaining)
  return (min n remaining, ⟨deposited, ceiling.cap⟩)

end RawCeiling

/-- A destination and the ceiling above it. -/
structure RawOutput (ρ : Type) where
  sink : ρ
  ceiling : RawCeiling

namespace RawOutput

variable {ρ : Type} (bits : Nat) (port : Port ρ)

/-- Writes one byte. -/
def put? (out : RawOutput ρ) (byte : UInt8) : Option (Nat × RawOutput ρ) :=
  (out.ceiling.claimOne? bits).bind fun claim =>
    (if claim.1 then port.put? out.sink byte else some out.sink).map fun sink =>
      (1, ⟨sink, claim.2⟩)

/-- Writes a text in one piece, as much of it as is granted. -/
def putAll? (out : RawOutput ρ) (bytes : Bytes) : Option (Nat × RawOutput ρ) := do
  let claim ← out.ceiling.claimMany? bits bytes.length
  let part ← slice? bytes 0 claim.1
  let sink ← port.putAll? out.sink part
  return (bytes.length, ⟨sink, claim.2⟩)

/-- Writes copies of a byte one by one, as many of them as are granted. -/
def fill? (out : RawOutput ρ) (byte : UInt8) (count : Nat) : Option (Nat × RawOutput ρ) := do
  let claim ← out.ceiling.claimMany? bits count
  let sink ← port.fill? out.sink byte claim.1
  return (count, ⟨sink, claim.2⟩)

/-- Writes a value in a field. The width becomes a word, and the fill bytes are none if the value is
    longer. -/
def field? (out : RawOutput ρ) (value : Bytes) (width : Int) (pad : Pad) :
    Option (Nat × RawOutput ρ) :=
  let missing := width.natAbs % 2 ^ bits - value.length
  if 0 ≤ width then do
    let filled ← out.fill? bits port pad.byte missing
    let stored ← filled.2.putAll? bits port value
    let length ← add? bits filled.1 stored.1
    return (length, stored.2)
  else do
    let stored ← out.putAll? bits port value
    let filled ← stored.2.fill? bits port Pad.space.byte missing
    let length ← add? bits stored.1 filled.1
    return (length, filled.2)

end RawOutput

/-- A point between two steps. -/
structure State (ρ : Type) where
  out : RawOutput ρ
  written : Nat
  position : Nat
  taken : List Arg
  pending : List Arg

/-- How a step ends: at a point to go on from, or at the last one. -/
inductive Stepped (ρ : Type) where
  | more (next : State ρ)
  | ended (last : State ρ) (stopped : Option Stop)

namespace State

variable {ρ : Type} (bits : Nat) (port : Port ρ)

/-- The point after an operation; its length is counted. -/
def emit? (state : State ρ) (result : Nat × RawOutput ρ) : Option (State ρ) :=
  (add? bits state.written result.1).map fun written =>
    { state with out := result.2, written := written }

/-- The point after taking the next argument, which now is `arg`. -/
def take (state : State ρ) (arg : Arg) (rest : List Arg) : State ρ :=
  { state with taken := state.taken ++ [arg], pending := rest }

/-- The length written so far as the content of a count slot. -/
def slot (state : State ρ) : Int32 := Int32.ofNat (min state.written maxCount)

/-- Does what a directive asks for with its argument. -/
def perform? (state : State ρ) (arg : Arg) (rest : List Arg) : Rendering → Option (State ρ)
  | .byte byte => (state.out.put? bits port byte).bind ((state.take arg rest).emit? bits)
  | .field value width pad =>
    (state.out.field? bits port value width pad).bind ((state.take arg rest).emit? bits)
  | .count => (state.take (.count state.slot) rest).emit? bits (0, state.out)

/-- Carries out one directive. -/
def carryOut? (state : State ρ) (directive : Directive) : Option (Except Stop (State ρ)) :=
  if directive.conversion = .percent then
    ((state.out.put? bits port '%'.toUInt8).bind (state.emit? bits)).map .ok
  else
    match state.pending with
    | [] => some (.error .missingArgument)
    | arg :: rest =>
      match directive.render? arg with
      | none => some (.error (.mismatch directive.conversion))
      | some rendering => (state.perform? bits port arg rest rendering).map .ok

/-- Ends the interpretation here. -/
def finish (state : State ρ) (stopped : Option Stop) : Outcome ρ where
  sink := state.out.sink
  written := state.written
  deposited := state.out.ceiling.deposited
  args := state.taken ++ state.pending
  consumed := state.taken.length
  stopped := stopped
  position := state.position

variable (features : Features) (format : Bytes)

/-- Carries out the directive behind the percent sign in front of the position. -/
def directive? (state : State ρ) : Option (Stepped ρ) := do
  let spec ← slice? format state.position format.length
  match Directive.read features spec with
  | .unsupported byte => return .ended state (some (.unsupported byte))
  | .truncated => return .ended state (some .truncated)
  | .directive directive length =>
    let position ← add? bits state.position length
    match ← { state with position := position }.carryOut? bits port directive with
    | .error stop => return .ended { state with position := position } (some stop)
    | .ok next => return .more next

/-- Reads what stands at the position: a byte that is written as it is, or a directive. -/
def step? (state : State ρ) : Option (Stepped ρ) :=
  match format[state.position]? with
  | none => some (.ended state none)
  | some byte =>
    if byte = 0 then some (.ended state none)
    else (add? bits state.position 1).bind fun position =>
      if byte = '%'.toUInt8 then
        { state with position := position }.directive? bits port features format
      else
        ((state.out.put? bits port byte).bind
          ({ state with position := position }.emit? bits)).map .more

/-- Carries out step after step. Each of them reads on, and none of them past the end. -/
def run? (state : State ρ) : Option (Outcome ρ) :=
  match state.step? bits port features format with
  | none => none
  | some (.ended last stopped) => some (last.finish stopped)
  | some (.more next) =>
    if state.position < next.position ∧ next.position ≤ format.length then run? next else none
termination_by format.length - state.position
decreasing_by omega

end State

/-- Interprets a format with its arguments, writing to a destination behind a ceiling. -/
def interpret? {ρ : Type} (bits : Nat) (port : Port ρ) (features : Features) (sink : ρ)
    (ceiling : RawCeiling) (format : Bytes) (args : List Arg) : Option (Outcome ρ) :=
  State.run? bits port features format ⟨⟨sink, ceiling⟩, 0, 0, [], args⟩

end WordMachine

end FormattedOutput
