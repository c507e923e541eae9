import FormattedOutput.Ceiling
import FormattedOutput.Directive
import FormattedOutput.Sink.Basic

/-!
# Bounded output

A sink behind a ceiling. Every operation answers the length of what it stands for, whether or not
the ceiling let it through, so a count of the output goes on where the output itself is cut. Fill
bytes are granted in bulk, so those that are cut cost nothing.
-/

namespace FormattedOutput

/-- A sink and the ceiling above it. -/
structure Bounded (σ : Type) where
  sink : σ
  ceiling : Ceiling

namespace Bounded

variable {σ : Type} [Sink σ]

/-- Writes one byte. -/
def put (out : Bounded σ) (byte : UInt8) : Nat × Bounded σ :=
  match out.ceiling.claimOne with
  | (true, ceiling) => (1, ⟨Sink.put out.sink byte, ceiling⟩)
  | (false, ceiling) => (1, ⟨out.sink, ceiling⟩)

/-- Writes a text in one piece, as much of it as is granted. -/
def putAll (out : Bounded σ) (bytes : Bytes) : Nat × Bounded σ :=
  let (granted, ceiling) := out.ceiling.claimMany bytes.length
  (bytes.length, ⟨Sink.putAll out.sink (bytes.take granted), ceiling⟩)

/-- Writes copies of a byte one by one, as many of them as are granted. -/
def fill (out : Bounded σ) (byte : UInt8) (count : Nat) : Nat × Bounded σ :=
  let (granted, ceiling) := out.ceiling.claimMany count
  (count, ⟨Sink.fill out.sink byte granted, ceiling⟩)

/-- Writes a value in a field of at least `width` bytes. A value in a field of negative width stands
    on the left and is followed by spaces; `pad` is only used in front of a value. -/
def field (out : Bounded σ) (value : Bytes) (width : Int) (pad : Pad) : Nat × Bounded σ :=
  let missing := width.natAbs - value.length
  if 0 ≤ width then
    let (filled, out) := out.fill pad.byte missing
    let (length, out) := out.putAll value
    (filled + length, out)
  else
    let (length, out) := out.putAll value
    let (filled, out) := out.fill Pad.space.byte missing
    (length + filled, out)

end Bounded

end FormattedOutput
