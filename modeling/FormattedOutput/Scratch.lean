import FormattedOutput.Binary64.Text

/-!
# Rendering into a work area

A number can be rendered without allocating: a work area of 32 bytes is filled from its end, last
digit first, and the text is the part in use. A store that finds no room fails instead of writing
outside the area, so a rendering that succeeds has kept within it.
-/

namespace FormattedOutput

/-- The size of a work area in bytes. -/
def Scratch.capacity : Nat := 32

/-- A work area for one number. What stands before `start` is left over from earlier use. -/
structure Scratch where
  bytes : Vector UInt8 Scratch.capacity
  start : Nat
  start_le : start ≤ Scratch.capacity

namespace Scratch

/-- A work area with nothing rendered in it yet, whatever its bytes are. -/
def ofBytes (bytes : Vector UInt8 capacity) : Scratch := ⟨bytes, capacity, Nat.le_refl capacity⟩

/-- The part in use. -/
def text (area : Scratch) : Bytes := area.bytes.toList.drop area.start

/-- Stores one byte in front of the part in use, if there is room. -/
def store? (area : Scratch) (byte : UInt8) : Option Scratch :=
  if h : 0 < area.start then
    have := area.start_le
    some ⟨area.bytes.set (area.start - 1) byte, area.start - 1, by omega⟩
  else none

/-- Stores a text in front of the part in use, its last byte first. -/
def storeAll? (area : Scratch) : Bytes → Option Scratch
  | [] => some area
  | byte :: rest => (area.storeAll? rest).bind (·.store? byte)

/-- Stores the digits of a number, last digit first, and at least one. -/
def storeDigits? (area : Scratch) (radix : Radix) (n : Nat) : Option Scratch :=
  match area.store? (radix.digit (n % radix.base)) with
  | none => none
  | some stored =>
    if n / radix.base = 0 then some stored else stored.storeDigits? radix (n / radix.base)
termination_by n
decreasing_by
  rename_i h
  have := radix.two_le_base
  exact Nat.div_lt_self (Nat.pos_of_ne_zero fun h0 => h (by simp [h0])) (by omega)

/-- Stores the last `count` decimal digits of a number, last digit first. -/
def storeLastDigits? (area : Scratch) : Nat → Nat → Option Scratch
  | 0, _ => some area
  | count + 1, n =>
    (area.store? (Radix.decimal.digit (n % 10))).bind (·.storeLastDigits? count (n / 10))

/-- Stores a minus sign if one is wanted. -/
def storeSign? (area : Scratch) (negative : Bool) : Option Scratch :=
  if negative then area.store? '-'.toUInt8 else some area

/-- Renders an unsigned word. -/
def ofUInt64? (area : Scratch) (radix : Radix) (value : UInt64) : Option Scratch :=
  area.storeDigits? radix value.toNat

/-- Renders a signed word: the digits of its magnitude, then the sign in front. -/
def ofInt64? (area : Scratch) (value : Int64) : Option Scratch :=
  (area.storeDigits? .decimal value.toInt.natAbs).bind (·.storeSign? (value < 0))

/-- Renders an unsigned word of 32 bits, widened. -/
def ofUInt32? (area : Scratch) (radix : Radix) (value : UInt32) : Option Scratch :=
  area.ofUInt64? radix value.toUInt64

/-- Renders a signed word of 32 bits, widened. -/
def ofInt32? (area : Scratch) (value : Int32) : Option Scratch := area.ofInt64? value.toInt64

/-- Renders an integer part, the point and the decimals, from the last decimal on. -/
def storeFixed? (area : Scratch) (decimal : Binary64.Decimal) : Option Scratch := do
  let area ← area.storeLastDigits? Binary64.fractionDigits decimal.fraction
  let area ← area.store? '.'.toUInt8
  area.storeDigits? .decimal decimal.whole

/-- Renders a finite magnitude. -/
def storeMagnitude? (area : Scratch) (magnitude : Nat) : Option Scratch :=
  if magnitude < UInt64.size * Binary64.one then area.storeFixed? (Binary64.split magnitude)
  else do
    let area ← area.storeDigits? .decimal (Binary64.scientific magnitude).2
    let area ← area.storeAll? (Bytes.ofString "e+")
    area.storeFixed? (Binary64.scientific magnitude).1

/-- Renders a binary64 value. -/
def ofBinary64? (area : Scratch) (value : Binary64) : Option Scratch :=
  if value.isNaN then area.storeAll? (Bytes.ofString "nan")
  else do
    let area ← if value.isInfinite then area.storeAll? (Bytes.ofString "inf")
      else area.storeMagnitude? value.quanta
    area.storeSign? value.isNegative

end Scratch

end FormattedOutput
