import FormattedOutput.Rendering
import Mathlib.Algebra.Order.Ring.Int
import Mathlib.Tactic.Common

/-!
# What a directive does with its argument

An integer argument stands for an integer, and an integer conversion writes the numeral of the
residue of that integer in the range of the word it asks for. This is a second definition of what a
directive does with its argument, by integers instead of words; the main statement is that the two
agree.
-/

namespace FormattedOutput

/-- The integer that an integer argument stands for. -/
def Arg.integer? : Arg → Option Int
  | int value => some value.toInt
  | uint value => some value.toNat
  | long value => some value.toInt
  | ulong value => some value.toNat
  | char value => some value.toNat
  | str _ => none
  | float _ => none
  | count _ => none

/-- The base of the numerals that a conversion writes. -/
def Conversion.radix : Conversion → Radix
  | lowerHex => .lowerHex
  | upperHex => .upperHex
  | _ => .decimal

namespace Directive

/-- The size of the word that an integer conversion asks for. -/
def bits (directive : Directive) : Nat := if directive.long then 64 else 32

/-- What a directive does with the argument it takes, if the two fit. -/
def effect? (directive : Directive) (arg : Arg) : Option Rendering :=
  match directive.conversion with
  | .percent => none
  | .char => arg.integer?.map fun n => .byte (n % 256).toNat.toUInt8
  | .count => arg.slot?.map fun _ => .count
  | .str =>
    match arg with
    | .str bytes => some (.field bytes.untilNul directive.width .space)
    | _ => none
  | .float =>
    match arg with
    | .float value => some (.field value.text directive.width directive.pad)
    | _ => none
  | .signed => arg.integer?.map fun n =>
    .field (Numeral.ofInt (n.bmod (2 ^ directive.bits))) directive.width directive.pad
  | _ => arg.integer?.map fun n =>
    .field (Numeral.ofNat directive.conversion.radix (n % 2 ^ directive.bits).toNat)
      directive.width directive.pad

end Directive

namespace Arg

theorem toInt64_eq_ofInt (word : UInt64) : word.toInt64 = Int64.ofInt word.toNat := by
  rw [Int64.ofInt_eq_ofNat, ← UInt64.toInt64_ofNat', UInt64.ofNat_toNat]

/-- The word of an integer argument holds the residue of its integer. -/
theorem toInt64?_eq (arg : Arg) : arg.toInt64? = arg.integer?.map Int64.ofInt := by
  cases arg with
  | int value => simp [toInt64?, integer?]
  | uint value => simp [toInt64?, integer?, toInt64_eq_ofInt]
  | long value => simp [toInt64?, integer?]
  | ulong value => simp [toInt64?, integer?, toInt64_eq_ofInt]
  | char value => simp [toInt64?, integer?, toInt64_eq_ofInt]
  | str bytes => rfl
  | float value => rfl
  | count slot => rfl

theorem toNat_toUInt64_ofInt (n : Int) : (Int64.ofInt n).toUInt64.toNat = (n % 2 ^ 64).toNat := by
  change (Int64.ofInt n).toBitVec.toNat = _
  rw [Int64.toBitVec_ofInt, BitVec.toNat_ofInt]
  rfl

theorem toNat_toUInt32_ofInt (n : Int) :
    (Int64.ofInt n).toUInt64.toUInt32.toNat = (n % 2 ^ 32).toNat := by
  rw [UInt64.toNat_toUInt32, toNat_toUInt64_ofInt]
  omega

theorem toUInt8_ofInt (n : Int) :
    (Int64.ofInt n).toUInt64.toUInt8 = (n % 256).toNat.toUInt8 := by
  apply UInt8.toNat.inj
  rw [UInt64.toNat_toUInt8, toNat_toUInt64_ofInt, Nat.toUInt8, UInt8.toNat_ofNat']
  omega

variable {α : Type}

theorem map_toUInt64? (arg : Arg) (f : Nat → α) :
    arg.toUInt64?.map (fun word => f word.toNat) =
      arg.integer?.map fun n => f (n % 2 ^ 64).toNat := by
  rw [toUInt64?, toInt64?_eq, Option.map_map, Option.map_map]
  simp only [Function.comp_def, toNat_toUInt64_ofInt]

theorem map_toUInt32? (arg : Arg) (f : Nat → α) :
    arg.toUInt32?.map (fun word => f word.toNat) =
      arg.integer?.map fun n => f (n % 2 ^ 32).toNat := by
  rw [toUInt32?, toInt64?_eq, Option.map_map, Option.map_map]
  simp only [Function.comp_def, toNat_toUInt32_ofInt]

theorem map_toInt64? (arg : Arg) (f : Int → α) :
    arg.toInt64?.map (fun word => f word.toInt) =
      arg.integer?.map fun n => f (n.bmod (2 ^ 64)) := by
  have word : ∀ n, (Int64.ofInt n).toInt = n.bmod (2 ^ 64) := fun n => Int64.toInt_ofInt
  rw [toInt64?_eq, Option.map_map]
  simp only [Function.comp_def, word]

theorem map_toInt32? (arg : Arg) (f : Int → α) :
    arg.toInt32?.map (fun word => f word.toInt) =
      arg.integer?.map fun n => f (n.bmod (2 ^ 32)) := by
  have word : ∀ n, (Int64.ofInt n).toInt32.toInt = n.bmod (2 ^ 32) := by
    intro n
    rw [Int64.toInt32_ofInt]
    exact Int32.toInt_ofInt
  rw [toInt32?, toInt64?_eq, Option.map_map, Option.map_map]
  simp only [Function.comp_def, word]

end Arg

namespace Directive

theorem integerText?_signed {directive : Directive} (h : directive.conversion = .signed)
    (arg : Arg) : directive.integerText? arg =
      arg.integer?.map fun n => Numeral.ofInt (n.bmod (2 ^ directive.bits)) := by
  cases long : directive.long <;>
    simp only [integerText?, h, long, bits, Bool.false_eq_true, if_true, if_false,
      Arg.map_toInt32? arg Numeral.ofInt, Arg.map_toInt64? arg Numeral.ofInt]

/-- Any conversion but a signed one writes the residue that is not negative. -/
theorem integerText?_unsigned {directive : Directive} (h : directive.conversion ≠ .signed)
    (arg : Arg) : directive.integerText? arg = arg.integer?.map fun n =>
      Numeral.ofNat directive.conversion.radix (n % 2 ^ directive.bits).toNat := by
  have short := fun radix => Arg.map_toUInt32? arg (Numeral.ofNat radix)
  have long := fun radix => Arg.map_toUInt64? arg (Numeral.ofNat radix)
  cases conversion : directive.conversion <;> cases marked : directive.long <;>
    simp_all only [integerText?, bits, Conversion.radix, ne_eq, not_true_eq_false,
      Bool.false_eq_true, if_true, if_false]

/-- What a directive makes of its argument, by words and by integers. -/
theorem render?_eq_effect? (directive : Directive) (arg : Arg) :
    directive.render? arg = directive.effect? arg := by
  cases conversion : directive.conversion with
  | percent => simp [render?, effect?, conversion]
  | char =>
    simp [render?, effect?, conversion, Arg.toByte?, Arg.toInt64?_eq, Arg.toUInt8_ofInt,
      Function.comp_def]
  | count => cases arg <;> simp [render?, effect?, conversion, Arg.slot?]
  | str => cases arg <;> simp [render?, effect?, conversion]
  | float => cases arg <;> simp [render?, effect?, conversion]
  | signed => simp [render?, effect?, conversion, integerText?_signed conversion, Function.comp_def]
  | unsigned | lowerHex | upperHex =>
    have unsigned : directive.conversion ≠ .signed := by simp [conversion]
    simp [render?, effect?, conversion, integerText?_unsigned unsigned, Function.comp_def]

end Directive

end FormattedOutput
