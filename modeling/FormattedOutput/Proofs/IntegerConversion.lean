import FormattedOutput.Proofs.CanonicalNumeral
import FormattedOutput.Proofs.Plan
import Mathlib.Data.Int.ModEq

/-!
# Integer conversions

An integer conversion writes the canonical numeral of the integer that its word holds instead of the
argument: the one that is congruent to it modulo the size of the word. A character conversion writes
the argument modulo 256. Arguments that are no integers are refused by both.
-/

namespace FormattedOutput

/-- Whether a conversion writes an integer. -/
def Conversion.isInteger : Conversion → Bool
  | unsigned | signed | lowerHex | upperHex => true
  | char | str | percent | count | float => false

namespace Directive

variable {directive : Directive}

/-- The word that an integer directive asks for holds `n`. The word is signed for a signed
    conversion only. -/
def Holds (directive : Directive) (n : Int) : Prop :=
  if directive.conversion = .signed then
    -2 ^ (directive.bits - 1) ≤ n ∧ n < 2 ^ (directive.bits - 1)
  else 0 ≤ n ∧ n < 2 ^ directive.bits

/-- What the word holds instead of `n`. -/
def residue (directive : Directive) (n : Int) : Int :=
  if directive.conversion = .signed then n.bmod (2 ^ directive.bits) else n % 2 ^ directive.bits

theorem bits_eq (directive : Directive) : directive.bits = 32 ∨ directive.bits = 64 := by
  unfold bits
  split
  · exact Or.inr rfl
  · exact Or.inl rfl

theorem size_pos (directive : Directive) : (0 : Int) < 2 ^ directive.bits := by
  rcases directive.bits_eq with bits | bits <;> rw [bits] <;> decide

theorem holds_residue (directive : Directive) (n : Int) :
    directive.Holds (directive.residue n) := by
  by_cases signed : directive.conversion = .signed
  · rw [Holds, residue, if_pos signed, if_pos signed, Int.bmod]
    rcases directive.bits_eq with bits | bits <;> rw [bits] <;> split <;> omega
  · rw [Holds, residue, if_neg signed, if_neg signed]
    have positive := directive.size_pos
    exact ⟨Int.emod_nonneg n (by omega), Int.emod_lt_of_pos n positive⟩

theorem residue_modEq (directive : Directive) (n : Int) :
    directive.residue n ≡ n [ZMOD 2 ^ directive.bits] := by
  by_cases signed : directive.conversion = .signed
  · rw [residue, if_pos signed]
    exact_mod_cast Int.bmod_emod
  · rw [residue, if_neg signed]
    exact Int.mod_modEq n _

/-- A word holds only one integer of a residue class. -/
theorem Holds.unique {first second : Int} (h : directive.Holds first)
    (h' : directive.Holds second) (congruent : first ≡ second [ZMOD 2 ^ directive.bits]) :
    first = second := by
  rw [Int.ModEq] at congruent
  -- only the unsigned range is the one of the remainders
  by_cases signed : directive.conversion = .signed
  · rw [Holds, if_pos signed] at h h'
    rcases directive.bits_eq with bits | bits <;> rw [bits] at h h' congruent <;> omega
  · rw [Holds, if_neg signed] at h h'
    rwa [Int.emod_eq_of_lt h.1 h.2, Int.emod_eq_of_lt h'.1 h'.2] at congruent

/-- An integer directive writes the canonical numeral of what its word holds. -/
theorem exists_numeral (integer : directive.conversion.isInteger = true) (n : Int) :
    ∃ text, (∀ other, Numeral.Denotes directive.conversion.radix (directive.residue n) other ↔
        other = text) ∧
      ∀ arg : Arg, arg.integer? = some n →
        directive.render? arg = some (.field text directive.width directive.pad) := by
  cases conversion : directive.conversion with
  | signed =>
    refine ⟨Numeral.ofInt (directive.residue n), fun other => Numeral.denotes_iff_ofInt, ?_⟩
    intro arg value
    simp only [render?_eq_effect?, effect?, conversion, value, Option.map_some, residue, if_true]
  | unsigned | lowerHex | upperHex =>
    have unsigned : directive.residue n = n % 2 ^ directive.bits := by simp [residue, conversion]
    have nonnegative : 0 ≤ directive.residue n := by
      rw [unsigned]
      exact Int.emod_nonneg n (ne_of_gt directive.size_pos)
    refine ⟨_, fun other => Numeral.denotes_iff_ofNat nonnegative, ?_⟩
    intro arg value
    simp only [render?_eq_effect?, effect?, conversion, value, Option.map_some, unsigned]
  | char | str | percent | count | float => simp [conversion, Conversion.isInteger] at integer

theorem render?_char (character : directive.conversion = .char) {arg : Arg} {n : Int}
    (value : arg.integer? = some n) :
    ∃ byte : UInt8, (byte.toNat : Int) = n % 256 ∧ directive.render? arg = some (.byte byte) := by
  refine ⟨(n % 256).toNat.toUInt8, ?_, ?_⟩
  · rw [Nat.toUInt8, UInt8.toNat_ofNat']
    omega
  · simp only [render?_eq_effect?, effect?, character, value, Option.map_some]

/-- An argument that is no integer fits neither an integer conversion nor a character. -/
theorem render?_eq_none_of_integer?
    (asks : directive.conversion.isInteger = true ∨ directive.conversion = .char) {arg : Arg}
    (other : arg.integer? = none) : directive.render? arg = none := by
  rw [render?_eq_effect?]
  cases conversion : directive.conversion <;>
    simp_all [effect?, Conversion.isInteger]

end Directive

namespace Progress

variable {σ : Type} [Sink σ] {features : Features} {progress : Progress σ} {spec : Bytes}
  {directive : Directive} {length : Nat} {arg : Arg} {rest : List Arg}

/-- What becomes of a directive and the argument that it takes, at any point of a run. -/
theorem run_directive (found : Directive.read features spec = .directive directive length)
    (asks : directive.conversion ≠ .percent) (next : progress.pending = arg :: rest) :
    progress.run features ('%'.toUInt8 :: spec) =
      match directive.render? arg with
      | none => (progress.advance (1 + length)).finish (some (.mismatch directive.conversion))
      | some rendering =>
        ((progress.advance (1 + length)).perform arg rest rendering).run features
          (spec.drop length) := by
  have pending : (progress.advance (1 + length)).pending = arg :: rest := next
  rw [run, if_neg (by decide), if_pos rfl]
  simp only [found, carryOut, asks, if_false, pending]
  cases directive.render? arg <;> rfl

/-- Integer conversions. At any point of a run, an integer directive hands the canonical numeral of
    a residue of its argument to the formatting of its field: of the only integer that is congruent
    to the argument modulo the size of the word that the directive asks for, and that this word
    holds. A character directive puts the argument modulo 256 as one byte. An argument that is no
    integer ends the run at such a directive, with nothing more written or stored. -/
theorem run_integer_directive
    (found : Directive.read features spec = .directive directive length)
    (next : progress.pending = arg :: rest) :
    let behind := progress.advance (1 + length)
    (directive.conversion.isInteger = true → ∀ n, arg.integer? = some n →
      ∃ residue text,
        (∀ other, directive.Holds other ∧ other ≡ n [ZMOD 2 ^ directive.bits] ↔
          other = residue) ∧
        (∀ other, Numeral.Denotes directive.conversion.radix residue other ↔ other = text) ∧
        progress.run features ('%'.toUInt8 :: spec) =
          ((behind.take arg rest).emit
            (behind.out.field text directive.width directive.pad)).run features
              (spec.drop length)) ∧
    (directive.conversion = .char → ∀ n, arg.integer? = some n →
      ∃ byte : UInt8, (byte.toNat : Int) = n % 256 ∧
        progress.run features ('%'.toUInt8 :: spec) =
          ((behind.take arg rest).emit (behind.out.put byte)).run features (spec.drop length)) ∧
    (directive.conversion.isInteger = true ∨ directive.conversion = .char →
      arg.integer? = none →
        progress.run features ('%'.toUInt8 :: spec) =
          behind.finish (some (.mismatch directive.conversion))) := by
  intro behind
  refine ⟨?_, ?_, ?_⟩
  · intro integer n value
    have asks : directive.conversion ≠ .percent := by
      intro percent
      simp [percent, Conversion.isInteger] at integer
    obtain ⟨text, denotes, renders⟩ := Directive.exists_numeral integer n
    refine ⟨directive.residue n, text, ?_, denotes, ?_⟩
    · intro other
      constructor
      · rintro ⟨holds, congruent⟩
        exact holds.unique (directive.holds_residue n)
          (congruent.trans (directive.residue_modEq n).symm)
      · rintro rfl
        exact ⟨directive.holds_residue n, directive.residue_modEq n⟩
    · rw [run_directive found asks next, renders arg value]
      rfl
  · intro character n value
    have asks : directive.conversion ≠ .percent := by simp [character]
    obtain ⟨byte, same, renders⟩ := Directive.render?_char character value
    refine ⟨byte, same, ?_⟩
    rw [run_directive found asks next, renders]
    rfl
  · intro takes other
    have asks : directive.conversion ≠ .percent := by
      rintro percent
      simp [percent, Conversion.isInteger] at takes
    rw [run_directive found asks next, Directive.render?_eq_none_of_integer? takes other]

/-- The largest unsigned word of 32 bits as a signed one, on the left of its field. -/
theorem run_integer_directive_wrapped :
    let spec := Bytes.ofString "-6d|"
    let directive : Directive := ⟨.space, -6, false, .signed⟩
    let arg : Arg := .uint 4294967295
    let progress := Progress.start CallLog.empty .unbounded [arg]
    (Directive.read .full spec = .directive directive 3 ∧ progress.pending = [arg] ∧
        directive.conversion.isInteger = true ∧ arg.integer? = some 4294967295) ∧
      (progress.run .full ('%'.toUInt8 :: spec)).sink.calls =
        [.putAll (Bytes.ofString "-1"), .put 32, .put 32, .put 32, .put 32, .put 124] := by
  intro spec directive arg progress
  have found : Directive.read .full spec = .directive directive 3 := by decide +kernel
  have next : progress.pending = [arg] := rfl
  obtain ⟨residue, text, held, denotes, written⟩ :=
    (run_integer_directive found next).1 rfl 4294967295 rfl
  have minusOne : -1 = residue := by
    apply (held (-1)).mp
    refine ⟨?_, by decide⟩
    rw [Directive.Holds, if_pos rfl]
    decide
  have spelled : Bytes.ofString "-1" = text := by
    apply (denotes _).mp
    rw [← minusOne]
    exact Numeral.denotes_iff_ofInt.mpr (by decide +kernel)
  refine ⟨⟨found, next, rfl, rfl⟩, ?_⟩
  rw [written, ← spelled]
  decide +kernel

end Progress

end FormattedOutput
