/-!
# Ceilings

A ceiling bounds how many bytes an output may receive in total. It is a count and not an address:
it knows how many bytes were let through and how many may be, and every claim on it is granted as
far as room remains.
-/

namespace FormattedOutput

/-- The largest size of an object in memory, for sizes of 64 bits. -/
def maxSize : Nat := UInt64.size - 1

/-- How many bytes were let through and how many may be. -/
structure Ceiling where
  deposited : Nat
  cap : Nat
  deposited_le : deposited ≤ cap
  deriving DecidableEq

namespace Ceiling

/-- The ceiling that bounds nothing that fits in memory. -/
def unbounded : Ceiling := ⟨0, maxSize, Nat.zero_le _⟩

/-- The ceiling of a destination of `size` bytes whose last byte is kept for the terminator. A
    destination without bytes admits nothing. -/
def reservingTerminator (size : Nat) : Ceiling := ⟨0, size - 1, Nat.zero_le _⟩

/-- How many bytes may still be let through. -/
def remaining (ceiling : Ceiling) : Nat := ceiling.cap - ceiling.deposited

/-- Claims room for one byte: whether it was granted, and the ceiling after the claim. -/
def claimOne (ceiling : Ceiling) : Bool × Ceiling :=
  if h : ceiling.deposited < ceiling.cap then
    (true, ⟨ceiling.deposited + 1, ceiling.cap, h⟩)
  else (false, ceiling)

/-- Claims room for `n` bytes: how many were granted, and the ceiling after the claim. -/
def claimMany (ceiling : Ceiling) (n : Nat) : Nat × Ceiling :=
  (min n ceiling.remaining, ⟨ceiling.deposited + min n ceiling.remaining, ceiling.cap, by
    have := ceiling.deposited_le
    simp only [remaining]
    omega⟩)

theorem claimMany_fst_le (ceiling : Ceiling) (n : Nat) : (ceiling.claimMany n).1 ≤ n :=
  Nat.min_le_left _ _

theorem deposited_claimMany (ceiling : Ceiling) (n : Nat) :
    (ceiling.claimMany n).2.deposited = ceiling.deposited + (ceiling.claimMany n).1 := rfl

theorem cap_claimMany (ceiling : Ceiling) (n : Nat) :
    (ceiling.claimMany n).2.cap = ceiling.cap := rfl

end Ceiling

end FormattedOutput
