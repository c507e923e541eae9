import FormattedOutput.Proofs.WordArithmetic

/-!
# The account of a ceiling

Room below a ceiling is asked for one byte at a time or for many at once, in any order. The main
statement is the account that comes out of it, with all counts in words: what was granted adds up to
what was deposited, and that is all that was asked for, as far as the ceiling reaches. So only the
sum of the requests matters for what is left, and a request for many bytes is served as so many
requests for one.
-/

namespace FormattedOutput

/-- A request for room. -/
inductive Request where
  | one
  | many (count : Nat)
  deriving DecidableEq, Repr

namespace Request

/-- How many bytes a request asks room for. -/
def asked : Request → Nat
  | one => 1
  | many count => count

/-- How many bytes several requests ask room for, all together. -/
def total (requests : List Request) : Nat := (requests.map asked).sum

theorem total_cons (request : Request) (rest : List Request) :
    total (request :: rest) = request.asked + total rest := rfl

theorem total_replicate_one (count : Nat) : total (List.replicate count one) = count := by
  simp [total, asked]

end Request

namespace Ceiling

/-- The ceilings that an output begins with: the one that bounds nothing, and those of destinations
    that fit in memory. -/
inductive Initial : Ceiling → Prop
  | unbounded : Initial unbounded
  | reservingTerminator {size : Nat} (fits : size < 2 ^ 64) : Initial (reservingTerminator size)

theorem Initial.cap_lt {ceiling : Ceiling} (initial : ceiling.Initial) : ceiling.cap < 2 ^ 64 := by
  cases initial with
  | unbounded => decide
  | reservingTerminator fits => exact Nat.lt_of_le_of_lt (Nat.sub_le _ _) fits

/-- In the beginning nothing is deposited, so what is granted is what is deposited then. -/
theorem Initial.claimMany_eq {ceiling : Ceiling} (initial : ceiling.Initial) (n : Nat) :
    (ceiling.claimMany n).1 = min n ceiling.cap ∧
      (ceiling.claimMany n).2.deposited = min n ceiling.cap := by
  have empty : ceiling.deposited = 0 := by cases initial <;> rfl
  simp [claimMany, remaining, empty]

/-- Serves a request: for how many bytes room was granted, and the ceiling after that. -/
def claim (ceiling : Ceiling) : Request → Nat × Ceiling
  | .one => (ceiling.claimOne.1.toNat, ceiling.claimOne.2)
  | .many count => ceiling.claimMany count

/-- Serves one request after the other: what each of them was granted, and the last ceiling. -/
def claimAll (ceiling : Ceiling) : List Request → List Nat × Ceiling
  | [] => ([], ceiling)
  | request :: rest =>
    let (granted, next) := ceiling.claim request
    let (later, last) := next.claimAll rest
    (granted :: later, last)

/-- A request for one byte is served as one for many that asks for one. -/
theorem claim_eq (ceiling : Ceiling) (request : Request) :
    ceiling.claim request = ceiling.claimMany request.asked := by
  cases request with
  | one =>
    rw [claim, claimOne_eq]
    cases room : ceiling.remaining with
    | zero => simp [claimMany, Request.asked, room]
    | succ room' => simp [claimMany, Request.asked, room]
  | many count => rfl

/-- What two claims are granted is what one claim for both is granted. -/
theorem fst_claimMany_add (ceiling : Ceiling) (first second : Nat) :
    (ceiling.claimMany first).1 + ((ceiling.claimMany first).2.claimMany second).1 =
      (ceiling.claimMany (first + second)).1 := by
  simp only [claimMany, remaining]
  omega

/-- Requests are served together as one request for all that they ask for. -/
theorem claimAll_eq (ceiling : Ceiling) (requests : List Request) :
    ((ceiling.claimAll requests).1.sum, (ceiling.claimAll requests).2) =
      ceiling.claimMany (Request.total requests) := by
  induction requests generalizing ceiling with
  | nil => simp [claimAll, Request.total, claimMany]
  | cons request rest ih =>
    have later := ih (ceiling.claimMany request.asked).2
    simp only [claimAll, claim_eq, List.sum_cons, Request.total_cons]
    rw [Prod.ext_iff] at later ⊢
    simp only at later ⊢
    rw [later.1, later.2, fst_claimMany_add, claimMany_claimMany]
    exact ⟨rfl, rfl⟩

/-- Of requests for one byte each, the first are granted, as many of them as there is room for. -/
theorem claimAll_replicate_one (ceiling : Ceiling) (count : Nat) :
    (ceiling.claimAll (List.replicate count .one)).1 =
      List.replicate (min count ceiling.remaining) 1 ++
        List.replicate (count - ceiling.remaining) 0 := by
  induction count generalizing ceiling with
  | zero => simp [claimAll]
  | succ count ih =>
    have later := ih (ceiling.claimMany 1).2
    rw [remaining_claimMany] at later
    simp only [List.replicate_succ, claimAll, claim_eq, Request.asked, later]
    cases room : ceiling.remaining with
    | zero => simp [claimMany, room, List.replicate_succ]
    | succ room' => simp [claimMany, room, List.replicate_succ, Nat.succ_min_succ]

/-- A request for many bytes is served as so many requests for one byte: it is granted the number of
    those that are granted, and leaves the same ceiling. -/
theorem claimMany_eq_claimAll (ceiling : Ceiling) (count : Nat) :
    ceiling.claimMany count =
      ((ceiling.claimAll (List.replicate count .one)).1.count 1,
        (ceiling.claimAll (List.replicate count .one)).2) := by
  have together := ceiling.claimAll_eq (List.replicate count .one)
  rw [Request.total_replicate_one] at together
  rw [← together, claimAll_replicate_one]
  simp [List.count_replicate]

end Ceiling

namespace WordMachine.RawCeiling

/-- Serves a request. -/
def claim? (bits : Nat) (ceiling : RawCeiling) : Request → Option (Nat × RawCeiling)
  | .one => (ceiling.claimOne? bits).map fun claim => (claim.1.toNat, claim.2)
  | .many count => ceiling.claimMany? bits count

/-- Serves one request after the other. -/
def claimAll? (bits : Nat) (ceiling : RawCeiling) :
    List Request → Option (List Nat × RawCeiling)
  | [] => some ([], ceiling)
  | request :: rest => do
    let served ← ceiling.claim? bits request
    let later ← served.2.claimAll? bits rest
    return (served.1 :: later.1, later.2)

variable {bits : Nat} {ceiling : Ceiling}

theorem claim?_of (fits : ceiling.cap < 2 ^ bits) (request : Request) :
    (of ceiling).claim? bits request =
      some ((ceiling.claim request).1, of (ceiling.claim request).2) := by
  cases request with
  | one => rw [claim?, claimOne?_of fits, Option.map_some, Ceiling.claim]
  | many count => exact claimMany?_of fits count

/-- A ceiling that is a word stays one, so nothing goes wrong in any number of claims. -/
theorem claimAll?_of (fits : ceiling.cap < 2 ^ bits) (requests : List Request) :
    (of ceiling).claimAll? bits requests =
      some ((ceiling.claimAll requests).1, of (ceiling.claimAll requests).2) := by
  induction requests generalizing ceiling with
  | nil => rfl
  | cons request rest ih =>
    have next : (ceiling.claim request).2.cap < 2 ^ bits := by
      rw [Ceiling.claim_eq, Ceiling.cap_claimMany]
      exact fits
    simp only [claimAll?, claim?_of fits, Option.bind_eq_bind, Option.bind_some, ih next]
    rfl

/-- A ceiling keeps its account. Whatever room is asked for below an initial ceiling, on words of 64
    bits no sum is too large and no difference below zero, and what comes out is what comes out on
    numbers. No more is deposited than may be, and the bound stays what it was. What was granted is
    what was deposited, and it is what was asked for as far as the bound reaches, however large the
    sum of the requests is. From there on a request for many bytes is granted as many as are granted
    of so many requests for one, and leaves the ceiling that they leave. So all requests that ask
    for the same in total lead to the same ceiling. -/
theorem claims_keep_account {start : Ceiling} (initial : start.Initial)
    (requests : List Request) :
    ∃ granted last, (of start).claimAll? 64 requests = some (granted, last) ∧
      (granted = (start.claimAll requests).1 ∧ last = of (start.claimAll requests).2) ∧
      (last.deposited ≤ last.cap ∧ last.cap = start.cap ∧
        last.remaining? = some (start.cap - last.deposited)) ∧
      (granted.sum = last.deposited ∧ last.deposited = min (Request.total requests) start.cap) ∧
      (∀ count, ∃ each next,
        last.claimAll? 64 (List.replicate count .one) = some (each, next) ∧
          last.claimMany? 64 count = some (each.count 1, next)) ∧
      ∀ others, Request.total others = Request.total requests →
        ((of start).claimAll? 64 others).map Prod.snd = some last := by
  have fits := initial.cap_lt
  have sum : (start.claimAll requests).1.sum = _ := congrArg Prod.fst (start.claimAll_eq requests)
  have last : ∀ others, (start.claimAll others).2 = (start.claimMany (Request.total others)).2 :=
    fun others => congrArg Prod.snd (start.claimAll_eq others)
  have cap : (start.claimAll requests).2.cap = start.cap := by rw [last, Ceiling.cap_claimMany]
  have still : (start.claimAll requests).2.cap < 2 ^ 64 := cap ▸ fits
  obtain ⟨granted, deposited⟩ := initial.claimMany_eq (Request.total requests)
  rw [← last] at deposited
  refine ⟨_, _, claimAll?_of fits requests, ⟨rfl, rfl⟩, ⟨?_, cap, ?_⟩, ⟨?_, deposited⟩, ?_, ?_⟩
  · exact (start.claimAll requests).2.deposited_le
  · rw [remaining?_of, Ceiling.remaining, cap]
    rfl
  · rw [sum, granted]
    exact deposited.symm
  · intro count
    refine ⟨_, _, claimAll?_of still _, ?_⟩
    rw [claimMany?_of still, Ceiling.claimMany_eq_claimAll]
  · intro others same
    rw [claimAll?_of fits, Option.map_some, last, last, same]

/-- Requests whose sum is no word, below the ceiling that bounds nothing. -/
theorem claims_keep_account_unbounded :
    let requests := [.one, .many (2 ^ 64 - 1), .many (2 ^ 64 - 1)]
    Ceiling.Initial .unbounded ∧ 2 ^ 64 < Request.total requests ∧
      (of .unbounded).claimAll? 64 requests =
        some ([1, 2 ^ 64 - 2, 0], ⟨2 ^ 64 - 1, 2 ^ 64 - 1⟩) ∧
      ∀ others, Request.total others = Request.total requests →
        ((of .unbounded).claimAll? 64 others).map Prod.snd = some ⟨2 ^ 64 - 1, 2 ^ 64 - 1⟩ := by
  intro requests
  have served : (of .unbounded).claimAll? 64 requests =
      some ([1, 2 ^ 64 - 2, 0], ⟨2 ^ 64 - 1, 2 ^ 64 - 1⟩) := by decide +kernel
  obtain ⟨granted, last, run, -, -, -, -, order⟩ := claims_keep_account .unbounded requests
  rw [served] at run
  cases run
  exact ⟨.unbounded, by decide +kernel, served, order⟩

end WordMachine.RawCeiling

end FormattedOutput
