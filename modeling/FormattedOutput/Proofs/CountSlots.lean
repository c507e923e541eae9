import FormattedOutput.Proofs.FirstStep

/-!
# Count slots

The only arguments that an interpretation changes are the slots of the directives `%n` that it
carries out. Which slots these are, and how much was written when each of them was stored, is said
in terms of the text in front of the directive.
-/

namespace FormattedOutput

/-- Interpreting a format carries out a directive `%n` that stores in the argument `index` when so
    much was written. The text in front of the directive is interpreted to its end, and the next
    argument behind those that it takes is a count slot. -/
def StoresCount (features : Features) (format : Bytes) (args : List Arg) (index written : Nat) :
    Prop :=
  ∃ front spec directive length slot,
    format = front ++ '%'.toUInt8 :: spec ∧ 0 ∉ front ∧
      Directive.read features spec = .directive directive length ∧
      directive.conversion = .count ∧
      (formatTo features CallLog.empty front args).stopped = none ∧
      (formatTo features CallLog.empty front args).consumed = index ∧
      (formatTo features CallLog.empty front args).written = written ∧
      args[index]? = some (.count slot)

namespace Plan

/-- One of the steps stores a count in the argument `index` when so much was written. -/
def StoresAt (steps : List Step) (index written : Nat) : Prop :=
  ∃ before arg length after, steps = before ++ .convert arg .count length :: after ∧
    (before.flatMap Step.taken).length = index ∧
    (Sink.content (before.flatMap Step.calls)).length = written

variable {steps : List Step} {index written : Nat}

theorem StoresAt.cons (h : StoresAt steps index written) (step : Step) :
    StoresAt (step :: steps) (step.taken.length + index)
      ((Sink.content step.calls).length + written) := by
  obtain ⟨before, arg, length, after, rfl, rfl, rfl⟩ := h
  exact ⟨step :: before, arg, length, after, rfl, by simp, by simp⟩

theorem StoresAt.getElem?_storedFrom (h : StoresAt steps index written) (offset : Nat)
    (left : List Arg) : (storedFrom offset steps ++ left)[index]? =
      some (.count (Int32.ofNat (min (offset + written) maxCount))) := by
  obtain ⟨before, arg, length, after, rfl, rfl, rfl⟩ := h
  rw [storedFrom_append, List.append_assoc, ← length_storedFrom offset before,
    List.getElem?_append_right (Nat.le_refl _), Nat.sub_self]
  rfl

theorem getElem?_storedFrom_of_not_storesAt (h : ∀ written, ¬ StoresAt steps index written)
    (offset : Nat) (left : List Arg) : (storedFrom offset steps ++ left)[index]? =
      (steps.flatMap Step.taken ++ left)[index]? := by
  -- a step that takes an argument moves the index on, and every step moves the offset
  induction steps generalizing index offset with
  | nil => rfl
  | cons step rest ih =>
    cases step with
    | text byte length =>
      apply ih
      intro written stores
      have later := stores.cons (.text byte length)
      rw [Step.taken, List.length_nil, Nat.zero_add] at later
      exact h _ later
    | convert arg rendering length =>
      cases index with
      | zero =>
        cases rendering with
        | count => exact absurd ⟨[], arg, length, rest, rfl, rfl, rfl⟩ (h 0)
        | byte value | field value width pad => rfl
      | succ index =>
        have behind : ∀ written, ¬ StoresAt rest index written := by
          intro written stores
          have later := stores.cons (.convert arg rendering length)
          rw [Step.taken, List.length_singleton, Nat.add_comm 1 index] at later
          exact h _ later
        cases rendering <;> exact ih behind _

/-- A count that is stored in a later argument is that of at least as much output. -/
theorem StoresAt.written_le {later more : Nat} (h : StoresAt steps index written)
    (h' : StoresAt steps later more) (order : index ≤ later) : written ≤ more := by
  obtain ⟨before, arg, length, after, rfl, rfl, rfl⟩ := h
  obtain ⟨others, arg', length', after', whole, rfl, rfl⟩ := h'
  rcases List.append_eq_append_iff.mp whole with ⟨between, rfl, -⟩ | ⟨between, rfl, rest⟩
  · simp
  · cases between with
    | nil => simp
    | cons step between =>
      -- then the later argument is taken before the earlier one
      cases rest
      rw [List.flatMap_append, List.flatMap_cons, List.length_append, List.length_append,
        Step.taken, List.length_singleton] at order
      omega

theorem StoresAt.written_le_length (h : StoresAt steps index written) :
    written ≤ (Sink.content (steps.flatMap Step.calls)).length := by
  obtain ⟨before, arg, length, after, rfl, -, rfl⟩ := h
  simp

theorem StoresAt.index_lt (h : StoresAt steps index written) :
    index < (steps.flatMap Step.taken).length := by
  obtain ⟨before, arg, length, after, rfl, rfl, -⟩ := h
  simp [Step.taken]

theorem exists_of_getElem?_taken {arg : Arg}
    (present : (steps.flatMap Step.taken)[index]? = some arg) :
    ∃ before rendering length after, steps = before ++ .convert arg rendering length :: after ∧
      (before.flatMap Step.taken).length = index := by
  induction steps generalizing index with
  | nil => cases present
  | cons step rest ih =>
    cases step with
    | text byte length =>
      obtain ⟨before, rendering, size, after, rfl, taken⟩ := ih present
      exact ⟨.text byte length :: before, rendering, size, after, rfl, taken⟩
    | convert first rendering length =>
      cases index with
      | zero =>
        cases present
        exact ⟨[], rendering, length, rest, rfl, rfl⟩
      | succ index =>
        obtain ⟨before, other, size, after, rfl, taken⟩ := ih present
        refine ⟨.convert first rendering length :: before, other, size, after, rfl, ?_⟩
        rw [List.flatMap_cons, List.length_append, taken]
        exact Nat.add_comm 1 index

end Plan

variable {features : Features} {format : Bytes} {args : List Arg} {index written : Nat}

theorem Directive.render?_eq_count_iff {directive : Directive} {arg : Arg} :
    directive.render? arg = some .count ↔
      directive.conversion = .count ∧ ∃ slot, arg = .count slot := by
  cases conversion : directive.conversion <;> cases arg <;> simp [render?, conversion]

theorem Directive.eq_count_of_render?_count {directive : Directive} {slot : Int32}
    {rendering : Rendering} (fits : directive.render? (.count slot) = some rendering) :
    rendering = .count := by
  cases conversion : directive.conversion <;>
    simp_all [render?_eq_effect?, effect?, Arg.integer?]

/-- A plan that begins with taking an argument is that of a directive that the argument fits. -/
theorem exists_of_head_convert {back : Bytes} {pending : List Arg} {arg : Arg}
    {rendering : Rendering} {length : Nat} {after : List Step}
    (head : (Plan.ofFormat features back pending).steps =
      .convert arg rendering length :: after) :
    ∃ spec directive size rest, back = '%'.toUInt8 :: spec ∧
      Directive.read features spec = .directive directive size ∧
      directive.render? arg = some rendering ∧ pending = arg :: rest := by
  have begins := Plan.begins features back pending
  generalize Plan.ofFormat features back pending = plan at begins head
  cases begins with
  | ended | literal | refused | percent => cases head
  | convert found asks fits =>
    cases head
    exact ⟨_, _, _, _, rfl, found, fits, rfl⟩

/-- The counts that are stored are those of the steps of the plan. -/
theorem storesCount_iff : StoresCount features format args index written ↔
    Plan.StoresAt (Plan.ofFormat features format args).steps index written := by
  constructor
  · rintro ⟨front, spec, directive, length, slot, rfl, nulFree, found, count, complete, consumed,
      counted, present⟩
    rw [formatTo, stopped_interpret] at complete
    rw [formatTo, consumed_interpret] at consumed
    rw [formatTo, written_interpret] at counted
    obtain ⟨inside, same⟩ := List.getElem?_eq_some_iff.mp present
    have next : args.drop index = .count slot :: args.drop (index + 1) := by
      rw [List.drop_eq_getElem_cons inside, same]
    have asks : directive.conversion ≠ .percent := by simp [count]
    have rendered := Directive.render?_eq_count_iff.mpr ⟨count, slot, rfl⟩
    refine ⟨(Plan.ofFormat features front args).steps, .count slot, 1 + length,
      (Plan.ofFormat features (spec.drop length) (args.drop (index + 1))).steps, ?_, consumed,
      counted⟩
    rw [Plan.ofFormat_append nulFree complete, consumed, next, Plan.ofFormat_directive found,
      Directive.bind_cons asks, rendered]
    rfl
  · rintro ⟨before, arg, length, after, steps, rfl, rfl⟩
    obtain ⟨front, back, split, nulFree, plan, rest⟩ := Plan.exists_of_steps_eq steps
    obtain ⟨spec, directive, size, more, rfl, found, fits, pending⟩ :=
      exists_of_head_convert (congrArg Plan.steps rest)
    obtain ⟨count, slot, rfl⟩ := Directive.render?_eq_count_iff.mp fits
    refine ⟨front, spec, directive, size, slot, split, nulFree, found, count, ?_, ?_, ?_, ?_⟩
    · rw [formatTo, stopped_interpret, plan]
    · rw [formatTo, consumed_interpret, plan]
    · rw [formatTo, written_interpret, plan]
      rfl
    · rw [← List.head?_drop, pending]
      rfl

/-- A slot in which a count is stored holds it, as far as 31 bits do. -/
theorem StoresCount.getElem?_argsFrom (h : StoresCount features format args index written)
    (offset : Nat) :
    (Plan.argsFrom offset (Plan.ofFormat features format args).steps args)[index]? =
      some (.count (Int32.ofNat (min (offset + written) maxCount))) :=
  (storesCount_iff.mp h).getElem?_storedFrom offset _

/-- Every other argument stays what it was. -/
theorem getElem?_argsFrom_of_not_storesCount
    (h : ∀ written, ¬ StoresCount features format args index written) (offset : Nat) :
    (Plan.argsFrom offset (Plan.ofFormat features format args).steps args)[index]? =
      args[index]? := by
  have elsewhere := fun written => mt storesCount_iff.mpr (h written)
  rw [Plan.argsFrom, Plan.getElem?_storedFrom_of_not_storesAt elsewhere, Plan.taken_append_drop]

/-- A count slot is taken by no directive but `%n`, so one that is taken is stored in. -/
theorem exists_storesCount_iff {slot : Int32} (present : args[index]? = some (.count slot)) :
    (∃ written, StoresCount features format args index written) ↔
      index < ((Plan.ofFormat features format args).steps.flatMap Step.taken).length := by
  constructor
  · rintro ⟨written, stores⟩
    exact (storesCount_iff.mp stores).index_lt
  · intro taken
    have whole := Plan.taken_append_drop features format args
    have same : ((Plan.ofFormat features format args).steps.flatMap Step.taken)[index]? =
        some (.count slot) := by
      rw [← present, ← List.getElem?_append_left taken, whole]
    obtain ⟨before, rendering, length, after, steps, rfl⟩ := Plan.exists_of_getElem?_taken same
    obtain ⟨front, back, -, -, -, rest⟩ := Plan.exists_of_steps_eq steps
    obtain ⟨spec, directive, size, more, -, -, fits, -⟩ :=
      exists_of_head_convert (congrArg Plan.steps rest)
    obtain rfl : rendering = .count := Directive.eq_count_of_render?_count fits
    exact ⟨_, storesCount_iff.mpr ⟨before, _, length, after, steps, rfl, rfl⟩⟩

theorem toInt_ofNat_min_maxCount (written : Nat) :
    (Int32.ofNat (min written maxCount)).toInt = (min written maxCount : Nat) :=
  Int32.toInt_ofNat_of_lt (by simp only [maxCount]; omega)

/-- Count slots. A directive `%n` that is carried out stores in its slot how much the text in front
    of it wrote, as far as 31 bits hold it and whatever the ceiling let through. Nothing else
    changes an argument, and of the slots those that are taken are the ones that are stored in.
    Counts that are stored later are not smaller, and none is larger than the length of the whole
    output. -/
theorem args_interpret_slots {σ : Type} [Sink σ] (features : Features) (sink : σ)
    (ceiling : Ceiling) (format : Bytes) (args : List Arg) :
    let outcome := interpret features sink ceiling format args
    (∀ index written, StoresCount features format args index written →
      ∃ count, outcome.args[index]? = some (.count count) ∧
        count.toInt = (min written maxCount : Nat)) ∧
    (∀ index, (∀ written, ¬ StoresCount features format args index written) →
      outcome.args[index]? = args[index]?) ∧
    (∀ index slot, args[index]? = some (.count slot) →
      ((∃ written, StoresCount features format args index written) ↔ index < outcome.consumed)) ∧
    ∀ index later written more, StoresCount features format args index written →
      StoresCount features format args later more → index ≤ later →
        ∃ count last, outcome.args[index]? = some (.count count) ∧
          outcome.args[later]? = some (.count last) ∧ count ≤ last ∧
          last.toInt ≤ outcome.written := by
  intro outcome
  have final : outcome.args =
      Plan.argsFrom 0 (Plan.ofFormat features format args).steps args := args_interpret_eq
  have holds : ∀ index written, StoresCount features format args index written →
      outcome.args[index]? = some (.count (Int32.ofNat (min written maxCount))) := by
    intro index written stores
    rw [final, stores.getElem?_argsFrom 0, Nat.zero_add]
  refine ⟨?_, ?_, ?_, ?_⟩
  · intro index written stores
    exact ⟨_, holds index written stores, toInt_ofNat_min_maxCount written⟩
  · intro index elsewhere
    rw [final, getElem?_argsFrom_of_not_storesCount elsewhere]
  · intro index slot present
    have consumed : outcome.consumed = _ := consumed_interpret
    rw [consumed, exists_storesCount_iff present]
  · intro index later written more stores storesLater order
    have length : outcome.written = _ := written_interpret features sink ceiling format args
    have notSmaller := (storesCount_iff.mp stores).written_le (storesCount_iff.mp storesLater) order
    have notLonger : more ≤ _ := (storesCount_iff.mp storesLater).written_le_length
    refine ⟨_, _, holds index written stores, holds later more storesLater, ?_, ?_⟩
    · rw [Int32.le_iff_toInt_le, toInt_ofNat_min_maxCount, toInt_ofNat_min_maxCount]
      omega
    · rw [toInt_ofNat_min_maxCount, length, Plan.calls]
      omega

/-- Two counts, one of them behind the ceiling, and a third one that is not carried out, for its
    argument is a string. -/
theorem args_interpret_slots_behind_ceiling :
    let format := Bytes.ofString "ab%n%5d%n%n"
    let args := [.count 9, .int 7, .count 9, .str (Bytes.ofString "x"), .count 9]
    let outcome := interpret .full CallLog.empty (.reservingTerminator 4) format args
    (StoresCount .full format args 0 2 ∧ StoresCount .full format args 2 7 ∧
        args[4]? = some (.count 9)) ∧
      (∃ count, outcome.args[2]? = some (.count count) ∧ count.toInt = 7) ∧
      outcome.args[4]? = some (.count 9) := by
  intro format args outcome
  have first : StoresCount .full format args 0 2 :=
    ⟨Bytes.ofString "ab", Bytes.ofString "n%5d%n%n", ⟨.space, 0, false, .count⟩, 1, 9,
      by decide +kernel⟩
  have second : StoresCount .full format args 2 7 :=
    ⟨Bytes.ofString "ab%n%5d", Bytes.ofString "n%n", ⟨.space, 0, false, .count⟩, 1, 9,
      by decide +kernel⟩
  obtain ⟨holds, elsewhere, taken, -⟩ :=
    args_interpret_slots .full CallLog.empty (.reservingTerminator 4) format args
  refine ⟨⟨first, second, rfl⟩, holds 2 7 second, elsewhere 4 ?_⟩
  have left : ¬ 4 < outcome.consumed := by decide +kernel
  exact not_exists.mp (mt (taken 4 9 rfl).mp left)

end FormattedOutput
