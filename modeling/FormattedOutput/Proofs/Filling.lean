import FormattedOutput.Proofs.Truncation
import FormattedOutput.Sink.Borrowed
import Mathlib.Data.List.Induction

/-!
# Filling a buffer

A cursor can be offered single bytes, texts and formatted output in any order, by itself or through
a reference, and a terminator can be stored at any time. The main statement is what the buffer then
holds: the first of all bytes that were offered, as many as fit, and behind them what it held in the
beginning, but for a terminator right at the position.
-/

namespace FormattedOutput

/-- Something that is offered to a sink. -/
inductive Offer where
  | put (byte : UInt8)
  | putAll (bytes : Bytes)
  | format (format : Bytes) (args : List Arg)
  deriving DecidableEq, Repr

namespace Offer

variable {σ : Type} [Sink σ]

/-- The sink after it was offered something. -/
def apply (features : Features) (sink : σ) : Offer → σ
  | .put byte => Sink.put sink byte
  | .putAll bytes => Sink.putAll sink bytes
  | .format text args => (formatTo features sink text args).sink

/-- The bytes of an offer, those that an appending sink receives. -/
def bytes (features : Features) (offer : Offer) : Bytes :=
  (offer.apply features (HandleSink.appending #[])).handle.toList

/-- The calls that are made for an offer. -/
def calls (features : Features) : Offer → List Sink.Call
  | .put byte => [.put byte]
  | .putAll bytes => [.putAll bytes]
  | .format text args =>
    Sink.clip (Ceiling.unbounded).remaining (Plan.ofFormat features text args).calls

/-- They are the same calls whatever the sink is. -/
theorem apply_eq_applyAll (features : Features) (sink : σ) (offer : Offer) :
    offer.apply features sink = Sink.applyAll sink (offer.calls features) := by
  cases offer with
  | put byte => rfl
  | putAll bytes => rfl
  | format text args =>
    rw [apply, formatTo, interpret_eq]
    rfl

theorem bytes_eq_content (features : Features) (offer : Offer) :
    offer.bytes features = Sink.content (offer.calls features) := by
  rw [bytes, apply_eq_applyAll, Sink.applyAll_eq_foldl, HandleSink.foldl_put_appending]
  simp [HandleSink.appending]

end Offer

namespace Cursor

/-- What can be done with a cursor. -/
inductive Action where
  | offer (offer : Offer)
  | offerBorrowed (offer : Offer)
  | terminate
  deriving DecidableEq, Repr

namespace Action

/-- The bytes that are offered; a terminator is none of them. -/
def bytes (features : Features) : Action → Bytes
  | .offer given => given.bytes features
  | .offerBorrowed given => given.bytes features
  | .terminate => []

end Action

/-- The cursor after an action. -/
def act (features : Features) (cursor : Cursor) : Action → Cursor
  | .offer offer => offer.apply features cursor
  | .offerBorrowed offer => (offer.apply features (BorrowedSink.mk cursor)).target
  | .terminate => cursor.terminate.2

/-- The cursor after a sequence of actions. -/
def actAll (features : Features) (cursor : Cursor) (actions : List Action) : Cursor :=
  actions.foldl (act features) cursor

/-- All bytes that a sequence of actions offers. -/
def offered (features : Features) (actions : List Action) : Bytes :=
  actions.flatMap (Action.bytes features)

/-- One of the actions stored a terminator where the cursor stands after all of them. -/
def TerminatedInPlace (features : Features) (cursor : Cursor) (actions : List Action) : Prop :=
  ∃ before after, actions = before ++ .terminate :: after ∧
    (cursor.actAll features before).position = (cursor.actAll features actions).position

variable {features : Features} {cursor : Cursor} {buffer : Array UInt8} {text : Bytes}

/-- An offer is stored as if its bytes were offered in one piece. -/
theorem act_offer (cursor : Cursor) (offer : Offer) :
    cursor.act features (.offer offer) = cursor.putAll (offer.bytes features) := by
  have whole := Sink.Bytewise.putAll_eq cursor (offer.bytes features)
  rw [act, Offer.apply_eq_applyAll, Sink.applyAll_eq_foldl, ← Offer.bytes_eq_content, ← whole]
  rfl

theorem act_offerBorrowed (cursor : Cursor) (offer : Offer) :
    cursor.act features (.offerBorrowed offer) = cursor.putAll (offer.bytes features) := by
  rw [← act_offer, act, act, Offer.apply_eq_applyAll, Offer.apply_eq_applyAll,
    BorrowedSink.target_applyAll]

theorem actAll_append (cursor : Cursor) (before after : List Action) :
    cursor.actAll features (before ++ after) =
      (cursor.actAll features before).actAll features after :=
  List.foldl_append

theorem actAll_append_singleton (cursor : Cursor) (actions : List Action) (action : Action) :
    cursor.actAll features (actions ++ [action]) =
      (cursor.actAll features actions).act features action :=
  actAll_append cursor actions [action]

/-- Storing a terminator needs room for it. -/
theorem terminate_fst (cursor : Cursor) :
    cursor.terminate.1 = true ↔ cursor.position < cursor.capacity := by
  rw [terminate, capacity]
  split
  next room => exact iff_of_true rfl room
  next full => exact iff_of_false Bool.false_ne_true full

theorem position_terminate (cursor : Cursor) :
    cursor.terminate.2.position = cursor.position := by
  rw [terminate]
  split <;> rfl

theorem toList_buffer_terminate_snd (cursor : Cursor) :
    cursor.terminate.2.buffer.toList = cursor.buffer.toList.set cursor.position 0 := by
  rw [terminate]
  split
  next room => rw [Array.toList_set]
  next full => exact (List.set_eq_of_length_le (by simpa using full)).symm

theorem position_le_act (cursor : Cursor) (action : Action) :
    cursor.position ≤ (cursor.act features action).position := by
  cases action with
  | offer offer =>
    rw [act_offer, position_putAll]
    exact Nat.le_add_right _ _
  | offerBorrowed offer =>
    rw [act_offerBorrowed, position_putAll]
    exact Nat.le_add_right _ _
  | terminate => exact (position_terminate cursor).ge

theorem position_le_actAll (cursor : Cursor) (actions : List Action) :
    cursor.position ≤ (cursor.actAll features actions).position := by
  induction actions generalizing cursor with
  | nil => exact Nat.le_refl _
  | cons action rest ih => exact Nat.le_trans (position_le_act cursor action) (ih _)

/-- A text that does not move the cursor leaves no trace. -/
theorem putAll_eq_self (stays : (cursor.putAll text).position = cursor.position) :
    cursor.putAll text = cursor := by
  rw [position_putAll] at stays
  have none : min (cursor.buffer.size - cursor.position) text.length = 0 := by omega
  have nothing : text.take (cursor.buffer.size - cursor.position) = [] := by
    apply List.eq_nil_of_length_eq_zero
    rw [List.length_take, none]
  apply eq_of_toList_eq
  · rw [toList_buffer_putAll, none, nothing, List.append_nil, Nat.add_zero,
      List.take_append_drop]
  · rw [position_putAll, stays]

/-- The text in front of the position, and what stands behind it, after a text was stored. -/
theorem buffer_putAll_parts (cursor : Cursor) (text : Bytes) :
    (cursor.putAll text).written =
        cursor.written ++ text.take (cursor.buffer.size - cursor.position) ∧
      (cursor.putAll text).buffer.toList.drop (cursor.putAll text).position =
        cursor.buffer.toList.drop (cursor.putAll text).position := by
  have inside := cursor.position_le
  have length : (cursor.buffer.toList.take cursor.position ++
      text.take (cursor.buffer.size - cursor.position)).length =
        (cursor.putAll text).position := by
    rw [position_putAll, List.length_append, List.length_take, List.length_take,
      Array.length_toList, Nat.min_eq_left inside]
  rw [written, written, toList_buffer_putAll, ← length, List.take_left, List.drop_left, length,
    position_putAll]
  exact ⟨rfl, rfl⟩

/-- What a cursor holds after so much was offered to it. -/
structure Holds (initial : Array UInt8) (offered : Bytes) (cursor : Cursor) : Prop where
  size : cursor.buffer.size = initial.size
  position : cursor.position = min initial.size offered.length
  written : cursor.written = offered.take cursor.position
  behind : cursor.buffer.toList.drop (cursor.position + 1) =
    initial.toList.drop (cursor.position + 1)

theorem holds_ofBuffer (buffer : Array UInt8) : Holds buffer [] (ofBuffer buffer) :=
  ⟨rfl, (Nat.min_zero _).symm, rfl, rfl⟩

namespace Holds

variable {initial : Array UInt8} {offered : Bytes}

/-- Behind the position the buffer is as it was, at every index. -/
theorem getElem?_behind (h : Holds initial offered cursor) {index : Nat}
    (behind : cursor.position < index) : cursor.buffer[index]? = initial[index]? := by
  have dropped := congrArg (·[index - (cursor.position + 1)]?) h.behind
  have same : cursor.position + 1 + (index - (cursor.position + 1)) = index := by omega
  simpa only [List.getElem?_drop, same, Array.getElem?_toList] using dropped

theorem putAll (h : Holds initial offered cursor) (text : Bytes) :
    Holds initial (offered ++ text) (cursor.putAll text) := by
  have size := h.size
  have position := h.position
  have moved := position_putAll cursor text
  obtain ⟨stored, kept⟩ := buffer_putAll_parts cursor text
  refine ⟨?_, ?_, ?_, ?_⟩
  · rw [size_buffer_putAll, size]
  · rw [List.length_append]
    omega
  · -- either nothing was cut before, or there is no room any more
    rw [stored, h.written]
    by_cases fits : offered.length ≤ initial.size
    · have whole : offered.take cursor.position = offered := List.take_of_length_le (by omega)
      have front : (offered ++ text).take (cursor.putAll text).position =
          offered ++ text.take (min (cursor.buffer.size - cursor.position) text.length) := by
        rw [List.take_append, List.take_of_length_le (by omega)]
        congr 2
        omega
      rw [whole, front, List.append_cancel_left_eq, List.take_eq_take_iff, Nat.min_assoc,
        Nat.min_self]
    · have none : cursor.buffer.size - cursor.position = 0 := by omega
      have stays : (cursor.putAll text).position = cursor.position := by omega
      rw [none, List.take_zero, List.append_nil, stays, List.take_append_of_le_length (by omega)]
  · have later := congrArg (List.drop ((cursor.putAll text).position - cursor.position)) h.behind
    have same : cursor.position + 1 + ((cursor.putAll text).position - cursor.position) =
        (cursor.putAll text).position + 1 := by
      omega
    have next := congrArg (List.drop 1) kept
    rw [List.drop_drop, List.drop_drop, same] at later
    rw [List.drop_drop, List.drop_drop] at next
    rw [next, later]

theorem terminate (h : Holds initial offered cursor) :
    Holds initial offered cursor.terminate.2 := by
  have stays := position_terminate cursor
  have stored := toList_buffer_terminate_snd cursor
  refine ⟨?_, ?_, ?_, ?_⟩
  · rw [← h.size, ← Array.length_toList, stored, List.length_set, Array.length_toList]
  · rw [stays, h.position]
  · rw [Cursor.written, stored, stays, List.take_set_of_le (Nat.le_refl _)]
    exact h.written
  · rw [stored, stays, List.drop_set_of_lt (Nat.lt_succ_self _), h.behind]

theorem act (h : Holds initial offered cursor) (action : Action) :
    Holds initial (offered ++ action.bytes features) (cursor.act features action) := by
  cases action with
  | offer offer =>
    rw [act_offer]
    exact h.putAll _
  | offerBorrowed offer =>
    rw [act_offerBorrowed]
    exact h.putAll _
  | terminate =>
    rw [Action.bytes, List.append_nil]
    exact h.terminate

theorem actAll (h : Holds initial offered cursor) (actions : List Action) :
    Holds initial (offered ++ Cursor.offered features actions)
      (cursor.actAll features actions) := by
  induction actions generalizing cursor offered with
  | nil => simpa [Cursor.offered, Cursor.actAll] using h
  | cons action rest ih =>
    have step : Holds initial (offered ++ action.bytes features) (cursor.act features action) :=
      h.act action
    have whole := ih step
    rw [List.append_assoc] at whole
    exact whole

end Holds

/-- The terminator in place is the last action, or it was in place before and the last action did
    not move the cursor. -/
theorem terminatedInPlace_append_singleton (cursor : Cursor) (actions : List Action)
    (action : Action) :
    cursor.TerminatedInPlace features (actions ++ [action]) ↔
      action = .terminate ∨ cursor.TerminatedInPlace features actions ∧
        (cursor.actAll features (actions ++ [action])).position =
          (cursor.actAll features actions).position := by
  constructor
  · rintro ⟨before, after, split, same⟩
    rcases List.eq_nil_or_concat after with rfl | ⟨rest, last, rfl⟩
    · exact Or.inl (List.append_inj_right' split rfl |> List.singleton_inj.mp)
    · rw [List.concat_eq_append, ← List.cons_append, ← List.append_assoc] at split
      obtain ⟨rfl, -⟩ := List.append_inj' split rfl
      -- the position never goes back, so it was the same in between
      have first : (cursor.actAll features before).position ≤
          ((cursor.actAll features before).actAll features (.terminate :: rest)).position :=
        position_le_actAll _ _
      have second : (cursor.actAll features (before ++ .terminate :: rest)).position ≤
          ((cursor.actAll features (before ++ .terminate :: rest)).actAll features
            [action]).position :=
        position_le_actAll _ _
      rw [← actAll_append] at first second
      exact Or.inr ⟨⟨before, rest, rfl, by omega⟩, by omega⟩
  · rintro (rfl | ⟨⟨before, after, rfl, same⟩, stays⟩)
    · refine ⟨actions, [], rfl, ?_⟩
      rw [actAll_append_singleton]
      exact (position_terminate _).symm
    · refine ⟨before, after ++ [action], by simp, ?_⟩
      rw [stays, same]

/-- The byte at the position is a terminator that was stored there, or what it was before. -/
structure EndsAt (initial : Array UInt8) (terminated : Prop) (cursor : Cursor) : Prop where
  terminator : terminated → cursor.position < cursor.capacity →
    cursor.buffer[cursor.position]? = some 0
  untouched : ¬ terminated → cursor.buffer[cursor.position]? = initial[cursor.position]?

/-- A text that moves the cursor moves it to a byte that was never stored. -/
theorem EndsAt.putAll {initial : Array UInt8} {offered : Bytes} {terminated : Prop}
    (h : EndsAt initial terminated cursor) (held : Holds initial offered cursor) (text : Bytes) :
    EndsAt initial (terminated ∧ (cursor.putAll text).position = cursor.position)
      (cursor.putAll text) := by
  by_cases stays : (cursor.putAll text).position = cursor.position
  · rw [putAll_eq_self stays]
    simpa using h
  · have ahead : cursor.position < (cursor.putAll text).position := by
      have := position_putAll cursor text
      omega
    refine ⟨fun both => absurd both.2 stays, fun _ => ?_⟩
    have kept := congrArg (·[0]?) (buffer_putAll_parts cursor text).2
    simp only [List.getElem?_drop, Nat.add_zero, Array.getElem?_toList] at kept
    rw [kept, held.getElem?_behind ahead]

theorem endsAt_terminate (initial : Array UInt8) (cursor : Cursor) :
    EndsAt initial True cursor.terminate.2 := by
  refine ⟨fun _ room => ?_, fun never => absurd trivial never⟩
  have size : cursor.terminate.2.capacity = cursor.buffer.size := by
    rw [capacity, ← Array.length_toList, toList_buffer_terminate_snd, List.length_set,
      Array.length_toList]
  rw [position_terminate, size] at room
  rw [← Array.getElem?_toList, toList_buffer_terminate_snd, position_terminate,
    List.getElem?_set_self (by simpa using room)]

theorem endsAt_actAll (features : Features) (buffer : Array UInt8) (actions : List Action) :
    EndsAt buffer ((ofBuffer buffer).TerminatedInPlace features actions)
      ((ofBuffer buffer).actAll features actions) := by
  -- from the front to the back: whether a terminator is in place hangs on the actions before
  induction actions using List.reverseRecOn with
  | nil => exact ⟨fun ⟨_, _, split, _⟩ => by simp at split, fun _ => rfl⟩
  | append_singleton actions action ih =>
    have held : Holds buffer _ ((ofBuffer buffer).actAll features actions) :=
      (holds_ofBuffer buffer).actAll actions
    rw [terminatedInPlace_append_singleton, actAll_append_singleton]
    cases action with
    | offer given =>
      simpa only [act_offer, reduceCtorEq, false_or] using ih.putAll held _
    | offerBorrowed given =>
      simpa only [act_offerBorrowed, reduceCtorEq, false_or] using ih.putAll held _
    | terminate =>
      simp only [true_or]
      exact endsAt_terminate buffer _

/-- A buffer is filled from its start. Whatever is offered to a cursor, by itself or through a
    reference, and wherever terminators are stored on the way, the cursor has moved by the number of
    bytes that were offered, as far as the buffer reaches, and in front of it stand the first of
    these bytes and no terminator. Behind the position nothing has changed, and the byte at the
    position is a terminator if one was stored right there, and otherwise has not changed either. A
    terminator can be stored if the end is not reached, and a text is stored as its bytes would be
    one by one. -/
theorem actAll_holds_prefix (features : Features) (buffer : Array UInt8)
    (actions : List Action) :
    let offered := offered features actions
    let cursor := (ofBuffer buffer).actAll features actions
    let terminated := (ofBuffer buffer).TerminatedInPlace features actions
    (cursor.capacity = buffer.size ∧ cursor.position ≤ cursor.capacity ∧
        cursor.position = min cursor.capacity offered.length ∧
        cursor.written = offered.take cursor.position) ∧
      (∀ index, cursor.position < index → cursor.buffer[index]? = buffer[index]?) ∧
      (terminated → cursor.position < cursor.capacity →
        cursor.buffer[cursor.position]? = some 0) ∧
      (¬ terminated → cursor.buffer[cursor.position]? = buffer[cursor.position]?) ∧
      (cursor.terminate.1 = true ↔ cursor.position < cursor.capacity) ∧
      ∀ bytes, cursor.putAll bytes = bytes.foldl Cursor.put cursor := by
  intro offered cursor terminated
  have held : Holds buffer offered cursor := (holds_ofBuffer buffer).actAll actions
  have ends : EndsAt buffer terminated cursor := endsAt_actAll features buffer actions
  have position : cursor.position = min cursor.capacity offered.length := by
    rw [capacity, held.size, held.position]
  exact ⟨⟨held.size, cursor.position_le, position, held.written⟩,
    fun index behind => held.getElem?_behind behind, ends.terminator, ends.untouched,
    terminate_fst cursor, Sink.Bytewise.putAll_eq cursor⟩

/-- Terminators after the first and the second byte of four. The number overwrites the first of
    them, and an empty text leaves the second one in place. -/
theorem actAll_holds_prefix_overwritten :
    let actions := [.offer (.put 97), .terminate,
      .offerBorrowed (.format (Bytes.ofString "%d") [.int 7]), .terminate, .offer (.putAll [])]
    let cursor := (ofBuffer #[120, 120, 120, 120]).actAll .full actions
    cursor.position = 2 ∧ cursor.written = Bytes.ofString "a7" ∧ cursor.buffer[2]? = some 0 ∧
      cursor.buffer[3]? = some 120 ∧ cursor.terminate.1 = true := by
  intro actions cursor
  obtain ⟨⟨-, -, position, written⟩, behind, terminator, -, room, -⟩ :=
    actAll_holds_prefix .full #[120, 120, 120, 120] actions
  have two : cursor.position = 2 := position.trans (by decide +kernel)
  have inPlace : (ofBuffer #[120, 120, 120, 120]).TerminatedInPlace .full actions :=
    ⟨actions.take 3, [.offer (.putAll [])], rfl, by decide +kernel⟩
  refine ⟨two, ?_, ?_, ?_, ?_⟩
  · refine written.trans ?_
    decide +kernel
  · rw [← two]
    exact terminator inPlace (by decide +kernel)
  · exact (behind 3 (by decide +kernel)).trans rfl
  · exact room.mpr (by decide +kernel)

end Cursor

end FormattedOutput
