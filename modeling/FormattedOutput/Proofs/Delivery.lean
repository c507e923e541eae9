import FormattedOutput.Bounded
import FormattedOutput.Rendering
import Mathlib.Tactic.Common

/-!
# What reaches a sink

An output asks for a sequence of calls on a sink, whatever the sink is. A ceiling clips that
sequence: of every call only the bytes that still have room are kept. The main statement is that
every bounded operation makes its calls clipped to the room that is left, and counts them whole.
-/

namespace FormattedOutput

namespace Sink

/-- The bytes that a sequence of calls offers. -/
def content (calls : List Call) : Bytes := calls.flatMap Call.bytes

/-- The calls that are left of a sequence if there is room for so many bytes. A byte without room is
    not put at all, while a text without room is put as an empty one. -/
def clip : Nat → List Call → List Call
  | _, [] => []
  | 0, .put _ :: rest => clip 0 rest
  | room + 1, .put byte :: rest => .put byte :: clip room rest
  | room, .putAll bytes :: rest => .putAll (bytes.take room) :: clip (room - bytes.length) rest

@[simp] theorem content_nil : content [] = [] := rfl

@[simp] theorem content_cons (call : Call) (calls : List Call) :
    content (call :: calls) = call.bytes ++ content calls := rfl

@[simp] theorem content_append (first second : List Call) :
    content (first ++ second) = content first ++ content second := by
  simp only [content, List.flatMap_append]

@[simp] theorem content_replicate_put (count : Nat) (byte : UInt8) :
    content (List.replicate count (.put byte)) = List.replicate count byte := by
  induction count with
  | zero => rfl
  | succ count ih => simp [List.replicate_succ, ih, Call.bytes]

/-- The bytes that are left after clipping are the first ones. -/
theorem content_clip (room : Nat) (calls : List Call) :
    content (clip room calls) = (content calls).take room := by
  fun_induction clip room calls with
  | case1 => simp
  | case2 byte rest ih => simpa using ih
  | case3 room byte rest ih => simp [Call.bytes, ih]
  | case4 room bytes rest ih => simp [Call.bytes, ih, List.take_append]

theorem clip_append (room : Nat) (first second : List Call) :
    clip room (first ++ second) =
      clip room first ++ clip (room - (content first).length) second := by
  fun_induction clip room first with
  | case1 => simp
  | case2 byte rest ih => simpa [clip] using ih
  | case3 room byte rest ih =>
    have room_sub : room + 1 - (content (.put byte :: rest)).length =
        room - (content rest).length := by
      simp only [content_cons, Call.bytes, List.singleton_append, List.length_cons]
      omega
    rw [room_sub, List.cons_append, clip, ih, List.cons_append]
  | case4 room bytes rest ih =>
    have room_sub : room - (content (.putAll bytes :: rest)).length =
        room - bytes.length - (content rest).length := by
      simp only [content_cons, Call.bytes, List.length_append]
      omega
    rw [room_sub, List.cons_append, clip, ih, List.cons_append]

/-- Calls with room for all their bytes are not clipped. -/
theorem clip_of_length_le {room : Nat} {calls : List Call}
    (fits : (content calls).length ≤ room) : clip room calls = calls := by
  fun_induction clip room calls with
  | case1 => rfl
  | case2 byte rest ih => simp [Call.bytes] at fits
  | case3 room byte rest ih =>
    simp only [content_cons, Call.bytes, List.singleton_append, List.length_cons] at fits
    rw [ih (by omega)]
  | case4 room bytes rest ih =>
    simp only [content_cons, Call.bytes, List.length_append] at fits
    rw [ih (by omega), List.take_of_length_le (by omega)]

theorem clip_replicate_put (room count : Nat) (byte : UInt8) :
    clip room (List.replicate count (.put byte)) =
      List.replicate (min count room) (.put byte) := by
  induction count generalizing room with
  | zero => simp [clip]
  | succ count ih =>
    cases room with
    | zero => simpa [List.replicate_succ, clip] using ih 0
    | succ room => simp [List.replicate_succ, clip, ih, Nat.succ_min_succ]

variable {σ : Type} [Sink σ]

@[simp] theorem applyAll_nil (sink : σ) : applyAll sink [] = sink := rfl

@[simp] theorem applyAll_append (sink : σ) (first second : List Call) :
    applyAll sink (first ++ second) = applyAll (applyAll sink first) second :=
  List.foldl_append

/-- Filling is putting the same byte again and again. -/
theorem applyAll_replicate_put (sink : σ) (byte : UInt8) (count : Nat) :
    applyAll sink (List.replicate count (.put byte)) = fill sink byte count := by
  induction count with
  | zero => rfl
  | succ count ih =>
    rw [List.replicate_succ', applyAll_append, ih]
    rfl

end Sink

namespace Ceiling

@[simp] theorem claimMany_zero (ceiling : Ceiling) : (ceiling.claimMany 0).2 = ceiling := by
  simp [claimMany]

@[simp] theorem remaining_claimMany (ceiling : Ceiling) (n : Nat) :
    (ceiling.claimMany n).2.remaining = ceiling.remaining - n := by
  simp only [claimMany, remaining]
  omega

/-- Two claims one after the other are one claim. -/
theorem claimMany_claimMany (ceiling : Ceiling) (first second : Nat) :
    ((ceiling.claimMany first).2.claimMany second).2 = (ceiling.claimMany (first + second)).2 := by
  have := ceiling.deposited_le
  simp only [claimMany, remaining, Ceiling.mk.injEq, and_true]
  omega

/-- A claim for one byte is a claim for many that asks for one. -/
theorem claimOne_eq (ceiling : Ceiling) :
    ceiling.claimOne = (decide (0 < ceiling.remaining), (ceiling.claimMany 1).2) := by
  have := ceiling.deposited_le
  simp only [claimOne, claimMany, remaining]
  split
  next room =>
    have one : min 1 (ceiling.cap - ceiling.deposited) = 1 := by omega
    have left : 0 < ceiling.cap - ceiling.deposited := by omega
    simp [one, left]
  next full =>
    have none : ceiling.cap - ceiling.deposited = 0 := by omega
    simp [none]

end Ceiling

namespace Rendering

/-- The calls that a rendering asks for: one for a byte, one for the value of a field and one for
    each of its fill bytes, and none for a count. Fill bytes stand in front of the value unless the
    width is negative; then they are spaces behind it. -/
def calls : Rendering → List Sink.Call
  | byte value => [.put value]
  | field value width pad =>
    if 0 ≤ width then
      List.replicate (width.natAbs - value.length) (.put pad.byte) ++ [.putAll value]
    else .putAll value :: List.replicate (width.natAbs - value.length) (.put ' '.toUInt8)
  | count => []

end Rendering

namespace Bounded

variable {σ : Type} [Sink σ] {out : Bounded σ}

/-- An operation counts all bytes of the calls and makes the calls as far as there is room. -/
structure Delivers (out : Bounded σ) (calls : List Sink.Call) (result : Nat × Bounded σ) :
    Prop where
  count : result.1 = (Sink.content calls).length
  sink : result.2.sink = Sink.applyAll out.sink (Sink.clip out.ceiling.remaining calls)
  ceiling : result.2.ceiling = (out.ceiling.claimMany (Sink.content calls).length).2

/-- Two operations one after the other deliver the calls of both. -/
theorem Delivers.append {first second : List Sink.Call} {result later : Nat × Bounded σ}
    (h : out.Delivers first result) (h' : result.2.Delivers second later) :
    out.Delivers (first ++ second) (result.1 + later.1, later.2) := by
  refine ⟨?_, ?_, ?_⟩
  · simp [h.count, h'.count]
  · rw [h'.sink, h.sink, h.ceiling, Ceiling.remaining_claimMany, Sink.clip_append,
      Sink.applyAll_append]
  · simp [h'.ceiling, h.ceiling, Ceiling.claimMany_claimMany]

theorem put_delivers (out : Bounded σ) (byte : UInt8) :
    out.Delivers [.put byte] (out.put byte) := by
  cases room : out.ceiling.remaining with
  | zero =>
    refine ⟨?_, ?_, ?_⟩ <;>
      simp [put, Ceiling.claimOne_eq, room, Sink.clip, Sink.Call.bytes]
  | succ room' =>
    refine ⟨?_, ?_, ?_⟩ <;>
      simp [put, Ceiling.claimOne_eq, room, Sink.clip, Sink.Call.bytes, Sink.applyAll, Sink.apply]

theorem putAll_delivers (out : Bounded σ) (bytes : Bytes) :
    out.Delivers [.putAll bytes] (out.putAll bytes) := by
  have granted : bytes.take (out.ceiling.claimMany bytes.length).1 =
      bytes.take out.ceiling.remaining := by
    simp [Ceiling.claimMany, List.take_eq_take_iff, Nat.min_comm]
  refine ⟨?_, ?_, ?_⟩
  · simp [putAll, Sink.Call.bytes]
  · simp [putAll, granted, Sink.clip, Sink.applyAll, Sink.apply]
  · simp [putAll, Sink.Call.bytes]

theorem fill_delivers (out : Bounded σ) (byte : UInt8) (count : Nat) :
    out.Delivers (List.replicate count (.put byte)) (out.fill byte count) := by
  refine ⟨?_, ?_, ?_⟩
  · simp [fill]
  · rw [Sink.clip_replicate_put, Sink.applyAll_replicate_put]
    rfl
  · simp [fill]

/-- A field delivers its value and the fill bytes on the side that the sign of the width says. -/
theorem field_delivers (out : Bounded σ) (value : Bytes) (width : Int) (pad : Pad) :
    out.Delivers (Rendering.field value width pad).calls (out.field value width pad) := by
  simp only [Rendering.calls, field]
  split
  next => exact (fill_delivers out pad.byte _).append (putAll_delivers _ value)
  next => exact (putAll_delivers out value).append (fill_delivers _ Pad.space.byte _)

/-- Carries out a rendering. -/
def perform (out : Bounded σ) : Rendering → Nat × Bounded σ
  | .byte byte => out.put byte
  | .field value width pad => out.field value width pad
  | .count => (0, out)

theorem perform_delivers (out : Bounded σ) (rendering : Rendering) :
    out.Delivers rendering.calls (out.perform rendering) := by
  cases rendering with
  | byte byte => exact put_delivers out byte
  | field value width pad => exact field_delivers out value width pad
  | count => refine ⟨?_, ?_, ?_⟩ <;> simp [perform, Rendering.calls, Sink.clip]

end Bounded

end FormattedOutput
