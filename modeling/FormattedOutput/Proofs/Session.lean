import FormattedOutput.Console
import FormattedOutput.Device.Uart
import FormattedOutput.Proofs.Truncation

/-!
# Console sessions

A session on a console mixes formatted output with waiting, with other devices being selected and
with the selected device being used directly. What each step does to a serial transmitter can be
told in advance, without asking it even once: which bytes it gets, how often it is asked whether it
has drained, and whether that is an event. The main statement is that a session keeps this account
step by step, and that a device gets what was delivered while it was selected, and nothing else.
-/

namespace FormattedOutput

instance {δ : Type} [Device δ] : Sink.Bytewise (Transmitter δ) where
  putAll_eq _ _ := rfl

namespace Uart

theorem foldl_put (uart : Uart) (bytes : Bytes) :
    bytes.foldl Sink.put (Transmitter.mk uart) =
      ⟨{ uart with
          output := uart.output ++ bytes.toArray
          busy := uart.busy + uart.perPut * bytes.length }⟩ := by
  induction bytes generalizing uart with
  | nil => simp
  | cons byte rest ih =>
    have first : Sink.put (Transmitter.mk uart) byte = ⟨uart.put byte⟩ := rfl
    have pushed : uart.output.push byte ++ rest.toArray =
        uart.output ++ (byte :: rest).toArray := by
      apply Array.toList_inj.mp
      simp
    have busy : uart.busy + uart.perPut + uart.perPut * rest.length =
        uart.busy + uart.perPut * (byte :: rest).length := by
      rw [List.length_cons, Nat.mul_succ, Nat.add_assoc, Nat.add_comm uart.perPut]
    rw [List.foldl_cons, first, ih, put, pushed, busy]

/-- A transmitter is asked once for every no that it owes, and once more. -/
theorem drain_eq (uart : Uart) :
    Device.drain uart = { uart with busy := 0, polls := uart.polls + uart.busy + 1 } := by
  -- on what is still owed, for each question changes the transmitter
  generalize owed : uart.busy = count
  induction count generalizing uart with
  | zero =>
    have drained : (Device.poll uart).1 = true := by simp [Device.poll, poll, owed]
    rw [Device.drain, dif_pos drained]
    simp [Device.poll, poll, owed]
  | succ count ih =>
    have waits : ¬ (Device.poll uart).1 = true := by simp [Device.poll, poll, owed]
    have polled : (Device.poll uart).2 = { uart with busy := count, polls := uart.polls + 1 } := by
      simp [Device.poll, poll, owed]
    rw [Device.drain, dif_neg waits, polled, ih _ rfl]
    simp only [Uart.mk.injEq, true_and, and_true]
    omega

end Uart

namespace Console

/-- The event of a drain that begins with so many questions to be answered with no. -/
def waiting (owed : Nat) : List Event := if 0 < owed then [.waitingToDrain] else []

theorem flush_eq (uart : Uart) :
    flush ⟨uart⟩ =
      (⟨{ uart with busy := 0, polls := uart.polls + uart.busy + 1 }⟩, waiting uart.busy) := by
  obtain ⟨output, busy, polls, perPut⟩ := uart
  -- the first question is asked apart from the waiting and takes one off what is owed
  cases busy with
  | zero => rfl
  | succ count =>
    have polled : Device.poll (⟨output, count + 1, polls, perPut⟩ : Uart) =
        (false, ⟨output, count, polls + 1, perPut⟩) := by
      simp [Device.poll, Uart.poll]
    simp only [flush, polled, Uart.drain_eq, waiting, Nat.zero_lt_succ, if_true]
    simp only [Prod.mk.injEq, Console.mk.injEq, Uart.mk.injEq, true_and, and_true]
    omega

section Print

variable {features : Features} {format : Bytes} {args : List Arg}

/-- A transmitter gets what an appending sink gets. -/
theorem device_formatTo (uart : Uart)
    (fits : (formatTo features (HandleSink.appending #[]) format args).written < 2 ^ 64) :
    let whole := formatTo features (HandleSink.appending #[]) format args
    (formatTo features (Transmitter.mk uart) format args).sink.device =
      { uart with
        output := uart.output ++ whole.sink.handle
        busy := uart.busy + uart.perPut * whole.written } := by
  intro whole
  -- the calls of one plan go to both sinks, and each takes their content byte by byte
  have written : whole.written =
      (Sink.content (Plan.ofFormat features format args).calls).length :=
    written_interpret features _ _ format args
  have delivered : (Sink.content (Plan.ofFormat features format args).calls).toArray =
      whole.sink.handle := by
    rw [← toList_handle_formatTo fits]
  have fitsHere : (formatTo features (Transmitter.mk uart) format args).written < 2 ^ 64 := by
    rw [formatTo, written_interpret, ← written]
    exact fits
  rw [sink_formatTo _ args fitsHere, Sink.applyAll_eq_foldl, Uart.foldl_put, delivered, ← written]

/-- Printing delivers what formatting delivers, and then waits. -/
theorem print_eq (uart : Uart)
    (fits : (formatTo features (HandleSink.appending #[]) format args).written < 2 ^ 64) :
    let whole := formatTo features (HandleSink.appending #[]) format args
    let owed := uart.busy + uart.perPut * whole.written
    print features ⟨uart⟩ format args =
      { console := ⟨{ uart with
          output := uart.output ++ whole.sink.handle
          busy := 0
          polls := uart.polls + owed + 1 }⟩
        length := whole.written
        args := whole.args
        events := whole.events ++ waiting owed } := by
  intro whole owed
  have length : (formatTo features (Transmitter.mk uart) format args).written = whole.written := by
    rw [formatTo, written_interpret, ← written_interpret features (HandleSink.appending #[])]
    rfl
  have slots : (formatTo features (Transmitter.mk uart) format args).args = whole.args :=
    args_interpret ..
  have events : (formatTo features (Transmitter.mk uart) format args).events = whole.events :=
    events_interpret ..
  simp only [print, device_formatTo uart fits, flush_eq, length, slots, events]
  rfl

end Print

/-- One step of a session on a console. The last three use the selected device directly: they put a
    byte, say how many questions will still be answered with no, and ask once. -/
inductive Action where
  | print (format : Bytes) (args : List Arg)
  | flush
  | select (device : Uart)
  | put (byte : UInt8)
  | setBusy (count : Nat)
  | poll
  deriving DecidableEq, Repr

/-- What a step of a session answers: printing gives the length of the output and the arguments
    afterwards, and selecting a device the one that was selected before. -/
inductive Answer where
  | nothing
  | printed (length : Nat) (args : List Arg)
  | replaced (device : Uart)
  | polled (drained : Bool)
  deriving DecidableEq, Repr

/-- A console after a step, with the answer to the step and the events in it. -/
structure Turn where
  console : Console Uart
  answer : Answer
  events : List Event

/-- What one step of a session leaves behind. -/
def act (features : Features) (console : Console Uart) : Action → Turn
  | .print format args =>
    let printed := console.print features format args
    ⟨printed.console, .printed printed.length printed.args, printed.events⟩
  | .flush => ⟨console.flush.1, .nothing, console.flush.2⟩
  | .select device =>
    let (previous, console) := console.select device
    ⟨console, .replaced previous, []⟩
  | .put byte => ⟨⟨Device.put console.device byte⟩, .nothing, []⟩
  | .setBusy count => ⟨⟨{ console.device with busy := count }⟩, .nothing, []⟩
  | .poll =>
    let (drained, device) := Device.poll console.device
    ⟨⟨device⟩, .polled drained, []⟩

/-- What the steps of a session leave behind, one after the other. -/
def session (features : Features) (console : Console Uart) : List Action → List Turn
  | [] => []
  | action :: rest =>
    let turn := console.act features action
    turn :: session features turn.console rest

/-- The device that is selected after some steps. -/
def selected (features : Features) (console : Console Uart) (actions : List Action) : Uart :=
  (actions.foldl (fun console action => (console.act features action).console) console).device

/-- How often the transmitter would answer with no when a step begins to wait for it; never in a
    step that does not wait. Each byte that is printed makes it owe as much as one put directly. -/
def owed (features : Features) (uart : Uart) : Action → Nat
  | .print format args =>
    uart.busy +
      uart.perPut * (formatTo features (HandleSink.appending #[]) format args).written
  | .flush => uart.busy
  | .select _ | .put _ | .setBusy _ | .poll => 0

/-- What a step is to leave behind, told without asking the selected transmitter. Printing delivers
    what formatting into an appending sink does, and its answer and its events are those of this
    formatting. Whoever waits for a transmitter gets every no that it owes and one yes, and owing
    any is one event, the last. -/
def account (features : Features) (uart : Uart) (action : Action) : Turn :=
  let count := owed features uart action
  match action with
  | .print format args =>
    let whole := formatTo features (HandleSink.appending #[]) format args
    { console := ⟨{ uart with
        output := uart.output ++ whole.sink.handle
        busy := 0
        polls := uart.polls + count + 1 }⟩
      answer := .printed whole.written whole.args
      events := whole.events ++ waiting count }
  | .flush =>
    { console := ⟨{ uart with busy := 0, polls := uart.polls + count + 1 }⟩
      answer := .nothing
      events := waiting count }
  | .select device => ⟨⟨device⟩, .replaced uart, []⟩
  | .put byte =>
    let put := { uart with output := uart.output.push byte, busy := uart.busy + uart.perPut }
    ⟨⟨put⟩, .nothing, []⟩
  | .setBusy count => ⟨⟨{ uart with busy := count }⟩, .nothing, []⟩
  | .poll =>
    ⟨⟨{ uart with busy := uart.busy - 1, polls := uart.polls + 1 }⟩, .polled (uart.busy = 0), []⟩

/-- The bytes that a step delivers to the selected device. -/
def delivered (features : Features) : Action → Bytes
  | .print format args =>
    (formatTo features (HandleSink.appending #[]) format args).sink.handle.toList
  | .put byte => [byte]
  | .flush | .select _ | .setBusy _ | .poll => []

/-- No output of a step passes the sizes that fit in memory. -/
def Fits (features : Features) : Action → Prop
  | .print format args =>
    (formatTo features (HandleSink.appending #[]) format args).written < 2 ^ 64
  | .flush | .select _ | .put _ | .setBusy _ | .poll => True

variable {features : Features} {action : Action} {actions : List Action}

theorem act_eq_account (console : Console Uart) (fits : Fits features action) :
    console.act features action = account features console.device action := by
  cases action with
  | print format args => simp only [act, print_eq console.device fits, account, owed]
  | flush =>
    have drained : console.flush = _ := flush_eq console.device
    simp only [act, drained, account, owed]
  | select device => rfl
  | put byte => rfl
  | setBusy count => rfl
  | poll => rfl

/-- Of the events of a step exactly one is a wait if the step waits for a transmitter that owes
    something, and none otherwise: no formatting waits. -/
theorem count_waitingToDrain_account (uart : Uart) (action : Action) :
    (account features uart action).events.count .waitingToDrain =
      if 0 < owed features uart action then 1 else 0 := by
  have waits (count : Nat) :
      (waiting count).count .waitingToDrain = if 0 < count then 1 else 0 := by
    rw [waiting]
    split <;> rfl
  cases action with
  | print format args =>
    have none : (formatTo features (HandleSink.appending #[]) format args).events.count
        .waitingToDrain = 0 := by
      rw [Outcome.events]
      split <;> rfl
    rw [account, List.count_append, none, waits, Nat.zero_add]
  | flush => exact waits uart.busy
  | select device | put byte | setBusy count | poll => rfl

theorem length_session (console : Console Uart) :
    (console.session features actions).length = actions.length := by
  induction actions generalizing console with
  | nil => rfl
  | cons action rest ih => rw [session, List.length_cons, ih, List.length_cons]

theorem selected_append (console : Console Uart) (before after : List Action) :
    console.selected features (before ++ after) =
      selected features ⟨console.selected features before⟩ after := by
  rw [selected, List.foldl_append]
  rfl

/-- In a session each step is done on the device that is selected after the steps before it. -/
theorem getElem?_session (console : Console Uart) (before : List Action) (action : Action)
    (after : List Action) :
    (console.session features (before ++ action :: after))[before.length]? =
      some (act features ⟨console.selected features before⟩ action) := by
  induction before generalizing console with
  | nil => rfl
  | cons first before ih => exact ih (console.act features first).console

theorem output_account (uart : Uart) (keeps : ∀ device, action ≠ .select device) :
    (account features uart action).console.device.output =
      uart.output ++ (delivered features action).toArray := by
  cases action with
  | select device => exact absurd rfl (keeps device)
  | print format args | put byte | flush | setBusy count | poll => simp [account, delivered]

theorem output_selected (uart : Uart) (fits : ∀ action ∈ actions, Fits features action)
    (keeps : ∀ device, .select device ∉ actions) :
    (selected features ⟨uart⟩ actions).output =
      uart.output ++ (actions.flatMap (delivered features)).toArray := by
  induction actions generalizing uart with
  | nil => simp [selected]
  | cons action rest ih =>
    have first := act_eq_account ⟨uart⟩ (fits action List.mem_cons_self)
    have same : ∀ device, action ≠ .select device := fun device equal =>
      keeps device (equal ▸ List.mem_cons_self)
    have later := ih (act features ⟨uart⟩ action).console.device
      (fun other member => fits other (List.mem_cons_of_mem _ member))
      (fun device member => keeps device (List.mem_cons_of_mem _ member))
    have begins : selected features ⟨uart⟩ (action :: rest) =
        selected features ⟨(act features ⟨uart⟩ action).console.device⟩ rest := rfl
    rw [begins, later, first, output_account uart same, List.flatMap_cons, ← List.append_toArray,
      Array.append_assoc]

/-- Sessions keep their account. Each step does to the device that is selected at the moment what
    the account of the step says, and answers and reports what the account says, with one wait among
    its events exactly if it waits for a device that owes something. While no other device is
    selected, the output of the selected one grows by what the steps deliver, in order. -/
theorem session_keeps_account (features : Features) (console : Console Uart)
    (actions : List Action) (fits : ∀ action ∈ actions, Fits features action) :
    (console.session features actions).length = actions.length ∧
      (∀ before action after, actions = before ++ action :: after →
        let uart := console.selected features before
        let turn := account features uart action
        (console.session features actions)[before.length]? = some turn ∧
          turn.events.count .waitingToDrain = if 0 < owed features uart action then 1 else 0) ∧
      ∀ before period after, actions = before ++ period ++ after →
        (∀ device, .select device ∉ period) →
          (console.selected features (before ++ period)).output =
            (console.selected features before).output ++
              (period.flatMap (delivered features)).toArray := by
  refine ⟨length_session console, ?_, ?_⟩
  · rintro before action after rfl
    refine ⟨?_, count_waitingToDrain_account _ action⟩
    rw [getElem?_session, act_eq_account _ (fits action (by simp))]
  · rintro before period after rfl keeps
    rw [selected_append]
    exact output_selected _ (fun action member => fits action (by simp [member])) keeps

/-- A transmitter that owes two times no for each byte: one byte directly, and two in front of a
    directive whose argument is a string. Behind the print another device is selected. -/
theorem session_keeps_account_early :
    let print := Action.print (Bytes.ofString "ab%d") [.str (Bytes.ofString "x")]
    let actions := [.put 33, print, .select (.new 1 0), .flush]
    let console : Console Uart := ⟨.new 0 2⟩
    let turns := console.session .full actions
    (∀ action ∈ actions, Fits .full action) ∧ turns.length = 4 ∧
      turns[1]?.map (·.console.device) = some ⟨#[33, 97, 98], 0, 7, 2⟩ ∧
      turns[1]?.map (·.answer) = some (.printed 2 [.str (Bytes.ofString "x")]) ∧
      turns[1]?.map (·.events) =
        some [.stoppedEarly (.mismatch .signed) 2 4, .waitingToDrain] ∧
      turns[3]?.map (·.events) = some [.waitingToDrain] ∧
      (console.selected .full [.put 33, print]).output = #[33, 97, 98] := by
  intro print actions console turns
  have fits : ∀ action ∈ actions, Fits .full action := by
    intro action member
    simp only [actions, List.mem_cons, List.not_mem_nil, or_false] at member
    obtain rfl | rfl | rfl | rfl := member
    · trivial
    · have short : (formatTo .full (HandleSink.appending #[]) (Bytes.ofString "ab%d")
          [.str (Bytes.ofString "x")]).written < 2 ^ 64 := by decide +kernel
      exact short
    · trivial
    · trivial
  obtain ⟨length, steps, outputs⟩ := session_keeps_account .full console actions fits
  obtain ⟨printed, -⟩ := steps [.put 33] print [.select (.new 1 0), .flush] rfl
  obtain ⟨waited, -⟩ := steps [.put 33, print, .select (.new 1 0)] .flush [] rfl
  have stream := outputs [] [.put 33, print] [.select (.new 1 0), .flush] rfl (by simp [print])
  refine ⟨fits, length, ?_, ?_, ?_, ?_, stream.trans (by decide +kernel)⟩
  · exact (congrArg _ printed).trans (by decide +kernel)
  · exact (congrArg _ printed).trans (by decide +kernel)
  · exact (congrArg _ printed).trans (by decide +kernel)
  · exact (congrArg _ waited).trans (by decide +kernel)

end Console

end FormattedOutput
