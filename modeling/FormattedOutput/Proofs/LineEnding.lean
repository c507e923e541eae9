import FormattedOutput.Proofs.Agreement
import FormattedOutput.Proofs.FirstStep
import FormattedOutput.Proofs.Pairing
import FormattedOutput.Proofs.Session

/-!
# Ending the line

Printing a line is printing with a newline behind the literal, and the newline is there before the
literal is checked. It is no flag, no digit, no marker and no conversion, so it never completes a
directive: a literal is accepted with it exactly if it is accepted without it, with the same pieces,
and a directive that the literal leaves incomplete is then refused for the newline. The output of an
accepted call is followed by the newline, and nothing else changes.
-/

namespace FormattedOutput

/-- The error of a literal once a newline follows it. -/
def FormatError.endLine : FormatError → FormatError
  | incomplete quoted => unsupported (quoted.push '\n')
  | unsupported quoted => unsupported quoted
  | nul => nul

/-- The error of a call once its literal is followed by a newline. -/
def CallError.endLine : CallError → CallError
  | format error => format error.endLine
  | form error => form error
  | argumentCount required supplied => argumentCount required supplied

/-- The expansion with a newline behind its format. -/
def Expansion.endLine (expansion : Expansion) : Expansion :=
  { expansion with format := expansion.format ++ ['\n'.toUInt8] }

/-- What follows a text is not part of an optional element in front, unless it begins with it. -/
theorem takeOptional_append {α : Type} [DecidableEq α] {wanted : α} {after : List α}
    (other : after.head? ≠ some wanted) (text : List α) :
    takeOptional wanted (text ++ after) =
      ((takeOptional wanted text).1, (takeOptional wanted text).2 ++ after) := by
  cases text with
  | nil =>
    cases after with
    | nil => rfl
    | cons first after =>
      have different : first ≠ wanted := by simpa using other
      simp [takeOptional, different]
  | cons found rest => by_cases same : found = wanted <;> simp [takeOptional, same]

namespace Piece

variable {rest after : List Char} {character conversion : Char}

theorem optionText_append_newline {wanted : Char} (other : '\n' ≠ wanted) (text : List Char) :
    optionText wanted (text ++ ['\n']) =
      ((optionText wanted text).1, (optionText wanted text).2 ++ ['\n']) := by
  have split : takeOptional wanted (text ++ ['\n']) = _ := takeOptional_append (by simpa) text
  rw [optionText, split, optionText]
  generalize takeOptional wanted text = parts
  obtain ⟨present, rest⟩ := parts
  cases present <;> rfl

/-- A newline is no option, so it only lengthens what follows the options. -/
theorem options_append_newline (text : List Char) :
    options (text ++ ['\n']) =
      ⟨(options text).text, (options text).long, (options text).rest ++ ['\n']⟩ := by
  have digits (text : List Char) :
      (text ++ ['\n']).takeWhile Char.isDigit = text.takeWhile Char.isDigit ∧
        (text ++ ['\n']).dropWhile Char.isDigit = text.dropWhile Char.isDigit ++ ['\n'] := by
    have stops : Char.isDigit '\n' = false := rfl
    induction text with
    | nil => exact ⟨rfl, rfl⟩
    | cons character rest ih => cases digit : character.isDigit <;> simp [digit, ih]
  simp only [options, optionText_append_newline (by decide : '\n' ≠ '-'),
    optionText_append_newline (by decide : '\n' ≠ '0'), digits,
    optionText_append_newline (by decide : '\n' ≠ 'l')]

/-- A conversion stays what it is, and the newline is behind what follows it. -/
theorem options_append_newline_cons (behind : (options rest).rest = conversion :: after) :
    options (rest ++ ['\n']) =
      ⟨(options rest).text, (options rest).long, conversion :: (after ++ ['\n'])⟩ := by
  rw [options_append_newline, behind, List.cons_append]

section Options

variable {text : List Char} {long : Bool}

theorem scan_of_unsupported (found : options rest = ⟨text, long, conversion :: after⟩)
    (unsupported : ofConversion? long conversion = none) :
    scan ('%' :: rest) =
      .error (.unsupported (String.ofList ('%' :: text ++ [conversion]))) := by
  rw [scan, if_pos rfl, found]
  simp only [unsupported]

theorem scan_of_supported {pieces : List Piece}
    (found : options rest = ⟨text, long, conversion :: after⟩)
    (supported : ofConversion? long conversion = some pieces) :
    scan ('%' :: rest) = (scan after).map (pieces ++ ·) := by
  rw [scan, if_pos rfl, found]
  simp only [supported]

end Options

theorem scan_of_ne (other : character ≠ '%') : scan (character :: rest) = scan rest := by
  rw [scan, if_neg other]

/-- The newline adds no piece, and it is the conversion of a directive that the text leaves
    incomplete. -/
theorem scan_append_newline (literal : List Char) :
    scan (literal ++ ['\n']) = (scan literal).mapError FormatError.endLine := by
  -- along the walk over the literal, whose steps do not see the newline until the last
  fun_induction scan literal with
  | case1 =>
    have other : '\n' ≠ '%' := by decide
    rw [List.nil_append, scan_of_ne other, scan]
    rfl
  | case2 rest found behind =>
    have behind : (options rest).rest = [] := behind
    have spelled := options_append rest
    rw [behind, List.append_nil] at spelled
    have ended : options (rest ++ ['\n']) = ⟨rest, (options rest).long, ['\n']⟩ := by
      rw [options_append_newline, spelled, behind]
      rfl
    have quoted : String.ofList ('%' :: rest ++ ['\n']) =
        (String.ofList ('%' :: rest)).push '\n' := by
      rw [← String.toList_inj]
      simp
    rw [List.cons_append, scan_of_unsupported ended rfl, quoted]
    rfl
  | case3 rest found conversion after behind unsupported =>
    rw [List.cons_append, scan_of_unsupported (options_append_newline_cons behind) unsupported]
    rfl
  | case4 rest found conversion after behind pieces supported ih =>
    rw [List.cons_append, scan_of_supported (options_append_newline_cons behind) supported, ih]
    cases scan after <;> rfl
  | case5 character rest other ih => rw [List.cons_append, scan_of_ne other, ih]

theorem ofFormat_append_newline (literal : List Char) :
    ofFormat (literal ++ ['\n']) = (ofFormat literal).mapError FormatError.endLine := by
  by_cases nul : '\x00' ∈ literal
  · rw [ofFormat, ofFormat, if_pos nul, if_pos (List.mem_append_left _ nul)]
    rfl
  · have nulFree : '\x00' ∉ literal ++ ['\n'] := by simp [nul]
    rw [ofFormat_of_nulFree nul, ofFormat_of_nulFree nulFree, scan_append_newline]

end Piece

section Expansion

/-- Printing a line expands to what printing expands to, with a newline behind the format, and is
    refused for the same reason, but for a directive that the newline ends. -/
theorem expand_printLine (input : CallInput) :
    input.expand .printLine =
      ((input.expand .print).map Expansion.endLine).mapError CallError.endLine := by
  have literal : (CallForm.printLine.format input.format).toList = input.format.toList ++ ['\n'] :=
    String.toList_push _
  have bytes : Bytes.ofString (CallForm.printLine.format input.format) =
      Bytes.ofString input.format ++ ['\n'.toUInt8] := by
    rw [Bytes.ofString, literal, Bytes.ofChars_append]
    rfl
  simp only [CallInput.expand, literal, bytes, Piece.ofFormat_append_newline]
  simp only [CallForm.format]
  cases Piece.ofFormat input.format.toList with
  | error error => rfl
  | ok pieces =>
    simp only [Except.mapError]
    split <;> rfl

theorem expandTokensWith_printLine (reader : ExpressionReader) (tokens : List Token) :
    expandTokensWith reader .printLine tokens =
      ((expandTokensWith reader .print tokens).map Expansion.endLine).mapError
        CallError.endLine := by
  simp only [expandTokensWith, expand_printLine]
  cases CallInput.ofTokens reader tokens with
  | error error => rfl
  | ok input =>
    dsimp only
    split <;> rfl

end Expansion

section Interpretation

variable {features : Features} {format : Bytes} {args : List Arg}

/-- A format that is interpreted to its end, and a newline behind it. -/
theorem Plan.ofFormat_append_newline (nulFree : 0 ∉ format)
    (complete : (ofFormat features format args).stopped = none) :
    ofFormat features (format ++ ['\n'.toUInt8]) args =
      ⟨(ofFormat features format args).steps ++ [.text '\n'.toUInt8 1], none, 0⟩ := by
  rw [ofFormat_append nulFree complete, ofFormat_literal (by decide) (by decide), ofFormat_nil]
  rfl

/-- The newline is put behind the output, and no argument changes for it. -/
theorem formatTo_append_newline (nulFree : 0 ∉ format)
    (complete : (Plan.ofFormat features format args).stopped = none)
    (short : (formatTo features (HandleSink.appending #[]) format args).written < 2 ^ 64 - 1) :
    let whole := formatTo features (HandleSink.appending #[]) format args
    let ended :=
      formatTo features (HandleSink.appending #[]) (format ++ ['\n'.toUInt8]) args
    ended.sink.handle.toList = whole.sink.handle.toList ++ ['\n'.toUInt8] ∧
      ended.written = whole.written + 1 ∧ ended.args = whole.args := by
  intro whole ended
  have plan := Plan.ofFormat_append_newline nulFree complete
  have calls : (Plan.ofFormat features (format ++ ['\n'.toUInt8]) args).calls =
      (Plan.ofFormat features format args).calls ++ [.put '\n'.toUInt8] := by
    rw [plan, Plan.calls, List.flatMap_append]
    rfl
  have written : whole.written = _ := written_interpret ..
  have longer : ended.written = whole.written + 1 := by
    have counted : ended.written = _ := written_interpret ..
    rw [counted, calls, Sink.content_append, List.length_append, written]
    rfl
  have bound : whole.written < 2 ^ 64 - 1 := short
  have fits : whole.written < 2 ^ 64 := by omega
  have fitsEnded : ended.written < 2 ^ 64 := by omega
  refine ⟨?_, longer, ?_⟩
  · have output : whole.sink.handle.toList = _ := toList_handle_formatTo fits
    have outputEnded : ended.sink.handle.toList = _ := toList_handle_formatTo fitsEnded
    rw [output, outputEnded, calls, Sink.content_append]
    rfl
  · have left : whole.args = _ := args_interpret_eq
    have leftEnded : ended.args = _ := args_interpret_eq
    rw [left, leftEnded, plan, Plan.argsFrom_append, Plan.argsFrom]
    rfl

theorem foldl_put_transmitter {δ : Type} [Device δ] (device : δ) (bytes : Bytes) :
    bytes.foldl Sink.put (Transmitter.mk device) = ⟨bytes.foldl Device.put device⟩ := by
  induction bytes generalizing device with
  | nil => rfl
  | cons byte rest ih => exact ih (Device.put device byte)

/-- Printing puts what an appending sink gets on the device byte by byte, and then waits. -/
theorem Console.print_eq_foldl {δ : Type} [Device δ] (console : Console δ)
    (fits : (formatTo features (HandleSink.appending #[]) format args).written < 2 ^ 64) :
    let whole := formatTo features (HandleSink.appending #[]) format args
    let printed := console.print features format args
    printed.console =
        (flush ⟨whole.sink.handle.toList.foldl Device.put console.device⟩).1 ∧
      printed.length = whole.written ∧ printed.args = whole.args := by
  intro whole printed
  have written : whole.written = _ := written_interpret ..
  have output : whole.sink.handle.toList = _ := toList_handle_formatTo fits
  have fitsHere :
      (formatTo features (Transmitter.mk console.device) format args).written < 2 ^ 64 := by
    rw [formatTo, written_interpret, ← written]
    exact fits
  have device : (formatTo features (Transmitter.mk console.device) format args).sink.device =
      whole.sink.handle.toList.foldl Device.put console.device := by
    rw [sink_formatTo _ args fitsHere, Sink.applyAll_eq_foldl, foldl_put_transmitter, output]
  refine ⟨?_, ?_, args_interpret ..⟩
  · simp only [printed, print, device]
  · rw [written]
    exact written_interpret ..

end Interpretation

/-- Whether arguments are what the builders of an expansion make, one by one. -/
def Expansion.Takes (expansion : Expansion) (args : List Arg) : Prop :=
  List.Forall₂ (fun built arg => built.1.builds arg = true) expansion.args args

/-- The format of an expansion is interpreted to its end with the arguments it takes. -/
theorem CallInput.complete_of_expand {form : CallForm} {input : CallInput} {found : Expansion}
    {args : List Arg} (expanded : input.expand form = .ok found) (takes : found.Takes args) :
    0 ∉ found.format ∧ (Plan.ofFormat .full found.format args).stopped = none := by
  obtain ⟨pieces, accepted, same, rfl⟩ := expand_eq_ok_iff.mp expanded
  obtain ⟨nulFree, -, -⟩ := Piece.layout_of_ofFormat accepted
  have built : Piece.Built pieces args := by
    have kinds : List.Forall₂ (fun (kind : ArgKind) arg => kind.builds arg = true)
        ((input.expansion form pieces).args.map Prod.fst) args :=
      List.forall₂_map_left_iff.mpr takes
    rwa [(args_expansion form same).1, List.forall₂_map_left_iff] at kinds
  obtain ⟨stopped, -⟩ := interpret_of_accepted accepted built.typed CallLog.empty .unbounded
  rw [stopped_interpret] at stopped
  exact ⟨nulFree, stopped⟩

/-- Printing a line is printing and one newline. A call that prints a line expands to what the call
    that prints expands to, with the same builders on the same arguments in the same order and with
    a newline behind the bytes of the format, or is refused for the same reason; only a directive
    that the literal leaves incomplete is then unsupported, quoted with the newline in the end. So
    it is for calls given as tokens, whatever reads their expressions. With arguments from the
    builders of the expansion, on any console, the call that prints a line puts the bytes that the
    other one puts and then a newline on the device before it waits, returns one more, and leaves
    the same arguments. -/
theorem print_printLine :
    (∀ input : CallInput, input.expand .printLine =
      ((input.expand .print).map Expansion.endLine).mapError CallError.endLine) ∧
    (∀ (reader : ExpressionReader) (tokens : List Token),
      expandTokensWith reader .printLine tokens =
        ((expandTokensWith reader .print tokens).map Expansion.endLine).mapError
          CallError.endLine) ∧
    ∀ (input : CallInput) (plain line : Expansion), input.expand .print = .ok plain →
      input.expand .printLine = .ok line →
        ∀ (δ : Type) [Device δ] (console : Console δ) (args : List Arg), plain.Takes args →
          let whole := formatTo .full (HandleSink.appending #[]) plain.format args
          let printed := console.print .full plain.format args
          let ended := console.print .full line.format args
          whole.written < 2 ^ 64 - 1 →
            let output := whole.sink.handle.toList
            printed.console = (Console.flush ⟨output.foldl Device.put console.device⟩).1 ∧
              ended.console = (Console.flush
                ⟨(output ++ ['\n'.toUInt8]).foldl Device.put console.device⟩).1 ∧
              ended.length = printed.length + 1 ∧ ended.args = printed.args := by
  refine ⟨expand_printLine, expandTokensWith_printLine, ?_⟩
  intro input plain line expanded expandedLine δ _ console args takes whole printed ended short
    output
  obtain ⟨nulFree, complete⟩ := CallInput.complete_of_expand expanded takes
  have format : line.format = plain.format ++ ['\n'.toUInt8] := by
    rw [expand_printLine, expanded] at expandedLine
    exact congrArg Expansion.format (Except.ok.inj expandedLine).symm
  obtain ⟨outputEnded, longer, left⟩ := formatTo_append_newline nulFree complete short
  rw [← format] at outputEnded longer left
  have fits : whole.written < 2 ^ 64 := Nat.lt_of_lt_of_le short (Nat.sub_le _ _)
  have fitsEnded : (formatTo .full (HandleSink.appending #[]) line.format args).written < 2 ^ 64 :=
    longer ▸ Nat.add_lt_of_lt_sub short
  obtain ⟨device, length, slots⟩ := console.print_eq_foldl fits
  obtain ⟨deviceEnded, lengthEnded, slotsEnded⟩ := console.print_eq_foldl fitsEnded
  rw [outputEnded] at deviceEnded
  refine ⟨device, deviceEnded, ?_, ?_⟩
  · exact lengthEnded.trans (longer.trans (congrArg (· + 1) length.symm))
  · exact slotsEnded.trans (left.trans slots.symm)

/-- A number in a field and a count, on a transmitter that owes two times no for each byte; and a
    literal that ends inside a directive. -/
theorem print_printLine_counted :
    let input : CallInput := ⟨⟨"console", false⟩, "a%3d%n", [⟨"7", false⟩, ⟨"n", false⟩]⟩
    let unfinished : CallInput := { input with format := "a%5" }
    let plain := input.expansion .print [.signed false, .count]
    let args := [.int 7, .count 0]
    let ended := Console.print .full ⟨Uart.new 0 2⟩ plain.endLine.format args
    input.expand .print = .ok plain ∧ input.expand .printLine = .ok plain.endLine ∧
      plain.Takes args ∧ (formatTo .full (HandleSink.appending #[]) plain.format args).written < 9 ∧
      ended.console.device = ⟨(Bytes.ofString "a  7\n").toArray, 0, 11, 2⟩ ∧
      ended.length = 5 ∧ ended.args = [.int 7, .count 4] ∧
      unfinished.expand .print = .error (.format (.incomplete "%5")) ∧
      unfinished.expand .printLine = .error (.format (.unsupported "%5\n")) := by
  intro input unfinished plain args ended
  obtain ⟨expands, -, runs⟩ := print_printLine
  have expanded : input.expand .print = .ok plain := by decide +kernel
  have expandedLine : input.expand .printLine = .ok plain.endLine := by
    rw [expands, expanded]
    rfl
  have incomplete : unfinished.expand .print = .error (.format (.incomplete "%5")) := by
    decide +kernel
  have takes : plain.Takes args := .cons rfl (.cons rfl .nil)
  have short : (formatTo .full (HandleSink.appending #[]) plain.format args).written < 9 := by
    decide +kernel
  obtain ⟨-, device, length, slots⟩ := runs input plain plain.endLine expanded expandedLine Uart
    ⟨Uart.new 0 2⟩ args takes (Nat.lt_of_lt_of_le short (by decide))
  have selected : ended.console.device = _ := congrArg Console.device device
  refine ⟨expanded, expandedLine, takes, short, selected.trans (by decide +kernel),
    length.trans (by decide +kernel), slots.trans (by decide +kernel), incomplete, ?_⟩
  rw [expands, incomplete]
  rfl

end FormattedOutput
