import FormattedOutput.Buffer
import FormattedOutput.Console
import FormattedOutput.Device.Uart

/-!
# A demonstration

One run through the library: a bounded buffer whose content is printed, a line with every conversion
and a count slot, both justifications of a field, and a format that is only known at run time.
-/

namespace FormattedOutput.Demo

/-- A string argument. -/
def text (content : String) : Arg := .str (Bytes.ofString content)

/-- A buffer of 32 bytes with a text formatted into it. -/
def note : Formatted :=
  formatWithin .full (Array.replicate 32 0) (Bytes.ofString "snprintf(%s)")
    [text "hello, bounded buffer"]

/-- A console on a transmitter that is never busy. -/
def idle : Console Uart := ⟨Uart.new 0 0⟩

/-- The first line: how much of the buffer was filled, and its text. -/
def first : Printed Uart :=
  idle.print .full (Bytes.ofString "wrote %d of %d bytes: %s\n")
    [.int 31, .int (Int32.ofNat note.length), .str note.buffer.toList]

/-- The second line: every conversion, and the length of the line in a slot. -/
def second : Printed Uart :=
  first.console.print .full
    (Bytes.ofString "d = %d u = %u x = %08x X = %X c = %c f = %f long = %ld%n\n")
    [.int (-100), .uint 200, .uint 0xbeef, .uint 0xcafe, .char '!'.toUInt8,
      .float ⟨0xc004000000000000⟩, .long Int64.minValue, .count 0]

/-- The third line: fields on both sides, and the length of the second line. -/
def third : Printed Uart :=
  second.console.print .full
    (Bytes.ofString "[%-8s|%8s] %d%% done, first line was %d bytes\n")
    ([text "left", text "right", .int 50] ++ (second.args.filterMap Arg.slot?).map .int)

/-- The last line. -/
def fourth : Printed Uart :=
  third.console.print .full (Bytes.ofString "runtime: %05u\n") [.uint 42]

/-- Everything that was transmitted. -/
def output : Array UInt8 := fourth.console.device.output

end FormattedOutput.Demo
