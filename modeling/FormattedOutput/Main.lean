import FormattedOutput.Demo

/-!
# The demonstration program

Prints the demonstration to standard output.
-/

/-- Writes the output of the demonstration. -/
def main : IO Unit := do
  let stdout ← IO.getStdout
  stdout.write ⟨FormattedOutput.Demo.output⟩
  stdout.flush
