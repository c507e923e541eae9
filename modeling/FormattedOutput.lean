import FormattedOutput.Main
import FormattedOutput.Scratch
import FormattedOutput.Sink.Handle
import FormattedOutput.Checked.Expansion
import FormattedOutput.Checked.Lexer
import FormattedOutput.Proofs.Layout
import FormattedOutput.Proofs.Coercion
import FormattedOutput.Proofs.Delivery
import FormattedOutput.Proofs.Plan
import FormattedOutput.Proofs.CallSequence
import FormattedOutput.Proofs.Bytewise
import FormattedOutput.Proofs.Truncation
import FormattedOutput.Proofs.Agreement
import FormattedOutput.Proofs.Configuration
import FormattedOutput.Proofs.Reading
import FormattedOutput.Proofs.Composition
import FormattedOutput.Proofs.EarlyStop
import FormattedOutput.Proofs.CountSlots
import FormattedOutput.Proofs.Concatenation
import FormattedOutput.Proofs.Overflow
import FormattedOutput.Proofs.Extension
import FormattedOutput.Proofs.CanonicalNumeral
import FormattedOutput.Proofs.IntegerConversion
import FormattedOutput.Proofs.Session
import FormattedOutput.Proofs.BoundedOutput
import FormattedOutput.Proofs.IntegerRendering
import FormattedOutput.Proofs.IneffectiveFlags
import FormattedOutput.Proofs.NulBytes
import FormattedOutput.Proofs.Escaping
import FormattedOutput.Proofs.Pairing
import FormattedOutput.Proofs.LineEnding
import FormattedOutput.Proofs.CallSyntax
import FormattedOutput.Proofs.Filling
import FormattedOutput.Proofs.DecimalSplit
import FormattedOutput.Proofs.FloatRendering
import FormattedOutput.Proofs.HalfUp
import FormattedOutput.Proofs.OutputBudget
import FormattedOutput.Proofs.WordArithmetic
import FormattedOutput.Proofs.CeilingAccount
import FormattedOutput.Proofs.Quotation
