import Descramble.Number.Text
import Descramble.Text.Word
import Descramble.Text.Quoted
import Descramble.Script.Printer
import Descramble.Script.Equality
import Descramble.Script.Reader.Token
import Descramble.Script.Parse
import Descramble.Timestamp
import Descramble.Transform.Reduction
import Descramble.Value.Operation
import Descramble.Value.Variable
import Descramble.Evaluation.Statement
import Descramble.CommandLine.Command
import Descramble.Text.Component
import Descramble.Number.Radix
import Descramble.Main
import Descramble.Proofs.Printer.RoundTrip
import Descramble.Proofs.Transform.Renaming
import Descramble.Proofs.Transform.Recognition
import Descramble.Proofs.Transform.Retention
import Descramble.Proofs.Transform.Shuffle
import Descramble.Proofs.Transform.Chain
import Descramble.Proofs.Transform.Spelling
import Descramble.Proofs.Transform.Delivery
import Descramble.Proofs.Evaluation.Depth
import Descramble.Proofs.Reader.Progress
import Descramble.Proofs.Reader.Gap
import Descramble.Proofs.Evaluation.Reachable
import Descramble.Proofs.Evaluation.Activation
import Descramble.Proofs.Evaluation.Variable
import Descramble.Proofs.CommandLine.Failure
import Descramble.Proofs.Evaluation.Property
import Descramble.Proofs.Text.Component
import Descramble.Proofs.Text.Escape
import Descramble.Proofs.Evaluation.Search
import Descramble.Proofs.Evaluation.Visit
import Descramble.Proofs.Value.Conversion
import Descramble.Proofs.Value.Notation
import Descramble.Proofs.Number.Radix
import Descramble.Proofs.Evaluation.Inverse
import Descramble.Proofs.Timestamp
import Descramble.Proofs.Location
import Descramble.Proofs.Evaluation.Index
import Descramble.Proofs.Value.Comparison
import Descramble.Proofs.Value.Text
import Descramble.Proofs.Pattern.Portrait
