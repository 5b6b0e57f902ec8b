import FlatCode.Cli.Run
import FlatCode.Main
import FlatCode.Proofs.Block.Boundaries
import FlatCode.Proofs.Block.Detection
import FlatCode.Proofs.Cli.Inline
import FlatCode.Proofs.Cli.Loading
import FlatCode.Proofs.Cli.Session
import FlatCode.Proofs.Nesting.Dot
import FlatCode.Proofs.Nesting.Depth
import FlatCode.Proofs.Operation.Flattening
import FlatCode.Proofs.Operation.Schema
import FlatCode.Proofs.Operation.Stopping
import FlatCode.Proofs.Program.CanonicalText
import FlatCode.Proofs.Program.DocumentText
import FlatCode.Proofs.Program.EqualPrograms
import FlatCode.Proofs.Program.LineText
import FlatCode.Proofs.Program.Locality
import FlatCode.Proofs.Program.NameText
import FlatCode.Proofs.Program.Refusal
import FlatCode.Proofs.Program.Spans
import FlatCode.Proofs.Reduction.AttemptOrder
import FlatCode.Proofs.Reduction.KeptProgram
import FlatCode.Proofs.Reduction.OneRound
