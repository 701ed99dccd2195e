import AutomaticMachine.Catalogue
import AutomaticMachine.Proofs.Catalogue.AlternatingDigits
import AutomaticMachine.Proofs.Catalogue.IncreasingOnes
import AutomaticMachine.Proofs.Entrywise
import AutomaticMachine.Proofs.Json.Grammar
import AutomaticMachine.Proofs.Json.Printed
import AutomaticMachine.Proofs.Json.Reading
import AutomaticMachine.Proofs.Lint.Preempted
import AutomaticMachine.Proofs.Lint.Reachable
import AutomaticMachine.Proofs.Lint.Search
import AutomaticMachine.Proofs.Lint.Shadowed
import AutomaticMachine.Proofs.Lint.Unreachable
import AutomaticMachine.Proofs.Matcher.Covering
import AutomaticMachine.Proofs.Record.Json
import AutomaticMachine.Proofs.Record.Replay
import AutomaticMachine.Proofs.Record.Shapes
import AutomaticMachine.Proofs.Run.Completion
import AutomaticMachine.Proofs.Run.Lines
import AutomaticMachine.Proofs.Run.WholeRules
import AutomaticMachine.Proofs.Snapshot.Decoding
import AutomaticMachine.Proofs.Snapshot.Deferral
import AutomaticMachine.Proofs.Snapshot.Digits
import AutomaticMachine.Proofs.Snapshot.Invariant
import AutomaticMachine.Proofs.Snapshot.Lockstep
import AutomaticMachine.Proofs.Snapshot.Renderings
import AutomaticMachine.Proofs.Snapshot.Situation
import AutomaticMachine.Proofs.Snapshot.Step
import AutomaticMachine.Proofs.Symmetry.Basic
import AutomaticMachine.Proofs.Symmetry.Reflection
import AutomaticMachine.Proofs.Symmetry.Relabelling
import AutomaticMachine.Proofs.Table.Dangling
import AutomaticMachine.Proofs.Table.Declarations
import AutomaticMachine.Proofs.Table.FirstFault
import AutomaticMachine.Proofs.Table.Names
import AutomaticMachine.Proofs.Table.Renaming
import AutomaticMachine.Proofs.Table.Resolution
import AutomaticMachine.Proofs.Table.Rules
import AutomaticMachine.Proofs.Table.Splitting
import AutomaticMachine.Proofs.Tape.Cells
import AutomaticMachine.Proofs.Tape.Chain
import AutomaticMachine.Proofs.Tape.Coordinates
import AutomaticMachine.Proofs.Tape.Growth
import AutomaticMachine.Proofs.Tape.Session
import AutomaticMachine.Proofs.Tape.Staleness
import AutomaticMachine.Proofs.Text.ByteOrder
import AutomaticMachine.Proofs.Textbook
import AutomaticMachine.Record.Json
import AutomaticMachine.Session
import AutomaticMachine.Tape.Session
