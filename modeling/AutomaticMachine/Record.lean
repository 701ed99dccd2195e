/-
Step records: what a trace keeps of a snapshot.

A record shows a snapshot to a reader who does not have the program: names in
place of numbers, and the tape as text with the scanned square in brackets.
-/
import AutomaticMachine.Snapshot.Rendering

namespace AutomaticMachine

structure Record where
  step : Nat
  runningState : RunningState
  configuration : String
  nextConfiguration : String
  operation : Option String
  pendingOperations : List String
  tape : String
deriving DecidableEq

namespace Record

/-- The record of a snapshot of a program's run. -/
def ofSnapshot (p : Program) (s : Snapshot) : Record where
  step := s.steps
  runningState := s.state
  configuration := p.configurationName s.current
  nextConfiguration := p.configurationName s.next
  operation := s.last.map Operation.name
  pendingOperations := s.pending.map Operation.name
  tape := s.tapeTextWithCursor

/-- The trace of a list of snapshots. -/
def trace (p : Program) (snapshots : List Snapshot) : List Record := snapshots.map (ofSnapshot p)

end Record

end AutomaticMachine
