/-
Working on a run by hand.

A session holds the program, a current snapshot and numbered copies of earlier
ones.  Looking ahead (`peek`, `snapshots`) leaves the current snapshot as it
is; a run moves to its last snapshot, unless it fails.
-/
import AutomaticMachine.Run

namespace AutomaticMachine

/-- A program with the current snapshot of its run and copies kept of others. -/
structure Session where
  program : Program
  current : Snapshot
  saved : Array Snapshot := #[]
deriving DecidableEq

namespace Session

inductive Request
  /-- Show the current snapshot in full. -/
  | state
  | step
  /-- Show the next snapshot without going there. -/
  | peek
  | restart
  /-- Show the first `n` snapshots from here. -/
  | snapshots (n : Nat)
  | runSteps (n : Nat)
  | runWithLimit (limit : Nat)
  | runToCompletion (fuel : Nat)
  | save
  | load (slot : Nat)
  /-- Show a copy in full. -/
  | look (slot : Nat)
  /-- Compare the current snapshot with a copy. -/
  | compare (slot : Nat)
deriving DecidableEq

/-- What a session answers. -/
inductive Reply
  /-- A snapshot, to be shown in full. -/
  | full (s : Snapshot)
  /-- A snapshot, to be shown as a record. -/
  | brief (s : Snapshot)
  | run (snapshots : Array Snapshot)
  | slot (n : Nat)
  /-- Whether two snapshots are equal, and their tapes, and their scanned squares. -/
  | comparison (snapshot tape head : Bool)
  | fault (fault : Fault)
  /-- The fuel did not suffice. -/
  | unfinished
deriving DecidableEq

def new (p : Program) : Session := { program := p, current := p.start }

/-- The copy in a slot; a slot that was never filled stands for the current snapshot. -/
def copy (s : Session) (slot : Nat) : Snapshot := s.saved[slot]?.getD s.current

/-- Move to the last snapshot of a run. -/
def adopt (s : Session) (run : Array Snapshot) : Session :=
  { s with current := run.back?.getD s.current }

def perform (s : Session) : Request → Logged (Reply × Session)
  | .state => return (.full s.current, s)
  | .step => do
    let next ← s.program.advance s.current
    return (.brief next, { s with current := next })
  | .peek => return (.brief (← s.program.advance s.current), s)
  | .restart => return (.brief s.program.start, { s with current := s.program.start })
  | .snapshots n => return (.run (← s.program.snapshots n s.current), s)
  | .runSteps n => do
    let run ← s.program.runSteps n s.current
    return (.run run, s.adopt run)
  | .runWithLimit limit => do
    match ← s.program.runWithLimit limit s.current with
    | .ok run => return (.run run, s.adopt run)
    | .error fault => return (.fault fault, s)
  | .runToCompletion fuel => do
    match ← s.program.runToCompletion fuel s.current with
    | some run => return (.run run, s.adopt run)
    | none => return (.unfinished, s)
  | .save => return (.slot s.saved.size, { s with saved := s.saved.push s.current })
  | .load slot => return (.brief (s.copy slot), { s with current := s.copy slot })
  | .look slot => return (.full (s.copy slot), s)
  | .compare slot =>
    let other := s.copy slot
    return (.comparison (s.current == other) (s.current.tape == other.tape)
      (s.current.head == other.head), s)

end Session

end AutomaticMachine
