/-
Runs: lists of snapshots, each one step after the one before.

`Program.runSteps` takes so many steps, `Program.runWithLimit` stops at the
first completed snapshot after the start or fails at its limit, and
`Program.runToCompletion` has no limit but the fuel that makes it total.  All
of them report every step they take.
-/
import AutomaticMachine.Log

namespace AutomaticMachine

namespace Program

/-- How many steps a run is usually given. -/
def maxExecutionSteps : Nat := 10000

/-- The snapshots after `0, 1, …, n - 1` steps, appended to those in `seen`.  Each step is taken
as soon as the snapshot before it is handed out, also the one after the last. -/
def snapshotsFrom (p : Program) (seen : Array Snapshot) : Nat → Snapshot → Logged (Array Snapshot)
  | 0, _ => return seen
  | n + 1, s => do p.snapshotsFrom (seen.push s) n (← p.advance s)

/-- The first `n` snapshots of the run from `s`. -/
def snapshots (p : Program) (n : Nat) (s : Snapshot) : Logged (Array Snapshot) :=
  p.snapshotsFrom #[] n s

/-- The snapshots after `0, 1, …, n` steps. -/
def runSteps (p : Program) (n : Nat) (s : Snapshot) : Logged (Array Snapshot) :=
  p.snapshots (n + 1) s

/-- The snapshots from `s` to the first completed one after it, appended to those in `seen`;
fails with the limit of the run if `left` steps do not suffice. -/
def runWithLimitFrom (p : Program) (limit : Nat) (seen : Array Snapshot) :
    Nat → Snapshot → Logged (Except Fault (Array Snapshot))
  | 0, _ => return .error (.stepLimitExceeded limit)
  | left + 1, s => do
    let t ← p.advance s
    let seen := seen.push s
    if t.isCompleted then return .ok (seen.push t)
    else p.runWithLimitFrom limit seen left t

/-- The snapshots from `s` to the first completed one after it, if it comes within `limit`
steps. -/
def runWithLimit (p : Program) (limit : Nat) (s : Snapshot) :
    Logged (Except Fault (Array Snapshot)) :=
  p.runWithLimitFrom limit #[] limit s

/-- The snapshots from `s` to the first completed one after it, appended to those in `seen`;
none if `fuel` steps do not suffice. -/
def runToCompletionFrom (p : Program) (seen : Array Snapshot) :
    Nat → Snapshot → Logged (Option (Array Snapshot))
  | 0, _ => return none
  | fuel + 1, s => do
    let t ← p.advance s
    let seen := seen.push s
    if t.isCompleted then return some (seen.push t)
    else p.runToCompletionFrom seen fuel t

/-- The snapshots from `s` to the first completed one after it.  An answer does not depend on the
fuel. -/
def runToCompletion (p : Program) (fuel : Nat) (s : Snapshot) :
    Logged (Option (Array Snapshot)) :=
  p.runToCompletionFrom #[] fuel s

end Program

end AutomaticMachine
