/-
Running a program one operation at a time.

A snapshot is all that changes while a program runs.  A rule with several
operations takes as many steps; the operations that are still owed wait in
`pending`, and no rule is looked up before they are done.  A rule without
operations takes one step, which only goes to its successor.  Where no rule
applies the run is over: `Program.step` changes the running state and nothing
else.
-/
import AutomaticMachine.Program

namespace AutomaticMachine

inductive RunningState
  /-- No step has been taken. -/
  | paused
  | running
  | completed
deriving DecidableEq

/-- The state of a run between two steps. -/
structure Snapshot where
  state : RunningState
  tape : Tape
  head : Nat
  /-- The configuration whose rule is being carried out, or was last. -/
  current : Nat
  /-- The operations of that rule that are still owed. -/
  pending : List Operation
  /-- The configuration that follows when nothing is owed. -/
  next : Nat
  /-- The operation of the last step, if it had one. -/
  last : Option Operation
  steps : Nat
deriving DecidableEq

namespace RunningState

def name : RunningState → String
  | paused => "Paused"
  | running => "Running"
  | completed => "Completed"

def initial : RunningState := paused

end RunningState

namespace Snapshot

def isCompleted (s : Snapshot) : Bool := s.state == .completed

/-- The scanned symbol.  The head of a run is never stale. -/
def symbol (s : Snapshot) : Symbol := (s.tape.read s.head).toOption.getD Symbol.blank

/-- The operations that are owed, where there are any. -/
def pendingOperations? (s : Snapshot) : Option (List Operation) :=
  if s.pending.isEmpty then none else some s.pending

end Snapshot

namespace Program

/-- The state of a run before the first step. -/
def start (p : Program) : Snapshot where
  state := .initial
  tape := .new
  head := Tape.origin
  current := p.entry
  pending := []
  next := p.initial
  last := none
  steps := 0

/-- What the next step works on: a configuration, the operations of its rule that are to be done,
and the successor. -/
structure Order where
  configuration : Nat
  operations : List Operation
  next : Nat
deriving DecidableEq

/-- The operations that are owed, or else the rule of the next configuration for the scanned
symbol. -/
def order? (p : Program) (s : Snapshot) : Option Order :=
  if s.pending.isEmpty then
    (p.findRule? s.next s.symbol).map fun r =>
      { configuration := s.next, operations := r.operations, next := r.next }
  else some { configuration := s.current, operations := s.pending, next := s.next }

/-- Do the first operation of an order and keep the rest. -/
def follow (s : Snapshot) (o : Order) : Snapshot :=
  let (tape, head) :=
    match o.operations with
    | [] => (s.tape, s.head)
    | op :: _ => (op.execute s.tape s.head).toOption.getD (s.tape, s.head)
  { state := .running
    tape, head
    current := o.configuration
    pending := o.operations.tail
    next := o.next
    last := o.operations.head?
    steps := s.steps + 1 }

/-- One step.  A run that is over stays as it is. -/
def step (p : Program) (s : Snapshot) : Snapshot :=
  if s.isCompleted then s
  else match p.order? s with
  | some o => follow s o
  | none => { s with state := .completed }

end Program

end AutomaticMachine
