/-
What is reported while tables are built and programs run.

An `Event` says what happened; `Entry.line` is its line in a log.  A
computation in `Logged` appends entries to a log.
-/
import AutomaticMachine.Program.Lint
import AutomaticMachine.Snapshot

namespace AutomaticMachine

/-- Something worth a line in a log. -/
inductive Event
  | warned (warning : Warning)
  /-- Step number `step` carried out an operation of a configuration. -/
  | executed (step : Nat) (configuration : String) (operation : Operation)
  /-- A configuration has no rule for the scanned symbol; the run is over after `steps` steps. -/
  | noRule (configuration : String) (symbol : Symbol) (steps : Nat)
deriving DecidableEq

namespace Event

def level : Event → String
  | warned _ => "WARN"
  | executed .. => "TRACE"
  | noRule .. => "DEBUG"

def text : Event → String
  | warned warning => warning.message
  | executed step configuration operation => s!"step {step} in '{configuration}': {operation.name}"
  | noRule configuration symbol steps =>
    s!"no rule in '{configuration}' for {Text.quote symbol}, completed after {steps} steps"

end Event

/-- An event of the program with this name. -/
structure Entry where
  program : String
  event : Event
deriving DecidableEq

def Entry.line (e : Entry) : String := s!"{e.event.level} {e.program}: {e.event.text}"

/-- A computation that appends to a log. -/
abbrev Logged := StateM (Array Entry)

namespace Logged

def report (program : String) (event : Event) : Logged Unit := modify (·.push ⟨program, event⟩)

end Logged

namespace Program

/-- What the next step reports: nothing for a rule without operations and for a run that is
over. -/
def event? (p : Program) (s : Snapshot) : Option Event :=
  if s.isCompleted then none
  else match p.order? s with
  | some o =>
    o.operations.head?.map (.executed (s.steps + 1) (p.configurationName o.configuration))
  | none => some (.noRule (p.configurationName s.next) s.symbol s.steps)

def advance (p : Program) (s : Snapshot) : Logged Snapshot := do
  if let some event := p.event? s then Logged.report p.name event
  return p.step s

def reportFindings (p : Program) : Logged Unit :=
  p.lint.forM fun warning => Logged.report p.name (.warned warning)

end Program

/-- Build the program of a table and report the findings about it. -/
def Table.buildLogged (t : Table) (initial : String) : Logged (Except Fault Program) := do
  match t.build initial with
  | .ok p => p.reportFindings; return .ok p
  | .error fault => return .error fault

end AutomaticMachine
