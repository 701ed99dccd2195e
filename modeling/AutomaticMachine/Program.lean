/-
Programs: tables whose successors are numbers.

`Table.build` checks a table, numbers its configurations in the order of their
declaration and puts the number of its successor into every rule.  If
`complete` is not declared it follows them, without rules; last comes the
synthetic configuration that a run starts in, whose one rule leads from the
blank tape to the initial configuration.  A declared configuration that
happens to be called `begin` is one like any other.
-/
import AutomaticMachine.Table.Check

namespace AutomaticMachine

/-- A table ready to run. -/
structure Program where
  name : String
  configurations : List (Configuration Nat)
  /-- The number of the configuration that the work starts in. -/
  initial : Nat
  /-- The number of the synthetic configuration that leads to the initial one. -/
  entry : Nat
  /-- The number of the configuration called `complete`. -/
  complete : Nat
deriving DecidableEq

namespace Table

/-- The declared configurations, with `complete` added where it is not among them. -/
def withComplete (t : Table) : List (Configuration String) :=
  if completeName ∈ t.names then t.configurations
  else t.configurations ++ [{ name := completeName, rules := [] }]

/-- The number of the configuration with a name.  A name that no configuration has is a fault. -/
def resolve (t : Table) (name : String) : Except Fault Nat :=
  match t.withComplete.findIdx? fun c => c.name == name with
  | some i => .ok i
  | none => .error (.undefined [name])

/-- The program of a table that starts in the configuration named `initial`. -/
def build (t : Table) (initial : String) : Except Fault Program := do
  t.check initial
  let start ← t.resolve initial
  let complete ← t.resolve completeName
  let configurations ← t.withComplete.mapM (Configuration.mapM t.resolve)
  let entry : Configuration Nat :=
    { name := beginName, rules := [{ matcher := .none, operations := [], next := start }] }
  return {
    name := t.name
    configurations := configurations ++ [entry]
    initial := start
    entry := configurations.length
    complete }

end Table

namespace Program

def configuration? (p : Program) (i : Nat) : Option (Configuration Nat) := p.configurations[i]?

def configurationName (p : Program) (i : Nat) : String :=
  ((p.configuration? i).map (·.name)).getD ""

/-- The rule of configuration `i` for a scanned symbol. -/
def findRule? (p : Program) (i : Nat) (s : Symbol) : Option (Rule Nat) :=
  (p.configuration? i).bind (·.findRule? s)

/-- The number of the configuration with a name; the synthetic one cannot be asked for. -/
def configurationNumber? (p : Program) (name : String) : Option Nat :=
  (p.configurations.findIdx? fun c => c.name == name).filter fun i => i != p.entry

end Program

end AutomaticMachine
