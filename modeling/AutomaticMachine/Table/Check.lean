/-
Checking a declared table before it is used.

`Table.check` looks for four kinds of fault, one after the other, and reports
the first kind that occurs: a start that is not declared, a repeated name,
successors that are not declared, and a rule that accepts no symbol.
-/
import AutomaticMachine.Fault
import AutomaticMachine.Table

namespace AutomaticMachine

/-- The first text of a list that already stands before it, given what has been seen so far. -/
def firstRepeated? (seen : List String) : List String → Option String
  | [] => none
  | x :: r => if x ∈ seen then some x else firstRepeated? (x :: seen) r

/-- The matcher is a set without members. -/
def Matcher.isEmptySet : Matcher → Bool
  | .anyOf symbols => symbols.isEmpty
  | _ => false

namespace Table

/-- The references of a configuration to successors that the table does not declare. -/
def danglingFrom (t : Table) (c : Configuration String) : List String :=
  (c.rules.filter fun r => decide (¬ t.Declares r.next)).map fun r => s!"{c.name} -> {r.next}"

/-- All references to successors that are not declared, sorted and each once. -/
def dangling (t : Table) : TextSet := .ofList (t.configurations.flatMap t.danglingFrom)

/-- The first configuration with a rule that accepts no symbol. -/
def firstEmptySet? (t : Table) : Option (Configuration String) :=
  t.configurations.find? fun c => c.rules.any fun r => r.matcher.isEmptySet

/-- The first fault of a table that is to start in the configuration named `initial`. -/
def fault? (t : Table) (initial : String) : Option Fault :=
  if ¬ t.Declares initial then some (.invalidStart initial)
  else match firstRepeated? [] t.names with
  | some name => some (.duplicate name)
  | none =>
    if ¬ t.dangling.isEmpty then some (.undefined t.dangling.elements)
    else t.firstEmptySet?.map fun c => .emptySymbolSet c.name

def check (t : Table) (initial : String) : Except Fault Unit :=
  match t.fault? initial with
  | some fault => .error fault
  | none => .ok ()

end Table

end AutomaticMachine
