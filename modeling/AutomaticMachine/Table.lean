/-
Tables of m-configurations.

A configuration is a named list of rules in the order in which they are
tried.  `Rule ν` and `Configuration ν` leave open how a successor is named: by
its name in a declared `Table`, by its number in a `Program`.
-/
import AutomaticMachine.Matcher
import AutomaticMachine.Operation

namespace AutomaticMachine

/-- A line of a table: on a scanned symbol that the matcher accepts, do the operations one after
the other and go to the next configuration. -/
structure Rule (ν : Type) where
  matcher : Matcher
  operations : List Operation
  next : ν
deriving DecidableEq

structure Configuration (ν : Type) where
  name : String
  rules : List (Rule ν)
deriving DecidableEq

namespace Rule

/-- The same rule with its successor named in another way. -/
def map {ν μ : Type} (f : ν → μ) (r : Rule ν) : Rule μ :=
  { matcher := r.matcher, operations := r.operations, next := f r.next }

/-- The same rule with its successor named in a way that may fail. -/
def mapM {ε ν μ : Type} (f : ν → Except ε μ) (r : Rule ν) : Except ε (Rule μ) := do
  return { matcher := r.matcher, operations := r.operations, next := ← f r.next }

end Rule

namespace Configuration

def map {ν μ : Type} (f : ν → μ) (c : Configuration ν) : Configuration μ :=
  { name := c.name, rules := c.rules.map (Rule.map f) }

def mapM {ε ν μ : Type} (f : ν → Except ε μ) (c : Configuration ν) :
    Except ε (Configuration μ) := do
  return { name := c.name, rules := ← c.rules.mapM (Rule.mapM f) }

/-- The rule for a scanned symbol: the first whose matcher accepts it. -/
def findRule? {ν : Type} (c : Configuration ν) (s : Symbol) : Option (Rule ν) :=
  c.rules.find? fun r => decide (r.matcher.Accepts s)

/-- The place of the rule for a scanned symbol. -/
def findRuleIndex? {ν : Type} (c : Configuration ν) (s : Symbol) : Option Nat :=
  c.rules.findIdx? fun r => decide (r.matcher.Accepts s)

end Configuration

/-- A table as it is declared: successors are given by name and may be declared later. -/
structure Table where
  name : String
  configurations : List (Configuration String)
deriving DecidableEq

namespace Table

/-- The name of the synthetic configuration that a run starts in. -/
def beginName : String := "begin"

/-- The name of the configuration that a run ends in.  It need not be declared. -/
def completeName : String := "complete"

def names (t : Table) : List String := t.configurations.map (·.name)

/-- The name stands for a configuration: `complete` always does. -/
def Declares (t : Table) (name : String) : Prop := name = completeName ∨ name ∈ t.names

instance (t : Table) (name : String) : Decidable (t.Declares name) :=
  inferInstanceAs (Decidable (_ ∨ _))

end Table

end AutomaticMachine
