/-
Harmless but suspicious things in a program.

`Program.unreachable` lists the configurations that no path of rules from the
initial one leads to.  `Program.shadowed` lists the rules that can never apply
because an earlier rule of their configuration accepts all that they accept.
-/
import AutomaticMachine.Program

namespace AutomaticMachine

/-- A finding about a program. -/
inductive Warning
  /-- No run reaches these configurations. -/
  | unreachable (names : List String)
  /-- Rule `rule` of a configuration is covered by an earlier one. -/
  | shadowed (configuration : String) (rule : Nat) (earlier : Nat)
deriving DecidableEq

def Warning.message : Warning → String
  | unreachable names => "Unreachable configurations detected: " ++ Text.quoteList names
  | shadowed configuration rule earlier =>
    s!"Rule {rule} in configuration '{configuration}' is shadowed by rule {earlier}"

namespace Program

/-! ### Unreachable configurations -/

/-- The numbers that the rules of configuration `i` lead to. -/
def successors (p : Program) (i : Nat) : List Nat :=
  match p.configuration? i with
  | some c => c.rules.map (·.next)
  | none => []

/-- What is left of `unvisited` when everything that can be reached from `queue` without passing
through a visited number has been visited, breadth first.  A visit takes a number out of
`unvisited`; a number that is no longer there only leaves the queue. -/
def unvisitedFrom (p : Program) (unvisited queue : List Nat) : List Nat :=
  match queue with
  | [] => unvisited
  | i :: rest =>
    if i ∈ unvisited then p.unvisitedFrom (unvisited.erase i) (rest ++ p.successors i)
    else p.unvisitedFrom unvisited rest
termination_by (unvisited.length, queue.length)
decreasing_by
  · rename_i h
    have := List.length_pos_of_mem h
    exact Prod.Lex.left _ _ (by rw [List.length_erase_of_mem h]; omega)
  · exact Prod.Lex.right _ (by simp)

/-- The numbers of the configurations that no path of rules from the initial one leads to. -/
def unreached (p : Program) : List Nat :=
  p.unvisitedFrom (List.range p.configurations.length) [p.initial]

/-- The names of the unreached configurations, in the order of declaration.  The synthetic
configuration and `complete` are not reported. -/
def unreachable (p : Program) : List String :=
  (p.unreached.filter fun i => i != p.entry && i != p.complete).map p.configurationName

/-! ### Shadowed rules -/

/-- The place of the first rule of a list that covers a matcher. -/
def firstCovering? (rules : List (Rule Nat)) (m : Matcher) : Option Nat :=
  rules.findIdx? fun r => r.matcher.covers m

def shadowedIn (c : Configuration Nat) : List Warning :=
  c.rules.zipIdx.filterMap fun (r, i) =>
    (firstCovering? (c.rules.take i) r.matcher).map fun j => .shadowed c.name i j

def shadowed (p : Program) : List Warning := p.configurations.flatMap shadowedIn

def lint (p : Program) : List Warning :=
  (if p.unreachable.isEmpty then [] else [.unreachable p.unreachable]) ++ p.shadowed

end Program

end AutomaticMachine
