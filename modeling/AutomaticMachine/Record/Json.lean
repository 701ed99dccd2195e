/-
Step records as JSON.

A record is written as an object with its seven fields in order, a list of
records as indented text.  A record may be read in more shapes than it is
written in: as an object with the fields in any order among others that are
ignored, where only `operation` may be missing, or as the list of the seven
values in order; a running state as its name or as the one member, with value
null, of an object.
-/
import AutomaticMachine.Json.Printer
import AutomaticMachine.Json.Reader
import AutomaticMachine.Record

namespace AutomaticMachine

namespace RunningState

def ofName? (name : String) : Option RunningState :=
  if name = paused.name then some paused
  else if name = running.name then some running
  else if name = completed.name then some completed
  else none

/-- A running state: its name, or an object whose one member has that name and the value null. -/
def ofJson? : Json → Option RunningState
  | .string (some name) => ofName? name
  | .object [(some name, .null)] => ofName? name
  | _ => none

end RunningState

namespace Json

def text? : Json → Option String
  | string text => text
  | _ => none

def textOrNull? : Json → Option (Option String)
  | null => some none
  | string (some s) => some (some s)
  | _ => none

def texts? : Json → Option (List String)
  | array items => items.mapM text?
  | _ => none

/-- The value of a string of decimal digits. -/
def decimalValue (digits : List Char) : Nat :=
  digits.foldl (fun n c => 10 * n + (c.toNat - '0'.toNat)) 0

/-- The first number that does not fit into 64 bits. -/
def wordBound : Nat := 0x10000000000000000

/-- A number that is written with digits only and fits into 64 bits. -/
def word? : Json → Option Nat
  | number literal =>
    if literal.all Char.isDigit ∧ decimalValue literal < wordBound then
      some (decimalValue literal)
    else none
  | _ => none

/-- The value of a member; the outer option is none where the name is repeated. -/
def member? (members : List (Option String × Json)) (name : String) : Option (Option Json) :=
  match members.filter fun member => member.1 == some name with
  | [] => some none
  | [(_, value)] => some (some value)
  | _ => none

/-- The value of a member that must be there once. -/
def requiredMember? (members : List (Option String × Json)) (name : String) : Option Json :=
  (member? members name).join

end Json

namespace Record

/-! ### Writing -/

/-- A record as an object. -/
def toJson (r : Record) : Json :=
  .ofMembers [
    ("step", .ofNat r.step),
    ("running_state", .ofString r.runningState.name),
    ("configuration", .ofString r.configuration),
    ("next_configuration", .ofString r.nextConfiguration),
    ("operation", .ofOption r.operation),
    ("pending_operations", .array (r.pendingOperations.map .ofString)),
    ("tape", .ofString r.tape)]

/-- The text of a list of records. -/
def write (records : List Record) : String :=
  String.ofList ((Json.array (records.map toJson)).print 0)

/-! ### Reading -/

/-- A record from its seven values. -/
def ofValues? (step state configuration next operation pending tape : Json) : Option Record := do
  return {
    step := ← step.word?
    runningState := ← RunningState.ofJson? state
    configuration := ← configuration.text?
    nextConfiguration := ← next.text?
    operation := ← operation.textOrNull?
    pendingOperations := ← pending.texts?
    tape := ← tape.text? }

/-- A record from the members of an object.  The name of every member must be a text. -/
def ofMembers? (members : List (Option String × Json)) : Option Record := do
  guard (members.all fun member => member.1.isSome)
  let step ← Json.requiredMember? members "step"
  let state ← Json.requiredMember? members "running_state"
  let configuration ← Json.requiredMember? members "configuration"
  let next ← Json.requiredMember? members "next_configuration"
  let operation ← Json.member? members "operation"
  let pending ← Json.requiredMember? members "pending_operations"
  let tape ← Json.requiredMember? members "tape"
  ofValues? step state configuration next (operation.getD .null) pending tape

/-- A record in either of its shapes. -/
def ofJson? : Json → Option Record
  | .object members => ofMembers? members
  | .array [step, state, configuration, next, operation, pending, tape] =>
    ofValues? step state configuration next operation pending tape
  | _ => none

/-- The list of records that a text is. -/
def read? (text : String) : Option (List Record) :=
  match Json.read text.toList with
  | some (.array items) => items.mapM ofJson?
  | _ => none

end Record

end AutomaticMachine
