/-
What can go wrong, by cause.

The first four causes are faults of a declared table, the others belong to
runs, to decoding a tape, to the catalogue and to writing records.
`Fault.message` holds the wording of all of them.
-/
import AutomaticMachine.Text.Quoted

namespace AutomaticMachine

/-- Why a request cannot be met. -/
inductive Fault
  /-- The start configuration is not declared. -/
  | invalidStart (name : String)
  /-- Two configurations have this name. -/
  | duplicate (name : String)
  /-- Rules lead to configurations that are not declared; each reference reads `from -> to`. -/
  | undefined (references : List String)
  /-- A rule of this configuration accepts no symbol. -/
  | emptySymbolSet (configuration : String)
  /-- A run was not over after this many steps. -/
  | stepLimitExceeded (limit : Nat)
  /-- The digits on the tape, this many without leading zeros, make too large a number. -/
  | overflow (digits : Nat)
  /-- The catalogue holds no such program. -/
  | unknownProgram (name : String)
  /-- Records cannot be written. -/
  | serialization (text : String)
deriving DecidableEq

/-- The wording of a fault. -/
def Fault.message : Fault → String
  | invalidStart name => s!"Invalid start configuration: {name}"
  | duplicate name => s!"Duplicate configuration: {name}"
  | undefined references =>
    "Rules reference undefined configurations: " ++ Text.quoteList references
  | emptySymbolSet configuration =>
    s!"Rule in configuration '{configuration}' matches an empty symbol set"
  | stepLimitExceeded limit => s!"Machine did not complete within {limit} steps"
  | overflow digits => s!"Binary result of {digits} digits overflows"
  | unknownProgram name => s!"Unknown program: {name}"
  | serialization text => s!"Serialization error: {text}"

end AutomaticMachine
