/-
Ready-made tables.

Two tables that print `0` and `1` by turns on every other square, one that
prints and erases, and the classical table for the sequence 0, 01, 011, …,
which works on the squares between its digits.
-/
import AutomaticMachine.Program

namespace AutomaticMachine

namespace Catalogue

open Matcher (nonBlank)
open Operation

def left : Operation := move .left

def right : Operation := move .right

def onSymbol (s : Symbol) (operations : List Operation) (next : String) : Rule String :=
  { matcher := .symbol s, operations, next }

def onBlank (operations : List Operation) (next : String) : Rule String :=
  { matcher := .none, operations, next }

/-- One digit after the other, each by a configuration of its own. -/
def alternatingDigits : Table where
  name := "alternating-digits"
  configurations := [
    ⟨"b", [onBlank [print "0", right] "c"]⟩,
    ⟨"c", [onBlank [right] "e"]⟩,
    ⟨"e", [onBlank [print "1", right] "f"]⟩,
    ⟨"f", [onBlank [right] "b"]⟩]

/-- One configuration that reads from the tape which digit comes next. -/
def alternatingDigitsCompact : Table where
  name := "alternating-digits-compact"
  configurations := [
    ⟨"b", [
      onBlank [print "0"] "b",
      onSymbol "0" [right, right, print "1"] "b",
      onSymbol "1" [right, right, print "0"] "b"]⟩]

/-- Prints two digits and erases them again. -/
def eraseCells : Table where
  name := "erase-cells"
  configurations := [
    ⟨"e", [
      onBlank [print "1"] "e",
      onSymbol "1" [right, print "0"] "e",
      onSymbol "0" [erase, left, erase] Table.completeName]⟩]

/-- Prints a zero and ever more ones between it and the next zero. -/
def increasingOnes : Table where
  name := "increasing-ones"
  configurations := [
    ⟨"b", [
      onBlank
        [print Symbol.schwa, right, print Symbol.schwa, right, print "0", right, right, print "0",
          left, left]
        "o"]⟩,
    ⟨"o", [onSymbol "1" [right, print "x", left, left, left] "o", onSymbol "0" [] "q"]⟩,
    ⟨"q", [
      { matcher := .anyOf (.ofList ["0", "1"]), operations := [right, right], next := "q" },
      onBlank [print "1", left] "p"]⟩,
    ⟨"p", [
      onSymbol "x" [erase, right] "q",
      onSymbol Symbol.schwa [right] "f",
      onBlank [left, left] "p"]⟩,
    ⟨"f", [
      { matcher := nonBlank, operations := [right, right], next := "f" },
      onBlank [print "0", left, left] "o"]⟩]

/-- The tables with the names of their initial configurations, in order. -/
def tables : List (Table × String) :=
  [(alternatingDigits, "b"), (alternatingDigitsCompact, "b"), (eraseCells, "e"),
    (increasingOnes, "b")]

def programs : List Program :=
  tables.filterMap fun (table, initial) => (table.build initial).toOption

def byIndex (i : Nat) : Except Fault Program :=
  match programs[i]? with
  | some p => .ok p
  | none => .error (.unknownProgram s!"index {i}")

def byName (name : String) : Except Fault Program :=
  match programs.find? fun p => p.name == name with
  | some p => .ok p
  | none => .error (.unknownProgram name)

end Catalogue

end AutomaticMachine
