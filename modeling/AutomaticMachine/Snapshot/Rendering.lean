/-
Showing the tape of a snapshot.

All renderings go over the squares from left to right: the bare symbols, one
text with `_` for blanks, the same text with the scanned square in brackets,
and the number whose binary digits stand on the tape.
-/
import AutomaticMachine.Fault
import AutomaticMachine.Snapshot

namespace AutomaticMachine

namespace Snapshot

def squares (s : Snapshot) : List (Nat × Symbol) := (s.tape.squares s.head).toOption.getD []

/-- How many squares stand to the left of the scanned one. -/
def cursor (s : Snapshot) : Nat := (s.tape.position s.head).toOption.getD 0

/-- How many squares stand to the left of the square where the run started. -/
def originPosition (s : Snapshot) : Nat := (s.tape.position Tape.origin).toOption.getD 0

def tapeSymbols (s : Snapshot) : List Symbol := s.squares.map Prod.snd

def tapeText (s : Snapshot) : String := String.join (s.tapeSymbols.map Symbol.display)

/-- The tape as one text with the scanned square in brackets. -/
def tapeTextWithCursor (s : Snapshot) : String :=
  String.join <| s.squares.map fun (i, symbol) =>
    if i = s.head then "[" ++ Symbol.display symbol ++ "]" else Symbol.display symbol

/-! ### Binary digits -/

/-- The binary digits on the tape: `0` and `1` count, all other squares are passed over. -/
def digits (s : Snapshot) : List Bool :=
  s.tapeSymbols.filterMap fun symbol =>
    if symbol = "0" then some false else if symbol = "1" then some true else none

/-- The number with these binary digits, the most significant first. -/
def binaryValue (digits : List Bool) : Nat :=
  digits.foldl (fun n digit => 2 * n + digit.toNat) 0

def maxDigits : Nat := 128

/-- The number on the tape, in binary, unless it has too many digits.  Leading zeros do not
count. -/
def decodeBinary (s : Snapshot) : Except Fault Nat :=
  let significant := s.digits.dropWhile (!·)
  if significant.length ≤ maxDigits then .ok (binaryValue significant)
  else .error (.overflow significant.length)

end Snapshot

end AutomaticMachine
