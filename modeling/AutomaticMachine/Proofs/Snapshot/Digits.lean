/-
The binary digits on a tape and the number they make.

Of the symbols on a tape only `0` and `1` are digits.  Digits that are written
after the others double the number (`binaryValue_append`), and zeros in front
of the others leave it as it is (`binaryValue_dropWhile`).
-/
import AutomaticMachine.Snapshot.Rendering

namespace AutomaticMachine

namespace Symbol

/-- The digit that a symbol is, if it is one. -/
def bit? (s : Symbol) : Option Bool :=
  if s = "0" then some false else if s = "1" then some true else none

/-- The symbol for a digit. -/
def ofBit (b : Bool) : Symbol := if b then "1" else "0"

@[simp] theorem bit?_ofBit (b : Bool) : (ofBit b).bit? = some b := by
  cases b <;> rfl

@[simp] theorem bit?_blank : bit? blank = none := rfl

end Symbol

namespace Snapshot

theorem digits_eq (s : Snapshot) : s.digits = s.tapeSymbols.filterMap Symbol.bit? := rfl

theorem binaryValue_append (l : List Bool) (b : Bool) :
    binaryValue (l ++ [b]) = 2 * binaryValue l + b.toNat := by
  rw [binaryValue, binaryValue, List.foldl_append]
  rfl

/-- Leading zeros do not count. -/
theorem binaryValue_dropWhile (l : List Bool) : binaryValue (l.dropWhile (!·)) = binaryValue l := by
  induction l with
  | nil => rfl
  | cons b l ih =>
    cases b with
    | true => rfl
    | false =>
      rw [List.dropWhile_cons_of_pos (by rfl), ih]
      rfl

end Snapshot

end AutomaticMachine
