/-
The four operations of a machine on its tape.

`Operation.execute` carries one out at a square and gives the square that is
scanned next; `Operation.name` is its name in traces.
-/
import AutomaticMachine.Tape

namespace AutomaticMachine

/-- What a machine does in one step. -/
inductive Operation
  | print (s : Symbol)
  | erase
  | move (d : Direction)
deriving DecidableEq

namespace Operation

/-- The name of an operation in traces and tables. -/
def name : Operation → String
  | print s => "print " ++ s
  | erase => "erase"
  | move .left => "left"
  | move .right => "right"

/-- Carry out an operation at square `i`: the tape and the square scanned afterwards.  Only a
move leaves the square. -/
def execute (op : Operation) (t : Tape) (i : Nat) : Except StaleCell (Tape × Nat) :=
  match op with
  | print s => return (← t.print i s, i)
  | erase => return (← t.print i Symbol.blank, i)
  | move d => t.move d i

end Operation

end AutomaticMachine
