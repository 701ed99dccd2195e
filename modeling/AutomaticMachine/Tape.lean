/-
A two-way unbounded tape whose squares come into being when they are first
visited.

The squares stand in an arena in the order of their creation and are named by
their number there; number 0 is the origin.  Each knows its neighbours by
number.  Moving off an end creates a blank square there.

Every access to the arena is checked: a number that the arena does not reach
gives `StaleCell`, also where a walk along the links meets it.  `Tape.walk`
and `Tape.squaresFrom` are bounded by the size of the arena, which no walk on
a tape grown from `Tape.new` exhausts.
-/
import AutomaticMachine.Symbol

namespace AutomaticMachine

inductive Direction
  | left
  | right
deriving DecidableEq

def Direction.opposite : Direction → Direction
  | left => right
  | right => left

/-- A square of the tape with the numbers of its neighbours. -/
structure Cell where
  symbol : Symbol := Symbol.blank
  left : Option Nat := none
  right : Option Nat := none
deriving DecidableEq

namespace Cell

/-- The number of the neighbour on one side, if there is one yet. -/
def neighbour (c : Cell) : Direction → Option Nat
  | .left => c.left
  | .right => c.right

/-- The same square with square `i` as its neighbour on one side. -/
def link (c : Cell) (d : Direction) (i : Nat) : Cell :=
  match d with
  | .left => { c with left := some i }
  | .right => { c with right := some i }

end Cell

/-- A number that names no square of the arena it is used on. -/
structure StaleCell where
  size : Nat
  index : Nat
deriving DecidableEq

def StaleCell.message (e : StaleCell) : String :=
  s!"index out of bounds: the len is {e.size} but the index is {e.index}"

/-- A tape: its squares in the order of their creation. -/
structure Tape where
  arena : Array Cell
deriving DecidableEq

namespace Tape

def new : Tape := ⟨#[{}]⟩

/-- The number of the square that a new tape starts with. -/
def origin : Nat := 0

def size (t : Tape) : Nat := t.arena.size

/-! ### Single squares -/

/-- The square with number `i`. -/
def cell (t : Tape) (i : Nat) : Except StaleCell Cell :=
  if h : i < t.arena.size then .ok t.arena[i] else .error ⟨t.arena.size, i⟩

/-- Change the square with number `i`. -/
def modify (t : Tape) (i : Nat) (f : Cell → Cell) : Except StaleCell Tape :=
  if i < t.arena.size then .ok ⟨t.arena.modify i f⟩ else .error ⟨t.arena.size, i⟩

def read (t : Tape) (i : Nat) : Except StaleCell Symbol := do
  return (← t.cell i).symbol

/-- The neighbour of a square on one side, if it has been visited. -/
def neighbour (t : Tape) (d : Direction) (i : Nat) : Except StaleCell (Option Nat) := do
  return (← t.cell i).neighbour d

def print (t : Tape) (i : Nat) (s : Symbol) : Except StaleCell Tape :=
  t.modify i fun c => { c with symbol := s }

/-- Go one square from square `i`: the tape, with a new blank square if there was none on that
side, and the number of the square reached. -/
def move (t : Tape) (d : Direction) (i : Nat) : Except StaleCell (Tape × Nat) := do
  match ← t.neighbour d i with
  | some j => return (t, j)
  | none =>
    let fresh := t.size
    let grown : Tape := ⟨t.arena.push (Cell.link {} d.opposite i)⟩
    return (← grown.modify i (Cell.link · d fresh), fresh)

/-! ### Walks -/

/-- At most `n` links from square `i` to one side, stopping where there is no neighbour. -/
def walk (t : Tape) (d : Direction) : Nat → Nat → Except StaleCell Nat
  | 0, i => .ok i
  | n + 1, i => do
    match ← t.neighbour d i with
    | some j => walk t d n j
    | none => return i

def leftmost (t : Tape) (i : Nat) : Except StaleCell Nat := t.walk .left t.size i

/-- At most `n` squares from square `i` to the right, with their symbols. -/
def squaresFrom (t : Tape) : Nat → Nat → Except StaleCell (List (Nat × Symbol))
  | 0, _ => .ok []
  | n + 1, i => do
    let c ← t.cell i
    match c.right with
    | some j => return (i, c.symbol) :: (← squaresFrom t n j)
    | none => return [(i, c.symbol)]

/-- The squares of the tape from left to right: number and symbol. -/
def squares (t : Tape) (i : Nat) : Except StaleCell (List (Nat × Symbol)) := do
  t.squaresFrom t.size (← t.leftmost i)

/-- How many squares stand to the left of square `i`. -/
def position (t : Tape) (i : Nat) : Except StaleCell Nat := do
  return ((← t.squares i).map Prod.fst).idxOf i

end Tape

end AutomaticMachine
