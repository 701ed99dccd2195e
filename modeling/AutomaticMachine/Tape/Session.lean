/-
Working on a tape by hand.

A session holds a current tape and numbered copies of it.  A request names the
square it works on by number; after `restore` such a number may be stale, and
then `Session.perform` gives the `StaleCell` and the session goes on from
where it was.
-/
import AutomaticMachine.Operation

namespace AutomaticMachine

namespace Tape

inductive Request
  | execute (op : Operation) (i : Nat)
  | read (i : Nat)
  | neighbour (d : Direction) (i : Nat)
  | leftmost (i : Nat)
  /-- The whole tape from left to right. -/
  | squares (i : Nat)
  | origin
  | size
  | isEmpty
  | save
  | restore (slot : Nat)
  | equals (slot : Nat)
deriving DecidableEq

/-- What a tape session answers. -/
inductive Reply
  | square (i : Nat)
  | symbol (s : Symbol)
  | neighbour (i : Option Nat)
  | squares (l : List (Nat × Symbol))
  | count (n : Nat)
  | flag (b : Bool)
  | slot (n : Nat)
  | done
deriving DecidableEq

/-- A tape with copies kept of it, in the order they were made. -/
structure Session where
  tape : Tape := new
  saved : Array Tape := #[]
deriving DecidableEq

namespace Session

/-- The copy in a slot; a slot that was never filled stands for the current tape. -/
def copy (s : Session) (slot : Nat) : Tape := s.saved[slot]?.getD s.tape

def perform (s : Session) : Request → Except StaleCell (Reply × Session)
  | .execute op i => do
    let (tape, j) ← op.execute s.tape i
    return (.square j, { s with tape })
  | .read i => return (.symbol (← s.tape.read i), s)
  | .neighbour d i => return (.neighbour (← s.tape.neighbour d i), s)
  | .leftmost i => return (.square (← s.tape.leftmost i), s)
  | .squares i => return (.squares (← s.tape.squares i), s)
  | .origin => return (.square Tape.origin, s)
  | .size => return (.count s.tape.size, s)
  | .isEmpty => return (.flag (s.tape.size == 0), s)
  | .save => return (.slot s.saved.size, { s with saved := s.saved.push s.tape })
  | .restore slot => return (.done, { s with tape := s.copy slot })
  | .equals slot => return (.flag (s.tape == s.copy slot), s)

/-- Answer requests one after the other; one that fails leaves the session as it was. -/
def performAll (s : Session) : List Request → List (Except StaleCell Reply) × Session
  | [] => ([], s)
  | r :: rest =>
    match s.perform r with
    | .ok (reply, s') =>
      let (replies, final) := s'.performAll rest
      (.ok reply :: replies, final)
    | .error e =>
      let (replies, final) := s.performAll rest
      (.error e :: replies, final)

end Session

end Tape

end AutomaticMachine
