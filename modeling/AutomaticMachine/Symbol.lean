/-
The symbols that stand on the squares of a tape.

A symbol is any text; the empty text is the blank.  `Symbol.display` is what a
reader of the tape sees.
-/

namespace AutomaticMachine

/-- What a square of the tape holds. -/
abbrev Symbol := String

namespace Symbol

/-- The symbol of a square that nothing is printed on. -/
def blank : Symbol := ""

/-- The mark that the classical tables put at the left end of their work. -/
def schwa : Symbol := "ə"

def blankDisplay : String := "_"

/-- How a square is shown: its symbol, or `_` where it is blank. -/
def display (s : Symbol) : String := if s = blank then blankDisplay else s

end Symbol

end AutomaticMachine
