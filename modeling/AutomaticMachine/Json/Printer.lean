/-
JSON values as indented text.

Every item and every member stands on a line of its own, indented by two more
blanks than what contains it; a list or an object without content is written
in one piece.  In a text only the quote, the backslash and the characters
below the space are escaped.
-/
import AutomaticMachine.Json

namespace AutomaticMachine

namespace Json

/-- A character inside a text. -/
def escapeChar (c : Char) : List Char :=
  if c = '"' then ['\\', '"']
  else if c = '\\' then ['\\', '\\']
  else if c = '\x08' then ['\\', 'b']
  else if c = '\x0c' then ['\\', 'f']
  else if c = '\n' then ['\\', 'n']
  else if c = '\r' then ['\\', 'r']
  else if c = '\t' then ['\\', 't']
  else if c.toNat < 32 then
    ['\\', 'u', '0', '0', Nat.digitChar (c.toNat / 16), Nat.digitChar (c.toNat % 16)]
  else [c]

/-- A text in quotes.  Half of a surrogate pair can only be written as an escape. -/
def printText : Option String → List Char
  | some s => '"' :: s.toList.flatMap escapeChar ++ ['"']
  | none => "\"\\ud800\"".toList

/-- A line break and the indentation of the line that follows. -/
def newLine (depth : Nat) : List Char := '\n' :: List.replicate (2 * depth) ' '

mutual

/-- A value that starts on a line with this indentation. -/
def print (depth : Nat) : Json → List Char
  | null => "null".toList
  | bool b => (if b then "true" else "false").toList
  | number literal => literal
  | string text => printText text
  | array [] => "[]".toList
  | array (item :: items) =>
    '[' :: newLine (depth + 1) ++ item.print (depth + 1) ++ printItems (depth + 1) items
      ++ newLine depth ++ [']']
  | object [] => "\x7b\x7d".toList
  | object ((name, value) :: members) =>
    '{' :: newLine (depth + 1) ++ printText name ++ ": ".toList ++ value.print (depth + 1)
      ++ printMembers (depth + 1) members ++ newLine depth ++ ['}']

/-- The items of a list after the first. -/
def printItems (depth : Nat) : List Json → List Char
  | [] => []
  | item :: items => ',' :: newLine depth ++ item.print depth ++ printItems depth items

/-- The members of an object after the first. -/
def printMembers (depth : Nat) : List (Option String × Json) → List Char
  | [] => []
  | (name, value) :: members =>
    ',' :: newLine depth ++ printText name ++ ": ".toList ++ value.print depth
      ++ printMembers depth members

end

end Json

end AutomaticMachine
