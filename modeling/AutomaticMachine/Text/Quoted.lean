/-
Texts in double quotes, for messages.

The quote and the backslash are written after a backslash, so are the line
feed, the carriage return, the tab and the null character by a letter or
digit; any other character that cannot be shown as it is stands by its code
point in lower-case hexadecimal digits between braces.  An apostrophe stands
as it is.
-/
import AutomaticMachine.Text.Shown

namespace AutomaticMachine

namespace Text

/-- One character inside a quoted text. -/
def quoteChar (c : Char) : String :=
  if c = '"' then "\\\""
  else if c = '\\' then "\\\\"
  else if c = '\n' then "\\n"
  else if c = '\r' then "\\r"
  else if c = '\t' then "\\t"
  else if c = '\x00' then "\\0"
  else if isShown c then c.toString
  else "\\u\x7b" ++ String.ofList (Nat.toDigits 16 c.toNat) ++ "\x7d"

def quote (s : String) : String := "\"" ++ String.join (s.toList.map quoteChar) ++ "\""

/-- A list of texts, each in double quotes, between brackets. -/
def quoteList (l : List String) : String := "[" ++ String.intercalate ", " (l.map quote) ++ "]"

end Text

end AutomaticMachine
