/-
JSON values.

A number is kept as it is written, because a reader that does not use it needs
no value for it.  A text is kept decoded; one whose escapes name half of a
surrogate pair only is well formed but stands for no text, and is `none`.
-/

namespace AutomaticMachine

inductive Json
  | null
  | bool (b : Bool)
  | number (literal : List Char)
  | string (text : Option String)
  | array (items : List Json)
  | object (members : List (Option String × Json))

namespace Json

/-- A number without sign, fraction and exponent. -/
def ofNat (n : Nat) : Json := number (Nat.toDigits 10 n)

def ofString (s : String) : Json := string (some s)

/-- A text, or null where there is none. -/
def ofOption : Option String → Json
  | some s => ofString s
  | none => null

def ofMembers (members : List (String × Json)) : Json :=
  object (members.map fun (name, value) => (some name, value))

end Json

end AutomaticMachine
