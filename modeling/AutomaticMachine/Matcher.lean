/-
Matchers: which scanned symbols a rule applies to.

`Matcher.Accepts` is the meaning of a matcher, `Matcher.covers` decides whether
one matcher leaves nothing for another, and `Matcher.describe` is its short
form in a table.
-/
import AutomaticMachine.Symbol
import AutomaticMachine.TextSet

namespace AutomaticMachine

/-- The condition of a rule on the scanned symbol. -/
inductive Matcher
  /-- Exactly this symbol; the blank is a symbol like any other. -/
  | symbol (s : Symbol)
  /-- One of these symbols. -/
  | anyOf (symbols : TextSet)
  /-- Every symbol but the blank. -/
  | nonBlank
deriving DecidableEq

namespace Matcher

/-- The condition of a rule for blank squares. -/
def none : Matcher := symbol Symbol.blank

/-- The scanned symbol `s` meets the condition. -/
def Accepts : Matcher → Symbol → Prop
  | symbol t, s => s = t
  | anyOf symbols, s => s ∈ symbols
  | nonBlank, s => s ≠ Symbol.blank

instance (m : Matcher) (s : Symbol) : Decidable (m.Accepts s) :=
  match m with
  | symbol t => inferInstanceAs (Decidable (s = t))
  | anyOf symbols => inferInstanceAs (Decidable (s ∈ symbols))
  | nonBlank => inferInstanceAs (Decidable (s ≠ Symbol.blank))

/-- Whether the first matcher accepts every symbol that the second accepts.  No finite list of
symbols exhausts the non-blank ones, so only `nonBlank` covers `nonBlank`; a finite matcher is
covered symbol by symbol. -/
def covers : Matcher → Matcher → Bool
  | nonBlank, nonBlank => true
  | _, nonBlank => false
  | m, symbol s => decide (m.Accepts s)
  | m, anyOf symbols => symbols.elements.all fun s => decide (m.Accepts s)

theorem covers_symbol (m : Matcher) (s : Symbol) : m.covers (symbol s) = decide (m.Accepts s) := by
  cases m <;> rfl

theorem covers_anyOf (m : Matcher) (symbols : TextSet) :
    m.covers (anyOf symbols) = symbols.elements.all fun s => decide (m.Accepts s) := by
  cases m <;> rfl

theorem covers_nonBlank (m : Matcher) : m.covers nonBlank = decide (m = nonBlank) := by
  cases m <;> rfl

/-- The short form of a matcher. -/
def describe : Matcher → String
  | symbol s => if s = Symbol.blank then "none" else s
  | anyOf symbols => "\x7b" ++ String.intercalate ", " symbols.elements ++ "\x7d"
  | nonBlank => "any"

end Matcher

end AutomaticMachine
