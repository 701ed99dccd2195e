/-
Which matchers cover which.

`Matcher.covers` compares two matchers by their form, although `nonBlank`
accepts infinitely many symbols and sets may hold the blank or nothing at all.
What it answers is inclusion of the accepted symbols, no more and no less:

* `accepts_of_covers`         — what covers a matcher accepts all that the matcher accepts;
* `covers_of_forall_accepts`  — what accepts all that a matcher accepts covers it, since a matcher
  other than `nonBlank` accepts no more symbols than a list holds (`exists_accepted`), and no list
  holds all that are not blank (`exists_nonBlank_notMem`);
* `covers_iff_forall_accepts` — the main statement.
-/
import AutomaticMachine.Matcher
import Mathlib.Data.Fintype.EquivFin

namespace AutomaticMachine

namespace Matcher

variable {m m' : Matcher}

/-- A matcher accepts all that a matcher accepts that it covers. -/
theorem accepts_of_covers (h : m.covers m') {s : Symbol} (hs : m'.Accepts s) : m.Accepts s := by
  cases m' with
  | symbol x =>
    obtain rfl : s = x := hs
    simpa [covers_symbol] using h
  | anyOf symbols =>
    have hall : ∀ x ∈ symbols.elements, m.Accepts x := by
      simpa [covers_anyOf] using h
    exact hall s hs
  | nonBlank =>
    -- Only the same matcher covers this one.
    obtain rfl : m = nonBlank := by simpa [covers_nonBlank] using h
    exact hs

/-- There is always one more symbol to print. -/
theorem exists_nonBlank_notMem (symbols : List Symbol) : ∃ s, s ≠ Symbol.blank ∧ s ∉ symbols := by
  obtain ⟨s, hs⟩ := Infinite.exists_notMem_finset (Symbol.blank :: symbols).toFinset
  rw [List.mem_toFinset, List.mem_cons, not_or] at hs
  exact ⟨s, hs⟩

/-- All matchers but `nonBlank` are about the symbols of a list. -/
theorem exists_accepted (h : m ≠ nonBlank) :
    ∃ symbols : List Symbol, ∀ s, m.Accepts s → s ∈ symbols := by
  cases m with
  | symbol x => exact ⟨[x], fun s hs => List.mem_singleton.mpr hs⟩
  | anyOf symbols => exact ⟨symbols.elements, fun s hs => hs⟩
  | nonBlank => exact absurd rfl h

theorem covers_of_forall_accepts (h : ∀ s, m'.Accepts s → m.Accepts s) : m.covers m' := by
  cases m' with
  | symbol x =>
    rw [covers_symbol]
    exact decide_eq_true (h x rfl)
  | anyOf symbols =>
    rw [covers_anyOf, List.all_eq_true]
    intro x hx
    exact decide_eq_true (h x hx)
  | nonBlank =>
    rw [covers_nonBlank]
    refine decide_eq_true (Decidable.byContradiction ?_)
    intro hm
    obtain ⟨symbols, haccepted⟩ := exists_accepted hm
    obtain ⟨s, hs, hfresh⟩ := exists_nonBlank_notMem symbols
    exact hfresh (haccepted s (h s hs))

/-- **Covering is inclusion.**  One matcher covers another just when it accepts every symbol that
the other accepts. -/
theorem covers_iff_forall_accepts (m m' : Matcher) :
    m.covers m' = true ↔ ∀ s, m'.Accepts s → m.Accepts s := by
  constructor
  · intro h s hs
    exact accepts_of_covers h hs
  · exact covers_of_forall_accepts

/-- A set without members is covered by every matcher, and the blank in a set keeps `nonBlank` from
covering it. -/
example :
    (symbol "0").covers (anyOf (.ofList [])) = true ∧
      nonBlank.covers (anyOf (.ofList ["", "0"])) = false := by
  decide

end Matcher

end AutomaticMachine
