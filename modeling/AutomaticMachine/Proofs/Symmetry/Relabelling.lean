/-
To a machine no symbol but the blank means anything.

Other symbols can be put in the place of those that a table prints and scans,
as long as different ones stay different and the blank stays the blank: the
table is still accepted with the same findings, and its run is the same but
for the symbols.

* `Matcher.accepts_relabel`      — a matcher tells the same symbols apart as before;
* `Matcher.covers_relabel`       — and so rules are covered that were covered before;
* `Symmetry.run_relabelled`      — the main statement, on the snapshots of whole runs.
-/
import AutomaticMachine.Proofs.Symmetry.Basic
import Mathlib.Logic.Equiv.Basic

namespace AutomaticMachine

namespace TextSet

/-- The texts that the members of a set are mapped to. -/
def image (f : String → String) (s : TextSet) : TextSet := ofList (s.elements.map f)

theorem mem_image {f : String → String} {s : TextSet} {y : String} :
    y ∈ s.image f ↔ ∃ x ∈ s, f x = y := by
  rw [image, mem_ofList, List.mem_map]
  rfl

theorem mem_image_of_injective {f : String → String} (hf : Function.Injective f) {s : TextSet}
    {x : String} : f x ∈ s.image f ↔ x ∈ s := by
  rw [mem_image]
  constructor
  · rintro ⟨y, hy, he⟩
    rwa [← hf he]
  · intro hx
    exact ⟨x, hx, rfl⟩

end TextSet

namespace Matcher

variable {f : Symbol → Symbol}

/-- The matcher with other symbols in the place of those it names. -/
def relabel (f : Symbol → Symbol) : Matcher → Matcher
  | symbol s => symbol (f s)
  | anyOf symbols => anyOf (symbols.image f)
  | nonBlank => nonBlank

theorem accepts_relabel (hf : Function.Injective f) (hblank : f Symbol.blank = Symbol.blank)
    (m : Matcher) (s : Symbol) : (m.relabel f).Accepts (f s) ↔ m.Accepts s := by
  cases m with
  | symbol x => exact hf.eq_iff
  | anyOf symbols => exact TextSet.mem_image_of_injective hf
  | nonBlank =>
    show f s ≠ Symbol.blank ↔ s ≠ Symbol.blank
    rw [← hf.ne_iff (x := s), hblank]

theorem relabel_eq_nonBlank {m : Matcher} : m.relabel f = nonBlank ↔ m = nonBlank := by
  cases m <;> simp [relabel]

theorem covers_relabel (hf : Function.Injective f) (hblank : f Symbol.blank = Symbol.blank)
    (m m' : Matcher) : (m.relabel f).covers (m'.relabel f) = m.covers m' := by
  cases m' with
  | symbol x =>
    show (m.relabel f).covers (symbol (f x)) = m.covers (symbol x)
    rw [covers_symbol, covers_symbol]
    exact decide_eq_decide.mpr (accepts_relabel hf hblank m x)
  | anyOf symbols =>
    show (m.relabel f).covers (anyOf (symbols.image f)) = m.covers (anyOf symbols)
    rw [covers_anyOf, covers_anyOf, Bool.eq_iff_iff, List.all_eq_true, List.all_eq_true]
    constructor
    · intro h x hx
      have hx' : f x ∈ symbols.image f := TextSet.mem_image.mpr ⟨x, hx, rfl⟩
      simpa [accepts_relabel hf hblank] using h (f x) hx'
    · intro h y hy
      obtain ⟨x, hx, rfl⟩ := TextSet.mem_image.mp hy
      simpa [accepts_relabel hf hblank] using h x hx
  | nonBlank =>
    show (m.relabel f).covers nonBlank = m.covers nonBlank
    rw [covers_nonBlank, covers_nonBlank]
    exact decide_eq_decide.mpr relabel_eq_nonBlank

theorem isEmptySet_relabel (m : Matcher) : (m.relabel f).isEmptySet = m.isEmptySet := by
  cases m with
  | symbol x => rfl
  | anyOf symbols =>
    show (symbols.image f).isEmpty = symbols.isEmpty
    rw [Bool.eq_iff_iff, TextSet.isEmpty_iff, TextSet.isEmpty_iff]
    constructor
    · intro h x hx
      exact h (f x) (TextSet.mem_image.mpr ⟨x, hx, rfl⟩)
    · intro h y hy
      obtain ⟨x, hx, -⟩ := TextSet.mem_image.mp hy
      exact h x hx
  | nonBlank => rfl

end Matcher

namespace Symmetry

variable {f : Symbol → Symbol} {t : Table} {initial : String} {p : Program}

/-- Other symbols in the place of symbols. -/
def relabelling (f : Symbol → Symbol) (hf : Function.Injective f)
    (hblank : f Symbol.blank = Symbol.blank) : Symmetry where
  symbol := f
  direction := id
  matcher := Matcher.relabel f
  symbol_blank := hblank
  direction_opposite _ := rfl
  matcher_none := congrArg Matcher.symbol hblank
  accepts_iff := Matcher.accepts_relabel hf hblank
  covers_eq := Matcher.covers_relabel hf hblank
  isEmptySet_eq := Matcher.isEmptySet_relabel

/-- **Symbols other than the blank are opaque.**  A table that is accepted is still accepted with
other symbols in the place of those it prints and scans, and has the same findings.  Its run shows
the same squares and configurations, with the other symbols on the squares and in the operations. -/
theorem run_relabelled (hf : Function.Injective f) (hblank : f Symbol.blank = Symbol.blank)
    (hb : t.build initial = .ok p) :
    ∃ q, ((relabelling f hf hblank).table t).build initial = .ok q ∧ q.lint = p.lint ∧
      ∀ n, (relabelling f hf hblank).Image p q (p.step^[n] p.start) (q.step^[n] q.start) :=
  run_table hb

/-- Exchanging `0` and `ə` changes the order of the set that the second configuration looks for.
The rule that was shadowed by it still is, and the digits come out exchanged. -/
theorem run_relabelled_swap :
    let f : Symbol → Symbol := Equiv.swap "0" Symbol.schwa
    let t : Table := {
      name := "digits"
      configurations := [
        ⟨"b", [⟨.none, [.print "0", .move .right, .print "1"], "c"⟩]⟩,
        ⟨"c", [⟨.anyOf (.ofList ["0", "1"]), [.move .left, .move .left], "b"⟩,
          ⟨.symbol "0", [.erase], "c"⟩, ⟨.nonBlank, [.print Symbol.schwa], "b"⟩]⟩] }
    let p := t.resolved "b"
    t.build "b" = .ok p ∧ p.lint = [.shadowed "c" 1 0] ∧
      (p.step^[5] p.start).tapeSymbols = ["", "0", "1"] ∧
      ∃ (hf : Function.Injective f) (hblank : f Symbol.blank = Symbol.blank) (q : Program),
        ((relabelling f hf hblank).table t).build "b" = .ok q ∧ q.lint = [.shadowed "c" 1 0] ∧
        (q.step^[5] q.start).tapeSymbols = ["", Symbol.schwa, "1"] ∧
        ∀ n, (relabelling f hf hblank).Image p q (p.step^[n] p.start) (q.step^[n] q.start) := by
  intro f t p
  have hb : t.build "b" = .ok p := rfl
  have hlint : p.lint = [.shadowed "c" 1 0] := by
    cbv
  have hsymbols : (p.step^[5] p.start).tapeSymbols = ["", "0", "1"] := by
    decide +kernel
  have hf : Function.Injective f := (Equiv.swap "0" Symbol.schwa).injective
  have hblank : f Symbol.blank = Symbol.blank :=
    Equiv.swap_apply_of_ne_of_ne (by decide) (by decide)
  obtain ⟨q, hq, hlint', himage⟩ := run_relabelled hf hblank hb
  refine ⟨hb, hlint, hsymbols, hf, hblank, q, hq, hlint'.trans hlint, ?_, himage⟩
  rw [(himage 5).tapeSymbols_eq, hsymbols]
  show ["", "0", "1"].map (Equiv.swap "0" Symbol.schwa) = ["", Symbol.schwa, "1"]
  decide

end Symmetry

end AutomaticMachine
