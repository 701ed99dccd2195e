/-
Left and right are the reflections of each other.

A table with all moves turned round goes through the same configurations and
makes the same squares in the same order, each with its neighbours exchanged.
The squares come out in the reverse order, although every walk begins on the
left.

* `Symmetry.reflection`    — both directions turned round, all else left alone;
* `Symmetry.run_reflected` — the main statement, on the snapshots of whole runs.
-/
import AutomaticMachine.Proofs.Symmetry.Basic

namespace AutomaticMachine

namespace Symmetry

variable {t : Table} {initial : String} {p q : Program} {s s' : Snapshot}

/-- Left in the place of right and right in the place of left. -/
def reflection : Symmetry where
  symbol := id
  direction := Direction.opposite
  matcher := id
  symbol_blank := rfl
  direction_opposite _ := rfl
  matcher_none := rfl
  accepts_iff _ _ := Iff.rfl
  covers_eq _ _ := rfl
  isEmptySet_eq _ := rfl

theorem Image.read_reflected (h : reflection.Image p q s s') (i : Nat) :
    s'.tape.read i = s.tape.read i :=
  (h.read_eq i).trans (id_map _)

/-- Read from the left, the tape is turned round. -/
theorem Image.tapeSymbols_reflected (h : reflection.Image p q s s') :
    s'.tapeSymbols = s.tapeSymbols.reverse := by
  rw [h.tapeSymbols_eq]
  show (s.tapeSymbols.map id).reverse = s.tapeSymbols.reverse
  rw [List.map_id]

/-- **Left and right are the reflections of each other.**  A table that is accepted is still
accepted with left and right exchanged in all its operations.  Its run shows the same squares with
their neighbours exchanged, the same symbols on them and the same configurations, and the symbols
on the tape from right to left. -/
theorem run_reflected (hb : t.build initial = .ok p) :
    ∃ q, (reflection.table t).build initial = .ok q ∧
      ∀ n,
        let s := p.step^[n] p.start
        let s' := q.step^[n] q.start
        reflection.Image p q s s' ∧ (∀ i, s'.tape.read i = s.tape.read i) ∧
          (∀ i, s'.tape.neighbour .left i = s.tape.neighbour .right i) ∧
          (∀ i, s'.tape.neighbour .right i = s.tape.neighbour .left i) ∧
          s'.tapeSymbols = s.tapeSymbols.reverse := by
  obtain ⟨q, hq, -, himage⟩ := run_table (σ := reflection) hb
  refine ⟨q, hq, ?_⟩
  intro n
  exact ⟨himage n, (himage n).read_reflected, (himage n).neighbour_eq .left,
    (himage n).neighbour_eq .right, (himage n).tapeSymbols_reflected⟩

/-- The table prints to the right of the origin, goes back and prints to the left of it. -/
theorem run_reflected_digits :
    let t : Table := {
      name := "digits"
      configurations := [
        ⟨"b", [⟨.none, [.move .right, .print "1", .move .left, .move .left], "c"⟩]⟩,
        ⟨"c", [⟨.none, [.print "0", .move .right], "c"⟩, ⟨.symbol "1", [.erase], "b"⟩]⟩] }
    let p := t.resolved "b"
    t.build "b" = .ok p ∧ (p.step^[5] p.start).tapeSymbols = ["0", "", "1"] ∧
      ∃ q, (reflection.table t).build "b" = .ok q ∧
        (q.step^[5] q.start).tapeSymbols = ["1", "", "0"] ∧
        ∀ n,
          let s := p.step^[n] p.start
          let s' := q.step^[n] q.start
          reflection.Image p q s s' ∧ (∀ i, s'.tape.read i = s.tape.read i) ∧
            (∀ i, s'.tape.neighbour .left i = s.tape.neighbour .right i) ∧
            (∀ i, s'.tape.neighbour .right i = s.tape.neighbour .left i) ∧
            s'.tapeSymbols = s.tapeSymbols.reverse := by
  intro t p
  have hb : t.build "b" = .ok p := rfl
  have hsymbols : (p.step^[5] p.start).tapeSymbols = ["0", "", "1"] := by
    decide +kernel
  obtain ⟨q, hq, hrun⟩ := run_reflected hb
  refine ⟨hb, hsymbols, q, hq, ?_, hrun⟩
  obtain ⟨-, -, -, -, hreverse⟩ := hrun 5
  rw [hreverse, hsymbols]
  rfl

end Symmetry

end AutomaticMachine
