/-
A tape as a row of symbols.

Seen from left to right a tape is a list of symbols with one scanned place in
it.  `Operation.onRow` does to such a row what an operation does to a tape; it
makes the row longer where the tape grows.

* `Tape.Bears`                          — the tape bears the symbols of a row;
* `Bears.written`                       — printing and erasing change one symbol of the row;
* `Bears.step_right`, `Bears.step_left` — moves inside of the tape change the place only;
* `Bears.grow_right`, `Bears.grow_left` — moves over an end make the row longer;
* `Bears.execute`                       — an operation does to the row what it does to the tape;
* `Bears.execute_of_ne_left`            — without moves to the left the squares are numbered from
  left to right.
-/
import AutomaticMachine.Proofs.Tape.Chain

namespace AutomaticMachine

/-- A row of squares of which one is scanned. -/
structure Row where
  symbols : List Symbol
  /-- How many squares stand to the left of the scanned one. -/
  place : Nat
deriving DecidableEq

/-- The scanned symbol. -/
def Row.scanned (r : Row) : Symbol := r.symbols[r.place]?.getD Symbol.blank

/-- What an operation does to a row.  A move over an end finds a blank square there. -/
def Operation.onRow (op : Operation) (r : Row) : Row :=
  match op with
  | print s => { r with symbols := r.symbols.set r.place s }
  | erase => { r with symbols := r.symbols.set r.place Symbol.blank }
  | move .left =>
    if r.place = 0 then { r with symbols := Symbol.blank :: r.symbols }
    else { r with place := r.place - 1 }
  | move .right =>
    if r.place + 1 < r.symbols.length then { r with place := r.place + 1 }
    else { symbols := r.symbols ++ [Symbol.blank], place := r.place + 1 }

theorem Operation.onRow_of_written? {op : Operation} {s : Symbol} (hs : op.written? = some s)
    (r : Row) : op.onRow r = { r with symbols := r.symbols.set r.place s } := by
  cases op with
  | print s' => rw [onRow, Option.some.inj hs]
  | erase => rw [onRow, ← Option.some.inj hs]
  | move d => exact absurd hs (by simp [written?])

namespace Tape

/-- The squares of the tape, numbered from left to right as in the list, bear the symbols of the
row, and square `i` is the scanned one. -/
structure Bears (t : Tape) (l : List Nat) (i : Nat) (r : Row) : Prop where
  chain : t.Chain l
  symbols_eq : r.symbols = l.map fun k => (t.cellAt k).symbol
  head_eq : l[r.place]? = some i

theorem bears_new : Tape.new.Bears [origin] origin { symbols := [Symbol.blank], place := 0 } where
  chain := chain_new
  symbols_eq := rfl
  head_eq := rfl

namespace Bears

variable {t : Tape} {l : List Nat} {i : Nat} {r : Row}

theorem length_eq (h : t.Bears l i r) : r.symbols.length = l.length := by
  rw [h.symbols_eq, List.length_map]

theorem place_lt (h : t.Bears l i r) : r.place < l.length :=
  (List.getElem?_eq_some_iff.mp h.head_eq).1

theorem head_lt (h : t.Bears l i r) : i < t.size :=
  (h.chain.mem_iff i).mp (List.mem_of_getElem? h.head_eq)

/-- The chain on both sides of the scanned square. -/
theorem exists_split (h : t.Bears l i r) : ∃ a b, l = a ++ i :: b ∧ a.length = r.place := by
  obtain ⟨hlt, hi⟩ := List.getElem?_eq_some_iff.mp h.head_eq
  refine ⟨l.take r.place, l.drop (r.place + 1), ?_, ?_⟩
  · rw [← hi, List.getElem_cons_drop, List.take_append_drop]
  · rw [List.length_take]
    omega

theorem scanned_eq (h : t.Bears l i r) : r.scanned = (t.cellAt i).symbol := by
  rw [Row.scanned, h.symbols_eq, List.getElem?_map, h.head_eq]
  rfl

/-- Read from left to right the tape shows the symbols of the row. -/
theorem squares_eq (h : t.Bears l i r) : t.squares i = .ok (l.zip r.symbols) := by
  have hzip : (l.map id).zip (l.map fun k => (t.cellAt k).symbol) =
      l.map fun k => (k, (t.cellAt k).symbol) := List.zip_map'
  rw [List.map_id] at hzip
  rw [h.chain.squares_eq h.head_lt, h.symbols_eq, hzip]

/-! ### Operations -/

theorem written (h : t.Bears l i r) {op : Operation} {s : Symbol} (hs : op.written? = some s) :
    op.execute t i = .ok (t.printed i s, i) ∧ (t.printed i s).Bears l i (op.onRow r) := by
  refine ⟨Operation.execute_of_written? hs h.head_lt, h.chain.printed h.head_lt s, ?_, ?_⟩
  · obtain ⟨a, b, rfl, hplace⟩ := h.exists_split
    -- The scanned square stands at its place only.
    obtain ⟨ha, hb⟩ : i ∉ a ∧ i ∉ b := by
      have hnodup := h.chain.nodup
      rw [List.nodup_middle, List.nodup_cons, List.mem_append, not_or] at hnodup
      exact hnodup.1
    have hkept : ∀ m : List Nat, i ∉ m →
        (m.map fun k => ((t.printed i s).cellAt k).symbol) = m.map fun k => (t.cellAt k).symbol := by
      intro m hm
      refine List.map_congr_left ?_
      intro k hk
      rw [symbol_printed s h.head_lt, if_neg (ne_of_mem_of_not_mem hk hm)]
    rw [Operation.onRow_of_written? hs, h.symbols_eq, List.map_append, List.map_append,
      List.map_cons, List.map_cons, hkept a ha, hkept b hb, symbol_printed s h.head_lt, if_pos rfl,
      ← hplace]
    simp
  · rw [Operation.onRow_of_written? hs]
    exact h.head_eq

/-- Inside of the tape a move to the right only changes the place. -/
theorem step_right (h : t.Bears l i r) (hlt : r.place + 1 < l.length) :
    ∃ j, t.move .right i = .ok (t, j) ∧ t.Bears l j ((Operation.move .right).onRow r) := by
  have hlen : r.place + 1 < r.symbols.length := by rw [h.length_eq]; exact hlt
  obtain ⟨a, b, rfl, hplace⟩ := h.exists_split
  obtain ⟨j, b, rfl⟩ : ∃ j b', b = j :: b' := by
    cases b with
    | nil => simp [← hplace] at hlt
    | cons j b => exact ⟨j, b, rfl⟩
  refine ⟨j, move_of_some h.head_lt (h.chain.next .right i a (j :: b) rfl), ?_⟩
  rw [Operation.onRow, if_pos hlen]
  exact ⟨h.chain, h.symbols_eq, by simp [← hplace]⟩

theorem step_left (h : t.Bears l i r) (hpos : r.place ≠ 0) :
    ∃ j, t.move .left i = .ok (t, j) ∧ t.Bears l j ((Operation.move .left).onRow r) := by
  obtain ⟨a, b, rfl, hplace⟩ := h.exists_split
  obtain ⟨a, j, rfl⟩ : ∃ a' j, a = a' ++ [j] := by
    rcases List.eq_nil_or_concat' a with rfl | h
    · exact absurd hplace.symm hpos
    · exact h
  have hsome : (t.cellAt i).neighbour .left = some j :=
    h.chain.next .left i b.reverse (j :: a.reverse) (by simp [Direction.along])
  refine ⟨j, move_of_some h.head_lt hsome, ?_⟩
  rw [Operation.onRow, if_neg hpos]
  exact ⟨h.chain, h.symbols_eq, by simp [← hplace]⟩

/-- A new square does not change the others. -/
theorem map_symbol_grow (h : t.Bears l i r) (d : Direction) :
    (l.map fun k => ((t.grow d i).cellAt k).symbol) = r.symbols := by
  rw [h.symbols_eq]
  refine List.map_congr_left ?_
  intro k hk
  rw [symbol_grow d h.head_lt, if_neg (Nat.ne_of_lt ((h.chain.mem_iff k).mp hk))]

/-- At the right end of the tape a move to the right makes it longer. -/
theorem grow_right (h : t.Bears l i r) (hlast : r.place + 1 = l.length) :
    t.move .right i = .ok (t.grow .right i, t.size) ∧
      (t.grow .right i).Bears (l ++ [t.size]) t.size ((Operation.move .right).onRow r) := by
  have hlen : ¬ r.place + 1 < r.symbols.length := by rw [h.length_eq]; omega
  obtain ⟨a, b, hl, hplace⟩ := h.exists_split
  obtain rfl : b = [] := by
    refine List.eq_nil_of_length_eq_zero ?_
    rw [hl, List.length_append, List.length_cons] at hlast
    omega
  have hnone : (t.cellAt i).neighbour .right = none := h.chain.next .right i a [] hl
  refine ⟨move_of_none h.head_lt hnone, ?_⟩
  rw [Operation.onRow, if_neg hlen]
  refine ⟨h.chain.grow h.head_lt hnone, ?_, by simp [hlast]⟩
  rw [List.map_append, List.map_singleton, h.map_symbol_grow, symbol_grow .right h.head_lt,
    if_pos rfl]

theorem grow_left (h : t.Bears l i r) (hfirst : r.place = 0) :
    t.move .left i = .ok (t.grow .left i, t.size) ∧
      (t.grow .left i).Bears (t.size :: l) t.size ((Operation.move .left).onRow r) := by
  obtain ⟨a, b, hl, hplace⟩ := h.exists_split
  obtain rfl : a = [] := List.eq_nil_of_length_eq_zero (hplace.trans hfirst)
  have hnone : (t.cellAt i).neighbour .left = none :=
    h.chain.next .left i b.reverse [] (by simp [hl, Direction.along])
  refine ⟨move_of_none h.head_lt hnone, ?_⟩
  rw [Operation.onRow, if_pos hfirst]
  refine ⟨h.chain.grow h.head_lt hnone, ?_, by simp [hfirst]⟩
  rw [List.map_cons, h.map_symbol_grow, symbol_grow .left h.head_lt, if_pos rfl]

/-- An operation does to the row what it does to the tape. -/
theorem execute (h : t.Bears l i r) (op : Operation) :
    ∃ t' j l', op.execute t i = .ok (t', j) ∧ t'.Bears l' j (op.onRow r) := by
  rcases op.writes_or_moves with ⟨s, hs⟩ | ⟨d, rfl⟩
  · obtain ⟨hop, hb⟩ := h.written hs
    exact ⟨_, _, l, hop, hb⟩
  · rw [Operation.execute_move]
    cases d with
    | left =>
      by_cases hfirst : r.place = 0
      · obtain ⟨hop, hb⟩ := h.grow_left hfirst
        exact ⟨_, _, _, hop, hb⟩
      · obtain ⟨j, hop, hb⟩ := h.step_left hfirst
        exact ⟨t, j, l, hop, hb⟩
    | right =>
      have hplace := h.place_lt
      by_cases hlt : r.place + 1 < l.length
      · obtain ⟨j, hop, hb⟩ := h.step_right hlt
        exact ⟨t, j, l, hop, hb⟩
      · obtain ⟨hop, hb⟩ := h.grow_right (by omega)
        exact ⟨_, _, _, hop, hb⟩

/-- As long as nothing goes to the left, the squares stand in the order of their creation. -/
theorem execute_of_ne_left (h : t.Bears (List.range t.size) i r) {op : Operation}
    (hop : op ≠ .move .left) :
    ∃ t' j, op.execute t i = .ok (t', j) ∧ t'.Bears (List.range t'.size) j (op.onRow r) := by
  rcases op.writes_or_moves with ⟨s, hs⟩ | ⟨d, rfl⟩
  · obtain ⟨hexec, hb⟩ := h.written hs
    exact ⟨_, _, hexec, by rwa [size_printed]⟩
  · obtain rfl : d = .right := by
      cases d with
      | left => exact absurd rfl hop
      | right => rfl
    have hplace := h.place_lt
    by_cases hlt : r.place + 1 < (List.range t.size).length
    · obtain ⟨j, hmove, hb⟩ := h.step_right hlt
      exact ⟨t, j, hmove, hb⟩
    · obtain ⟨hmove, hb⟩ := h.grow_right (by omega)
      exact ⟨_, _, hmove, by rwa [size_grow, List.range_succ]⟩

end Bears

end Tape

end AutomaticMachine
