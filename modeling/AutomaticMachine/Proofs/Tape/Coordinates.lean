/-
The integer positions of the squares of a tape.

`Tape.coordinate` counts squares from the origin, to the right.  Positions do
not change while the tape grows, on whichever side, and so a tape is a window
on a line of squares that is infinite both ways: `Tape.Shows` says which part
of the line is on the tape, and `Shows.execute` that an operation does to the
tape what `Operation.act` does to the line.
-/
import AutomaticMachine.Proofs.Tape.Chain
import Mathlib.Logic.Function.Basic

namespace AutomaticMachine

/-- How far to the right a move goes. -/
def Direction.offset : Direction → Int
  | left => -1
  | right => 1

/-- What an operation does to a line of squares and to the position that is scanned. -/
def Operation.act (op : Operation) (cells : Int → Symbol) (z : Int) : (Int → Symbol) × Int :=
  match op with
  | print s => (Function.update cells z s, z)
  | erase => (Function.update cells z Symbol.blank, z)
  | move d => (cells, z + d.offset)

theorem Operation.act_of_written? {op : Operation} {s : Symbol} (hs : op.written? = some s)
    (cells : Int → Symbol) (z : Int) : op.act cells z = (Function.update cells z s, z) := by
  cases op with
  | print s' => rw [act, Option.some.inj hs]
  | erase => rw [act, ← Option.some.inj hs]
  | move d => exact absurd hs (by simp [written?])

namespace Tape

/-- The position of a square: how far to the right of the origin it stands. -/
def coordinate (t : Tape) (i : Nat) : Except StaleCell Int := do
  return (← t.position i : Int) - (← t.position origin : Int)

def coordinateIn (l : List Nat) (i : Nat) : Int := l.idxOf i - l.idxOf origin

theorem Chain.coordinate_eq {t : Tape} {l : List Nat} {i : Nat} (h : t.Chain l)
    (h0 : origin < t.size) (hi : i < t.size) : t.coordinate i = .ok (coordinateIn l i) := by
  rw [coordinate, h.position_eq hi, h.position_eq h0]
  rfl

@[simp] theorem coordinateIn_origin (l : List Nat) : coordinateIn l origin = 0 := by
  simp [coordinateIn]

theorem coordinateIn_inj {l : List Nat} {i j : Nat} (hi : i ∈ l)
    (h : coordinateIn l i = coordinateIn l j) : i = j := by
  have h' : l.idxOf i = l.idxOf j := by
    simp only [coordinateIn] at h
    omega
  exact (List.idxOf_inj hi).mp h'

theorem idxOf_of_split {l a b : List Nat} {i : Nat} (hl : l.Nodup) (hs : l = a ++ i :: b) :
    l.idxOf i = a.length := by
  subst hs
  have hi : i ∉ a := fun hia => (List.nodup_append.mp hl).2.2 i hia i List.mem_cons_self rfl
  rw [List.idxOf_append_of_notMem hi, List.idxOf_cons_self, Nat.add_zero]

/-- The next square in a direction is one position further that way. -/
theorem coordinateIn_next {l a b : List Nat} {i j : Nat} {d : Direction} (hl : l.Nodup)
    (hs : d.along l = a ++ i :: j :: b) : coordinateIn l j = coordinateIn l i + d.offset := by
  cases d with
  | right =>
    have hs' : l = a ++ i :: j :: b := hs
    have hi := idxOf_of_split hl hs'
    have hj := idxOf_of_split hl (show l = (a ++ [i]) ++ j :: b by simpa using hs')
    rw [coordinateIn, coordinateIn, hi, hj, List.length_append, List.length_singleton,
      Direction.offset]
    omega
  | left =>
    have hs' : l = b.reverse ++ j :: i :: a.reverse := by
      have := congrArg List.reverse (show l.reverse = a ++ i :: j :: b from hs)
      simpa using this
    have hj := idxOf_of_split hl hs'
    have hi := idxOf_of_split hl (show l = (b.reverse ++ [j]) ++ i :: a.reverse by simpa using hs')
    rw [coordinateIn, coordinateIn, hi, hj, List.length_append, List.length_singleton,
      Direction.offset]
    omega

/-- Positions stay when the tape grows. -/
theorem coordinateIn_extend {l : List Nat} {i x : Nat} (d : Direction) (h0 : origin ∈ l)
    (hi : i ∈ l) (hx : x ∉ l) : coordinateIn (d.extend l x) i = coordinateIn l i := by
  cases d with
  | right =>
    rw [coordinateIn, Direction.extend, List.idxOf_append_of_mem hi, List.idxOf_append_of_mem h0,
      coordinateIn]
  | left =>
    -- All squares come one place later in the list, the origin too.
    have hne : ∀ k ∈ l, x ≠ k := by
      intro k hk he
      exact hx (he ▸ hk)
    rw [coordinateIn, Direction.extend, List.idxOf_cons_ne _ (hne i hi),
      List.idxOf_cons_ne _ (hne origin h0), coordinateIn]
    omega

/-- The tape with chain `l`, scanned at square `i`, is the part that has been visited of the line
`cells`, scanned at position `z`. -/
structure Shows (t : Tape) (l : List Nat) (i : Nat) (cells : Int → Symbol) (z : Int) : Prop where
  chain : t.Chain l
  origin_mem : origin ∈ l
  head_mem : i ∈ l
  head_eq : coordinateIn l i = z
  visited : ∀ k ∈ l, (t.cellAt k).symbol = cells (coordinateIn l k)
  unvisited : ∀ y, (∀ k ∈ l, coordinateIn l k ≠ y) → cells y = Symbol.blank

theorem shows_new : Tape.new.Shows [origin] origin (fun _ => Symbol.blank) 0 where
  chain := chain_new
  origin_mem := List.mem_singleton_self _
  head_mem := List.mem_singleton_self _
  head_eq := coordinateIn_origin _
  visited k _ := by rw [cellAt_new]
  unvisited _ _ := rfl

variable {t : Tape} {l : List Nat} {i : Nat} {cells : Int → Symbol} {z : Int}

theorem Shows.head_lt (h : t.Shows l i cells z) : i < t.size := (h.chain.mem_iff i).mp h.head_mem

theorem Shows.write (h : t.Shows l i cells z) {t' : Tape} {s : Symbol} (hc : t'.Chain l)
    (hs : (t'.cellAt i).symbol = s)
    (hkept : ∀ k, k < t.size → k ≠ i → (t'.cellAt k).symbol = (t.cellAt k).symbol) :
    t'.Shows l i (Function.update cells z s) z where
  chain := hc
  origin_mem := h.origin_mem
  head_mem := h.head_mem
  head_eq := h.head_eq
  visited k hk := by
    by_cases hki : k = i
    · rw [hki, hs, h.head_eq, Function.update_self]
    · have hne : coordinateIn l k ≠ z := by
        intro he
        exact hki (coordinateIn_inj hk (he.trans h.head_eq.symm))
      rw [hkept k ((h.chain.mem_iff k).mp hk) hki, Function.update_of_ne hne, h.visited k hk]
  unvisited y hy := by
    have hne : y ≠ z := fun he => hy i h.head_mem (h.head_eq.trans he.symm)
    rw [Function.update_of_ne hne]
    exact h.unvisited y hy

/-- A new square at an end of the tape shows a position of the line that was not visited. -/
theorem Shows.grow (h : t.Shows l i cells z) {t' : Tape} {d : Direction}
    (hc : t'.Chain (d.extend l t.size)) (hblank : (t'.cellAt t.size).symbol = Symbol.blank)
    (hkept : ∀ k, k < t.size → (t'.cellAt k).symbol = (t.cellAt k).symbol) :
    t'.Shows (d.extend l t.size) i cells z := by
  have hx : t.size ∉ l := h.chain.size_notMem
  have hcoord : ∀ k ∈ l, coordinateIn (d.extend l t.size) k = coordinateIn l k :=
    fun k hk => coordinateIn_extend d h.origin_mem hk hx
  exact {
    chain := hc
    origin_mem := Direction.mem_extend.mpr (Or.inl h.origin_mem)
    head_mem := Direction.mem_extend.mpr (Or.inl h.head_mem)
    head_eq := (hcoord i h.head_mem).trans h.head_eq
    visited := fun k hk => by
      rcases Direction.mem_extend.mp hk with hkl | rfl
      · rw [hkept k ((h.chain.mem_iff k).mp hkl), hcoord k hkl, h.visited k hkl]
      · -- The new square has a position of its own, so nothing has been written there.
        rw [hblank, h.unvisited]
        intro k hk' he
        rw [← hcoord k hk'] at he
        exact hx (coordinateIn_inj (Direction.mem_extend.mpr (Or.inl hk')) he ▸ hk')
    unvisited := fun y hy => h.unvisited y fun k hk => by
      rw [← hcoord k hk]
      exact hy k (Direction.mem_extend.mpr (Or.inl hk)) }

theorem Shows.move (h : t.Shows l i cells z) {d : Direction} {j : Nat}
    (hj : (t.cellAt i).neighbour d = some j) : t.Shows l j cells (z + d.offset) := by
  obtain ⟨a, b, hs⟩ := (h.chain.neighbour_eq_some_iff h.head_lt).mp hj
  exact { h with
    head_mem := (h.chain.mem_iff j).mpr (h.chain.neighbour_lt h.head_lt hj)
    head_eq := by rw [coordinateIn_next h.chain.nodup hs, h.head_eq] }

/-- An operation does to the tape what it does to the line. -/
theorem Shows.execute (h : t.Shows l i cells z) (op : Operation) :
    ∃ t' j l', op.execute t i = .ok (t', j) ∧
      t'.Shows l' j (op.act cells z).1 (op.act cells z).2 := by
  obtain ⟨t', j, l', hop, he⟩ := h.chain.execute h.head_lt op
  refine ⟨t', j, l', hop, ?_⟩
  rcases op.writes_or_moves with ⟨s, hs⟩ | ⟨d, rfl⟩
  · obtain ⟨rfl, hsym⟩ := he.written s hs
    -- Only a move makes the chain longer.
    have hl : l' = l := by
      rcases he.kept_or_grown with ⟨hl, -⟩ | ⟨d, rfl, -⟩
      · exact hl
      · exact absurd hs (by simp [Operation.written?])
    subst hl
    rw [Operation.act_of_written? hs]
    exact h.write he.chain hsym fun k hk hki => he.kept k hk (Or.inl hki)
  · have hkept : ∀ k, k < t.size → (t'.cellAt k).symbol = (t.cellAt k).symbol := by
      intro k hk
      exact he.kept k hk (Or.inr rfl)
    rcases he.kept_or_grown with ⟨rfl, -⟩ | ⟨e, hde, rfl, -, -, hblank⟩
    · have h' : t'.Shows l' i cells z := { h with
        chain := he.chain
        visited := fun k hk => by
          rw [hkept k ((h.chain.mem_iff k).mp hk), h.visited k hk] }
      exact h'.move (he.moved d rfl)
    · exact (h.grow he.chain hblank hkept).move (he.moved d rfl)

end Tape

end AutomaticMachine
