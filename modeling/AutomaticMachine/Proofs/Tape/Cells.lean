/-
What the checked operations of a tape do, square by square.

`Tape.cellAt` looks a square up without a check.  For a number that the arena
reaches every checked operation succeeds, and its result is described by what
`cellAt` gives afterwards:

* `Tape.read_eq`, `Tape.neighbour_eq` — what is looked up;
* `Tape.print_eq`                     — printing changes one symbol (`cellAt_adjust`);
* `Tape.move_of_some`, `Tape.move_of_none` — a move goes to the neighbour there is, or
  grows the tape by a blank square with two links (`cellAt_grow`).

For any other number every operation fails with the same `StaleCell`.
-/
import AutomaticMachine.Operation

namespace AutomaticMachine

namespace Direction

@[simp] theorem opposite_opposite (d : Direction) : d.opposite.opposite = d := by
  cases d <;> rfl

theorem eq_or_eq_opposite (d e : Direction) : e = d ∨ e = d.opposite := by
  cases d <;> cases e <;> simp [opposite]

end Direction

namespace Cell

@[simp] theorem neighbour_link_self (c : Cell) (d : Direction) (i : Nat) :
    (c.link d i).neighbour d = some i := by
  cases d <;> rfl

@[simp] theorem neighbour_link_opposite (c : Cell) (d : Direction) (i : Nat) :
    (c.link d i).neighbour d.opposite = c.neighbour d.opposite := by
  cases d <;> rfl

@[simp] theorem symbol_link (c : Cell) (d : Direction) (i : Nat) :
    (c.link d i).symbol = c.symbol := by
  cases d <;> rfl

@[simp] theorem neighbour_default (d : Direction) : ({} : Cell).neighbour d = none := by
  cases d <;> rfl

end Cell

namespace Tape

variable {t : Tape} {i : Nat}

/-- The square with number `i`; a blank one without neighbours where the arena does not reach. -/
def cellAt (t : Tape) (i : Nat) : Cell := t.arena[i]?.getD {}

def adjust (t : Tape) (i : Nat) (f : Cell → Cell) : Tape := ⟨t.arena.modify i f⟩

/-- The tape with a new square beside square `i`, both linked. -/
def grow (t : Tape) (d : Direction) (i : Nat) : Tape :=
  Tape.adjust ⟨t.arena.push (Cell.link {} d.opposite i)⟩ i (Cell.link · d t.size)

@[simp] theorem size_new : Tape.new.size = 1 := rfl

@[simp] theorem cellAt_new (i : Nat) : Tape.new.cellAt i = {} := by
  rcases i with _ | i <;> rfl

/-! ### Looking up -/

theorem cell_eq (h : i < t.size) : t.cell i = .ok (t.cellAt i) := by
  have h' : i < t.arena.size := h
  simp [cell, cellAt, h']

theorem cell_of_le (h : t.size ≤ i) : t.cell i = .error ⟨t.size, i⟩ := by
  have h' : ¬ i < t.arena.size := Nat.not_lt.2 h
  simp [cell, size, h']

theorem read_eq (h : i < t.size) : t.read i = .ok (t.cellAt i).symbol := by
  rw [read, cell_eq h]; rfl

theorem read_of_le (h : t.size ≤ i) : t.read i = .error ⟨t.size, i⟩ := by
  rw [read, cell_of_le h]; rfl

theorem neighbour_eq (d : Direction) (h : i < t.size) :
    t.neighbour d i = .ok ((t.cellAt i).neighbour d) := by
  rw [neighbour, cell_eq h]; rfl

theorem neighbour_of_le (d : Direction) (h : t.size ≤ i) :
    t.neighbour d i = .error ⟨t.size, i⟩ := by
  rw [neighbour, cell_of_le h]; rfl

/-- Only a square of the tape is found to have neighbours. -/
theorem lt_of_neighbour {d : Direction} {x : Option Nat} (h : t.neighbour d i = .ok x) :
    i < t.size ∧ (t.cellAt i).neighbour d = x := by
  rcases Nat.lt_or_ge i t.size with hi | hi
  · rw [neighbour_eq d hi] at h
    exact ⟨hi, Except.ok.inj h⟩
  · rw [neighbour_of_le d hi] at h
    exact nomatch h

/-! ### Changing one square -/

@[simp] theorem size_adjust (t : Tape) (i : Nat) (f : Cell → Cell) :
    (t.adjust i f).size = t.size := by
  simp [adjust, size]

theorem cellAt_adjust (t : Tape) (f : Cell → Cell) (h : i < t.size) (k : Nat) :
    (t.adjust i f).cellAt k = if k = i then f (t.cellAt k) else t.cellAt k := by
  have h' : i < t.arena.size := h
  unfold adjust cellAt
  rw [Array.getElem?_modify]
  by_cases hk : k = i
  · subst hk
    rw [if_pos rfl, if_pos rfl, Array.getElem?_eq_getElem h']
    rfl
  · rw [if_neg (Ne.symm hk), if_neg hk]

theorem modify_eq (f : Cell → Cell) (h : i < t.size) : t.modify i f = .ok (t.adjust i f) := by
  rw [modify, if_pos (show i < t.arena.size from h)]; rfl

theorem modify_of_le (f : Cell → Cell) (h : t.size ≤ i) :
    t.modify i f = .error ⟨t.size, i⟩ := by
  rw [modify, if_neg (show ¬ i < t.arena.size from Nat.not_lt.2 h)]; rfl

def printed (t : Tape) (i : Nat) (s : Symbol) : Tape :=
  t.adjust i fun c => { c with symbol := s }

@[simp] theorem size_printed (t : Tape) (i : Nat) (s : Symbol) :
    (t.printed i s).size = t.size :=
  size_adjust ..

theorem print_eq (s : Symbol) (h : i < t.size) : t.print i s = .ok (t.printed i s) :=
  modify_eq _ h

theorem symbol_printed (s : Symbol) (h : i < t.size) (k : Nat) :
    ((t.printed i s).cellAt k).symbol = if k = i then s else (t.cellAt k).symbol := by
  rw [printed, cellAt_adjust t _ h]
  split <;> rfl

theorem neighbour_printed (s : Symbol) (h : i < t.size) (d : Direction) (k : Nat) :
    ((t.printed i s).cellAt k).neighbour d = (t.cellAt k).neighbour d := by
  rw [printed, cellAt_adjust t _ h]
  split <;> cases d <;> rfl

/-! ### Moving -/

theorem lt_size_push (c : Cell) (h : i < t.size) : i < (⟨t.arena.push c⟩ : Tape).size := by
  simpa [size] using Nat.lt_succ_of_lt h

@[simp] theorem size_grow (t : Tape) (d : Direction) (i : Nat) :
    (t.grow d i).size = t.size + 1 := by
  rw [grow, size_adjust]
  exact Array.size_push _

theorem cellAt_grow (d : Direction) (h : i < t.size) (k : Nat) :
    (t.grow d i).cellAt k =
      if k = i then (t.cellAt i).link d t.size
      else if k = t.size then Cell.link {} d.opposite i
      else t.cellAt k := by
  have hlt := lt_size_push (Cell.link {} d.opposite i) h
  -- The new square comes first and the link to it second, so two look-ups are to be passed.
  have hpush : ∀ k, (⟨t.arena.push (Cell.link {} d.opposite i)⟩ : Tape).cellAt k =
      if k = t.size then Cell.link {} d.opposite i else t.cellAt k := by
    intro k
    rw [cellAt, Array.getElem?_push]
    by_cases hk : k = t.size
    · rw [if_pos hk, if_pos (show k = t.arena.size from hk)]; rfl
    · rw [if_neg hk, if_neg (show k ≠ t.arena.size from hk)]; rfl
  rw [grow, cellAt_adjust _ _ hlt, hpush]
  by_cases hk : k = i
  · subst hk
    rw [if_pos rfl, if_pos rfl, if_neg (Nat.ne_of_lt h)]
  · rw [if_neg hk, if_neg hk]

theorem symbol_grow (d : Direction) (h : i < t.size) (k : Nat) :
    ((t.grow d i).cellAt k).symbol =
      if k = t.size then Symbol.blank else (t.cellAt k).symbol := by
  rw [cellAt_grow d h]
  by_cases hk : k = i
  · subst hk
    rw [if_pos rfl, if_neg (Nat.ne_of_lt h), Cell.symbol_link]
  · rw [if_neg hk]
    split
    · rw [Cell.symbol_link]
    · rfl

theorem move_of_some {d : Direction} {j : Nat} (h : i < t.size)
    (hj : (t.cellAt i).neighbour d = some j) : t.move d i = .ok (t, j) := by
  rw [move, neighbour_eq d h, hj]; rfl

theorem move_of_none {d : Direction} (h : i < t.size)
    (hn : (t.cellAt i).neighbour d = none) : t.move d i = .ok (t.grow d i, t.size) := by
  have hlt := lt_size_push (Cell.link {} d.opposite i) h
  rw [move, neighbour_eq d h, hn]
  show (do
    let t' ← (⟨t.arena.push (Cell.link {} d.opposite i)⟩ : Tape).modify i (Cell.link · d t.size)
    return (t', t.size)) = Except.ok (t.grow d i, t.size)
  rw [modify_eq _ hlt]
  rfl

theorem move_of_le (d : Direction) (h : t.size ≤ i) : t.move d i = .error ⟨t.size, i⟩ := by
  rw [move, neighbour_of_le d h]; rfl

/-! ### Walking -/

theorem walk_succ_of_some {d : Direction} {j : Nat} (n : Nat) (h : i < t.size)
    (hj : (t.cellAt i).neighbour d = some j) : t.walk d (n + 1) i = t.walk d n j := by
  rw [walk, neighbour_eq d h, hj]; rfl

theorem walk_succ_of_none {d : Direction} (n : Nat) (h : i < t.size)
    (hn : (t.cellAt i).neighbour d = none) : t.walk d (n + 1) i = .ok i := by
  rw [walk, neighbour_eq d h, hn]; rfl

theorem squaresFrom_succ_of_some {j : Nat} (n : Nat) (h : i < t.size)
    (hj : (t.cellAt i).neighbour .right = some j) :
    t.squaresFrom (n + 1) i = ((i, (t.cellAt i).symbol) :: ·) <$> t.squaresFrom n j := by
  have hj' : (t.cellAt i).right = some j := hj
  simp only [squaresFrom, cell_eq h, bind, Except.bind, hj']
  rfl

theorem squaresFrom_succ_of_none (n : Nat) (h : i < t.size)
    (hn : (t.cellAt i).neighbour .right = none) :
    t.squaresFrom (n + 1) i = .ok [(i, (t.cellAt i).symbol)] := by
  have hn' : (t.cellAt i).right = none := hn
  simp only [squaresFrom, cell_eq h, bind, Except.bind, hn']
  rfl

end Tape

namespace Operation

variable {t : Tape} {i : Nat}

/-- The symbol that an operation leaves on the square where it is carried out, if it writes. -/
def written? : Operation → Option Symbol
  | print s => some s
  | erase => some Symbol.blank
  | move _ => none

theorem writes_or_moves (op : Operation) : (∃ s, op.written? = some s) ∨ ∃ d, op = .move d := by
  cases op with
  | print s => exact Or.inl ⟨s, rfl⟩
  | erase => exact Or.inl ⟨Symbol.blank, rfl⟩
  | move d => exact Or.inr ⟨d, rfl⟩

theorem execute_of_written? {op : Operation} {s : Symbol} (hs : op.written? = some s)
    (h : i < t.size) : op.execute t i = .ok (t.printed i s, i) := by
  cases op with
  | print s' =>
    obtain rfl : s' = s := Option.some.inj hs
    rw [execute, Tape.print_eq s' h]; rfl
  | erase =>
    obtain rfl : Symbol.blank = s := Option.some.inj hs
    rw [execute, Tape.print_eq Symbol.blank h]; rfl
  | move d => exact absurd hs (by simp [written?])

theorem execute_move (t : Tape) (i : Nat) (d : Direction) :
    (move d).execute t i = t.move d i := rfl

/-- Every operation fails on a number that the arena does not reach. -/
theorem execute_of_le (op : Operation) (h : t.size ≤ i) :
    op.execute t i = .error ⟨t.size, i⟩ := by
  cases op with
  | print s => rw [execute, Tape.print, Tape.modify_of_le _ h]; rfl
  | erase => rw [execute, Tape.print, Tape.modify_of_le _ h]; rfl
  | move d => exact Tape.move_of_le d h

theorem lt_of_execute {op : Operation} {p : Tape × Nat} (h : op.execute t i = .ok p) :
    i < t.size := by
  refine Nat.lt_of_not_le ?_
  intro hle
  rw [execute_of_le op hle] at h
  exact nomatch h

/-- Carry out operations one after the other: the tape and the square scanned at the end. -/
def executeAll : List Operation → Tape → Nat → Except StaleCell (Tape × Nat)
  | [], t, i => return (t, i)
  | op :: rest, t, i => do
    let (t', j) ← op.execute t i
    executeAll rest t' j

theorem executeAll_append {front rest : List Operation} {t t' : Tape} {i j : Nat}
    (h : executeAll front t i = .ok (t', j)) :
    executeAll (front ++ rest) t i = executeAll rest t' j := by
  induction front generalizing t i with
  | nil =>
    obtain ⟨rfl, rfl⟩ := Prod.mk.inj (Except.ok.inj h)
    rfl
  | cons op front ih =>
    rw [executeAll] at h
    rw [List.cons_append, executeAll]
    cases hop : op.execute t i with
    | error e =>
      rw [hop] at h
      exact nomatch h
    | ok p =>
      rw [hop] at h
      exact ih h

end Operation

end AutomaticMachine
