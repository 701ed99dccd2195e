/-
The squares of a tape form one chain.

`Tape.Chain t l` says that `l` lists the numbers of all squares of `t` from
left to right, each once, and that the links of every square lead to its
neighbours in that list.  The two directions are treated alike: read in a
direction (`Direction.along`), the list gives the links of that direction.

* `Chain.printed`, `Chain.grow` — what the operations do to the chain: nothing, or one more
  number at an end (`Direction.extend`);
* `Chain.walk_eq`               — a walk ends at the end of the chain, and never for want of
  fuel;
* `Chain.squares_eq`            — the squares come out in the order of the chain, wherever the
  walk is started;
* `Chain.neighbour_symm`        — links lead back.
-/
import AutomaticMachine.Proofs.Tape.Cells
import Mathlib.Data.List.Nodup

namespace AutomaticMachine

namespace Direction

variable {α : Type}

/-- A list that runs from left to right, read in a direction. -/
def along (d : Direction) (l : List α) : List α :=
  match d with
  | left => l.reverse
  | right => l

/-- A list that runs from left to right with one more entry at an end. -/
def extend (d : Direction) (l : List α) (x : α) : List α :=
  match d with
  | left => x :: l
  | right => l ++ [x]

@[simp] theorem mem_along {d : Direction} {l : List α} {x : α} : x ∈ d.along l ↔ x ∈ l := by
  cases d <;> simp [along]

@[simp] theorem nodup_along {d : Direction} {l : List α} : (d.along l).Nodup ↔ l.Nodup := by
  cases d <;> simp [along]

@[simp] theorem length_along (d : Direction) (l : List α) : (d.along l).length = l.length := by
  cases d <;> simp [along]

theorem map_along {β : Type} (d : Direction) (f : α → β) (l : List α) :
    (d.along l).map f = d.along (l.map f) := by
  cases d <;> simp [along]

theorem mem_of_along_eq {d : Direction} {l a b : List α} {x : α}
    (h : d.along l = a ++ x :: b) : x ∈ l := by
  rw [← mem_along (d := d), h]
  simp

theorem along_opposite (d : Direction) (l : List α) :
    d.opposite.along l = (d.along l).reverse := by
  cases d <;> simp [along, opposite]

@[simp] theorem mem_extend {d : Direction} {l : List α} {x y : α} :
    y ∈ d.extend l x ↔ y ∈ l ∨ y = x := by
  cases d <;> simp [extend, or_comm]

theorem along_extend (d : Direction) (l : List α) (x : α) :
    d.along (d.extend l x) = d.along l ++ [x] := by
  cases d <;> simp [along, extend]

theorem nodup_extend {d : Direction} {l : List α} {x : α} (hl : l.Nodup) (hx : x ∉ l) :
    (d.extend l x).Nodup := by
  rw [← nodup_along (d := d), along_extend]
  exact List.Nodup.append (nodup_along.mpr hl) (List.nodup_singleton x)
    (by simpa [List.disjoint_singleton] using hx)

end Direction

namespace Tape

/-- The squares of the tape are, from left to right, those numbered in the list. -/
structure Chain (t : Tape) (l : List Nat) : Prop where
  nodup : l.Nodup
  mem_iff : ∀ i, i ∈ l ↔ i < t.size
  /-- A link leads to the next square of the list, and at its end there is none. -/
  next : ∀ d i a b, d.along l = a ++ i :: b → (t.cellAt i).neighbour d = b.head?

theorem chain_new : Tape.new.Chain [origin] where
  nodup := List.nodup_singleton _
  mem_iff i := by rw [List.mem_singleton, size_new, origin]; omega
  next d i a b h := by
    have h1 : [origin] = a ++ i :: b := by cases d <;> exact h
    have h2 : a.length + (b.length + 1) = 1 := by simpa using (congrArg List.length h1).symm
    obtain rfl : b = [] := List.length_eq_zero_iff.mp (by omega)
    rw [cellAt_new, Cell.neighbour_default]
    rfl

/-- What an operation at square `i` of a tape with chain `l` does: the tape `t'` with chain `l'`
and the square `j` that is scanned next. -/
structure Effect (op : Operation) (t : Tape) (l : List Nat) (i : Nat) (t' : Tape) (l' : List Nat)
    (j : Nat) : Prop where
  chain : t'.Chain l'
  head_lt : j < t'.size
  /-- The chain stays, or a move makes it longer by a blank square at the end it goes to. -/
  kept_or_grown : (l' = l ∧ t'.size = t.size) ∨
    ∃ d, op = .move d ∧ l' = d.extend l t.size ∧ t'.size = t.size + 1 ∧ j = t.size ∧
      (t'.cellAt t.size).symbol = Symbol.blank
  written : ∀ s, op.written? = some s → j = i ∧ (t'.cellAt i).symbol = s
  moved : ∀ d, op = .move d → (t'.cellAt i).neighbour d = some j
  /-- No symbol changes but the one that is written over. -/
  kept : ∀ k, k < t.size → k ≠ i ∨ op.written? = none →
    (t'.cellAt k).symbol = (t.cellAt k).symbol

/-- No square is lost. -/
theorem Effect.size_le {op : Operation} {t t' : Tape} {l l' : List Nat} {i j : Nat}
    (h : Effect op t l i t' l' j) : t.size ≤ t'.size := by
  rcases h.kept_or_grown with ⟨-, hsize⟩ | ⟨d, -, -, hsize, -⟩ <;> omega

namespace Chain

variable {t : Tape} {l : List Nat} {i j : Nat} {d : Direction}

theorem length_eq (h : t.Chain l) : l.length = t.size := by
  -- Two lists without repetitions and with the same members have the same length.
  have hp : l.Perm (List.range t.size) :=
    (List.perm_ext_iff_of_nodup h.nodup List.nodup_range).mpr fun i => by
      rw [h.mem_iff, List.mem_range]
  rw [hp.length_eq, List.length_range]

theorem exists_split (h : t.Chain l) (d : Direction) (hi : i < t.size) :
    ∃ a b, d.along l = a ++ i :: b :=
  List.append_of_mem (Direction.mem_along.mpr ((h.mem_iff i).mpr hi))

theorem lt_of_split (h : t.Chain l) {a b : List Nat} (hs : d.along l = a ++ i :: b) :
    i < t.size :=
  (h.mem_iff i).mp (Direction.mem_of_along_eq hs)

theorem neighbour_eq_some_iff (h : t.Chain l) (hi : i < t.size) :
    (t.cellAt i).neighbour d = some j ↔ ∃ a b, d.along l = a ++ i :: j :: b := by
  constructor
  · intro hj
    obtain ⟨a, b, hs⟩ := h.exists_split d hi
    rw [h.next d i a b hs] at hj
    obtain ⟨b', rfl⟩ := List.head?_eq_some_iff.mp hj
    exact ⟨a, b', hs⟩
  · rintro ⟨a, b, hs⟩
    exact h.next d i a (j :: b) hs

theorem neighbour_eq_none_iff (h : t.Chain l) (hi : i < t.size) :
    (t.cellAt i).neighbour d = none ↔ ∃ a, d.along l = a ++ [i] := by
  constructor
  · intro hn
    obtain ⟨a, b, hs⟩ := h.exists_split d hi
    rw [h.next d i a b hs, List.head?_eq_none_iff] at hn
    exact ⟨a, by rw [hs, hn]⟩
  · rintro ⟨a, hs⟩
    exact h.next d i a [] hs

theorem neighbour_lt (h : t.Chain l) (hi : i < t.size)
    (hj : (t.cellAt i).neighbour d = some j) : j < t.size := by
  obtain ⟨a, b, hs⟩ := (h.neighbour_eq_some_iff hi).mp hj
  have hs' : d.along l = (a ++ [i]) ++ j :: b := by rw [hs]; simp
  exact h.lt_of_split hs'

theorem neighbour_symm (h : t.Chain l) (hi : i < t.size)
    (hj : (t.cellAt i).neighbour d = some j) : (t.cellAt j).neighbour d.opposite = some i := by
  obtain ⟨a, b, hs⟩ := (h.neighbour_eq_some_iff hi).mp hj
  refine (h.neighbour_eq_some_iff (h.neighbour_lt hi hj)).mpr ⟨b.reverse, a.reverse, ?_⟩
  rw [Direction.along_opposite, hs]
  simp

/-- The neighbours on the right are the pairs that stand side by side in the chain. -/
theorem neighbour_right_iff (h : t.Chain l) (i j : Nat) :
    t.neighbour .right i = .ok (some j) ↔ [i, j] <:+: l := by
  constructor
  · intro hj
    obtain ⟨hi, hj⟩ := lt_of_neighbour hj
    obtain ⟨a, b, hs⟩ := (h.neighbour_eq_some_iff hi).mp hj
    exact ⟨a, b, by simpa [Direction.along] using hs.symm⟩
  · rintro ⟨a, b, hs⟩
    have hs' : Direction.right.along l = a ++ i :: j :: b := by
      simpa [Direction.along] using hs.symm
    have hi : i < t.size := h.lt_of_split hs'
    rw [Tape.neighbour_eq _ hi, (h.neighbour_eq_some_iff hi).mpr ⟨a, b, hs'⟩]

theorem neighbour_left_iff (h : t.Chain l) (i j : Nat) :
    t.neighbour .left i = .ok (some j) ↔ t.neighbour .right j = .ok (some i) := by
  have key : ∀ d i j, t.neighbour d i = .ok (some j) →
      t.neighbour d.opposite j = .ok (some i) := by
    intro d i j hj
    obtain ⟨hi, hj⟩ := lt_of_neighbour hj
    rw [Tape.neighbour_eq _ (h.neighbour_lt hi hj), h.neighbour_symm hi hj]
  exact ⟨key .left i j, key .right j i⟩

/-! ### Operations -/

theorem printed (h : t.Chain l) (hi : i < t.size) (s : Symbol) : (t.printed i s).Chain l where
  nodup := h.nodup
  mem_iff := by simpa using h.mem_iff
  next d k a b hs := by rw [neighbour_printed s hi, h.next d k a b hs]

theorem size_notMem (h : t.Chain l) : t.size ∉ l :=
  fun hmem => Nat.lt_irrefl _ ((h.mem_iff _).mp hmem)

/-- In the direction of growth the new number comes last: the square that was last leads to it, and
it leads nowhere. -/
theorem next_grow_ahead (h : t.Chain l) (hi : i < t.size)
    (hn : (t.cellAt i).neighbour d = none) {k : Nat} {a b : List Nat}
    (hs : d.along l ++ [t.size] = a ++ k :: b) :
    ((t.grow d i).cellAt k).neighbour d = b.head? := by
  rw [cellAt_grow d hi]
  rcases List.eq_nil_or_concat b with rfl | ⟨b', x, rfl⟩
  · obtain ⟨-, hk⟩ := List.append_inj' hs rfl
    obtain rfl : t.size = k := by simpa using hk
    rw [if_neg (by omega), if_pos rfl]
    simpa using Cell.neighbour_link_opposite {} d.opposite i
  · have hs' : d.along l ++ [t.size] = (a ++ k :: b') ++ [x] := by rw [hs]; simp
    obtain ⟨hl, hx⟩ := List.append_inj' hs' rfl
    obtain rfl : t.size = x := by simpa using hx
    have hnext := h.next d k a b' hl
    by_cases hk : k = i
    · subst hk
      rw [hn] at hnext
      obtain rfl : b' = [] := List.head?_eq_none_iff.mp hnext.symm
      rw [if_pos rfl, Cell.neighbour_link_self]
      rfl
    · have hfresh : k ≠ t.size :=
        ne_of_mem_of_not_mem (Direction.mem_of_along_eq hl) h.size_notMem
      rw [if_neg hk, if_neg hfresh, hnext]
      -- A square other than `i` has a next one already, since only the last has none.
      rcases b' with _ | ⟨y, r⟩
      · obtain ⟨c, hc⟩ := (h.neighbour_eq_none_iff hi).mp hn
        rw [hc] at hl
        obtain ⟨-, hik⟩ := List.append_inj' hl rfl
        exact absurd (by simpa using hik.symm) hk
      · rfl

/-- Against the direction of growth the new number comes first and leads to square `i`; the other
links stay. -/
theorem next_grow_behind (h : t.Chain l) (hi : i < t.size)
    (hn : (t.cellAt i).neighbour d = none) {k : Nat} {a b : List Nat}
    (hs : t.size :: d.opposite.along l = a ++ k :: b) :
    ((t.grow d i).cellAt k).neighbour d.opposite = b.head? := by
  rw [cellAt_grow d hi]
  rcases a with _ | ⟨y, a⟩
  · obtain ⟨rfl, rfl⟩ := List.cons.inj hs
    obtain ⟨c, hc⟩ := (h.neighbour_eq_none_iff hi).mp hn
    rw [if_neg (by omega), if_pos rfl, Cell.neighbour_link_self, Direction.along_opposite, hc]
    simp
  · obtain ⟨rfl, hl⟩ := List.cons.inj hs
    by_cases hk : k = i
    · subst hk
      rw [if_pos rfl, Cell.neighbour_link_opposite, h.next _ _ _ _ hl]
    · have hfresh : k ≠ t.size :=
        ne_of_mem_of_not_mem (Direction.mem_of_along_eq hl) h.size_notMem
      rw [if_neg hk, if_neg hfresh, h.next _ _ _ _ hl]

/-- A new square makes the chain longer at the end where it is made. -/
theorem grow (h : t.Chain l) (hi : i < t.size) (hn : (t.cellAt i).neighbour d = none) :
    (t.grow d i).Chain (d.extend l t.size) where
  nodup := Direction.nodup_extend h.nodup h.size_notMem
  mem_iff k := by rw [Direction.mem_extend, h.mem_iff, size_grow]; omega
  next e k a b hs := by
    rcases Direction.eq_or_eq_opposite d e with rfl | rfl
    · rw [Direction.along_extend] at hs
      exact h.next_grow_ahead hi hn hs
    · rw [Direction.along_opposite, Direction.along_extend, List.reverse_append,
        ← Direction.along_opposite, List.reverse_singleton, List.singleton_append] at hs
      exact h.next_grow_behind hi hn hs

theorem effect_printed (h : t.Chain l) (hi : i < t.size) {op : Operation} {s : Symbol}
    (hs : op.written? = some s) : Effect op t l i (t.printed i s) l i where
  chain := h.printed hi s
  head_lt := by simpa using hi
  kept_or_grown := Or.inl ⟨rfl, size_printed t i s⟩
  written s' hs' := by
    obtain rfl : s = s' := Option.some.inj (hs.symm.trans hs')
    exact ⟨rfl, by rw [symbol_printed s hi, if_pos rfl]⟩
  moved d hd := by
    subst hd
    exact absurd hs (by simp [Operation.written?])
  kept k _ hk := by
    rcases hk with hk | hk
    · rw [symbol_printed s hi, if_neg hk]
    · rw [hk] at hs
      exact absurd hs (by simp)

theorem effect_neighbour (h : t.Chain l) (hi : i < t.size)
    (hj : (t.cellAt i).neighbour d = some j) : Effect (.move d) t l i t l j where
  chain := h
  head_lt := h.neighbour_lt hi hj
  kept_or_grown := Or.inl ⟨rfl, rfl⟩
  written s hs := absurd hs (by simp [Operation.written?])
  moved e he := by
    obtain rfl : d = e := by simpa using he
    exact hj
  kept _ _ _ := rfl

theorem effect_grow (h : t.Chain l) (hi : i < t.size) (hn : (t.cellAt i).neighbour d = none) :
    Effect (.move d) t l i (t.grow d i) (d.extend l t.size) t.size where
  chain := h.grow hi hn
  head_lt := by simp
  kept_or_grown := by
    refine Or.inr ⟨d, rfl, rfl, size_grow t d i, rfl, ?_⟩
    rw [symbol_grow d hi, if_pos rfl]
  written s hs := absurd hs (by simp [Operation.written?])
  moved e he := by
    obtain rfl : d = e := by simpa using he
    rw [cellAt_grow d hi, if_pos rfl, Cell.neighbour_link_self]
  kept k hk _ := by rw [symbol_grow d hi, if_neg (Nat.ne_of_lt hk)]

/-- An operation at a square of a chain succeeds and has its effect. -/
theorem execute (h : t.Chain l) (hi : i < t.size) (op : Operation) :
    ∃ t' j l', op.execute t i = .ok (t', j) ∧ Effect op t l i t' l' j := by
  rcases op.writes_or_moves with ⟨s, hs⟩ | ⟨d, rfl⟩
  · exact ⟨_, _, l, Operation.execute_of_written? hs hi, h.effect_printed hi hs⟩
  · rw [Operation.execute_move]
    cases hd : (t.cellAt i).neighbour d with
    | some j => exact ⟨t, j, l, move_of_some hi hd, h.effect_neighbour hi hd⟩
    | none => exact ⟨_, _, _, move_of_none hi hd, h.effect_grow hi hd⟩

/-- What comes out of an operation that succeeds is its effect. -/
theorem effect_of_execute (h : t.Chain l) {op : Operation} {t' : Tape}
    (hop : op.execute t i = .ok (t', j)) : ∃ l', Effect op t l i t' l' j := by
  obtain ⟨t'', j', l', hop', he⟩ := h.execute (Operation.lt_of_execute hop) op
  obtain ⟨rfl, rfl⟩ := Prod.mk.inj (Except.ok.inj (hop'.symm.trans hop))
  exact ⟨l', he⟩

/-! ### Walks -/

/-- A walk with enough fuel ends at the end of the chain. -/
theorem walk_eq (h : t.Chain l) {n : Nat} {a b : List Nat} (hs : d.along l = a ++ i :: b)
    (hn : b.length < n) : t.walk d n i = .ok ((i :: b).getLast (List.cons_ne_nil i b)) := by
  -- By induction on what is left of the chain; every square on the way needs one unit of fuel.
  obtain ⟨n, rfl⟩ : ∃ m, n = m + 1 := ⟨n - 1, by omega⟩
  induction b generalizing a i n with
  | nil => exact walk_succ_of_none n (h.lt_of_split hs) (h.next d i a [] hs)
  | cons j b ih =>
    obtain ⟨n, rfl⟩ : ∃ m, n = m + 1 := ⟨n - 1, by simp at hn; omega⟩
    have hs' : d.along l = (a ++ [i]) ++ j :: b := by rw [hs]; simp
    rw [walk_succ_of_some _ (h.lt_of_split hs) (h.next d i a (j :: b) hs),
      ih hs' n (by simpa using hn)]
    rfl

/-- The squares to the right of a square come out in the order of the chain. -/
theorem squaresFrom_eq (h : t.Chain l) {n : Nat} {a b : List Nat} (hs : l = a ++ i :: b)
    (hn : b.length < n) :
    t.squaresFrom n i = .ok ((i :: b).map fun k => (k, (t.cellAt k).symbol)) := by
  obtain ⟨n, rfl⟩ : ∃ m, n = m + 1 := ⟨n - 1, by omega⟩
  induction b generalizing a i n with
  | nil =>
    exact squaresFrom_succ_of_none n (h.lt_of_split (d := .right) hs) (h.next .right i a [] hs)
  | cons j b ih =>
    obtain ⟨n, rfl⟩ : ∃ m, n = m + 1 := ⟨n - 1, by simp at hn; omega⟩
    have hs' : l = (a ++ [i]) ++ j :: b := by rw [hs]; simp
    rw [squaresFrom_succ_of_some _ (h.lt_of_split (d := .right) hs)
      (h.next .right i a (j :: b) hs), ih hs' n (by simpa using hn)]
    rfl

/-- Wherever it starts, a walk in a direction ends at the last square of the chain. -/
theorem walk_eq_last (h : t.Chain l) {n : Nat} (hi : i < t.size) (hn : t.size ≤ n) {e : Nat}
    (he : (d.along l).getLast? = some e) : t.walk d n i = .ok e := by
  obtain ⟨a, b, hs⟩ := h.exists_split d hi
  have hlen : a.length + (b.length + 1) = t.size := by
    rw [← h.length_eq, ← Direction.length_along d l, hs]
    simp
  rw [h.walk_eq hs (by omega)]
  rw [hs, List.getLast?_append_of_ne_nil _ (List.cons_ne_nil i b),
    List.getLast?_eq_some_getLast (List.cons_ne_nil i b)] at he
  rw [Option.some.inj he]

theorem leftmost_eq (h : t.Chain l) (hi : i < t.size) {e : Nat} (he : l.head? = some e) :
    t.leftmost i = .ok e :=
  h.walk_eq_last (d := .left) hi (Nat.le_refl _) (by simpa [Direction.along] using he)

theorem exists_head (h : t.Chain l) (hi : i < t.size) : ∃ e, l.head? = some e := by
  obtain ⟨e, r, rfl⟩ := List.exists_cons_of_ne_nil (List.ne_nil_of_mem ((h.mem_iff i).mpr hi))
  exact ⟨e, rfl⟩

/-- A walk keeps the numbers of the squares. -/
theorem map_fst_squares (t : Tape) (l : List Nat) :
    (l.map fun k => (k, (t.cellAt k).symbol)).map Prod.fst = l := by
  simp [List.map_map, Function.comp_def]

/-- Wherever it starts, a walk over the whole tape meets its squares in the order of the chain. -/
theorem squares_eq (h : t.Chain l) (hi : i < t.size) :
    t.squares i = .ok (l.map fun k => (k, (t.cellAt k).symbol)) := by
  obtain ⟨e, he⟩ := h.exists_head hi
  obtain ⟨r, rfl⟩ := List.head?_eq_some_iff.mp he
  have hlen : r.length < t.size := by
    rw [← h.length_eq]
    simp
  rw [squares, h.leftmost_eq hi he]
  exact h.squaresFrom_eq (a := []) rfl hlen

theorem position_eq (h : t.Chain l) (hi : i < t.size) : t.position i = .ok (l.idxOf i) := by
  rw [position, h.squares_eq hi]
  show Except.ok ((List.map Prod.fst _).idxOf i) = _
  rw [map_fst_squares]

end Chain

end Tape

end AutomaticMachine
