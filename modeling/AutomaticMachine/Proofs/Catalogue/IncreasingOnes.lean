/-
The sequence 0, 01, 011, …

The table `increasingOnes` prints its digits on every other square and keeps
the squares between them, the gaps, for its work.  To print the next group of
ones it goes back over the last one and marks the gap behind every one
(`leads_marking`).  Then it prints a one more than there are marks: for each
mark that it finds and erases (`leads_round`) it runs over all digits to the
end of the tape (`leads_run`).  When no mark is left it prints a zero
(`leads_finish`).  So it comes from the first `m` groups with a zero after them
to the first `m + 1` (`leads_stage`), and the digits on the way are always the
first digits of the sequence (`Shows`).  The main statement is
`prints_increasing_ones`.
-/
import AutomaticMachine.Catalogue
import AutomaticMachine.Proofs.Snapshot.Digits
import AutomaticMachine.Proofs.Snapshot.Situation
import AutomaticMachine.Proofs.Table.Resolution
import Mathlib.Data.List.GetD
import Mathlib.Data.List.Infix

namespace AutomaticMachine

namespace Catalogue

namespace IncreasingOnes

/-! ### The sequence -/

/-- The first `m` groups of the sequence: each is a zero and the ones after it, one more in every
group than in the one before. -/
def groups (m : Nat) : List Bool :=
  (List.range m).flatMap fun j => false :: List.replicate j true

theorem groups_succ (m : Nat) : groups (m + 1) = groups m ++ false :: List.replicate m true := by
  rw [groups, List.range_succ, List.flatMap_append, List.flatMap_singleton, groups]

theorem length_groups_succ (m : Nat) : (groups (m + 1)).length = (groups m).length + 1 + m := by
  rw [groups_succ, List.length_append, List.length_cons, List.length_replicate]
  omega

/-- The last of the groups begins with its zero. -/
theorem getElem?_groups_zero (m : Nat) (rest : List Bool) :
    (groups (m + 1) ++ rest)[(groups m).length]? = some false := by
  rw [groups_succ]
  simp

/-- Ones make up the rest of it. -/
theorem getElem?_groups_one {m j : Nat} (hj : j < m) (rest : List Bool) :
    (groups (m + 1) ++ rest)[(groups m).length + j + 1]? = some true := by
  have hlt : j < (List.replicate m true).length := by rwa [List.length_replicate]
  rw [groups_succ, List.append_assoc, Nat.add_assoc,
    List.getElem?_append_right (Nat.le_add_right _ _), Nat.add_sub_cancel_left, List.cons_append,
    List.getElem?_cons_succ, List.getElem?_append_left hlt, List.getElem?_replicate_of_lt hj]

/-- The digits are the first ones of the sequence. -/
def Begins (digits : List Bool) : Prop := ∃ m, digits <+: groups m

theorem Begins.of_prefix {digits digits' : List Bool} (h : Begins digits')
    (hp : digits <+: digits') : Begins digits := by
  obtain ⟨m, hm⟩ := h
  exact ⟨m, hp.trans hm⟩

theorem begins_groups_zero (m : Nat) : Begins (groups m ++ [false]) := by
  refine ⟨m + 1, ?_⟩
  rw [groups_succ]
  exact (List.prefix_append_right_inj _).mpr ⟨List.replicate m true, rfl⟩

/-! ### Sheets -/

section Sheet

variable {digits : List Bool} {lo hi a i : Nat}

/-- Square `i` of a tape with these digits.  Digit `a` stands on square `2 * a + 2`, and the gap in
front of it is square `2 * a + 1`.  The gaps from `lo` to `hi` are marked. -/
def square (digits : List Bool) (lo hi i : Nat) : Symbol :=
  if i ≤ 1 then Symbol.schwa
  else if i % 2 = 0 then Symbol.ofBit (digits.getD (i / 2 - 1) false)
  else if lo ≤ i / 2 ∧ i / 2 < hi then "x"
  else Symbol.blank

def sheet (digits : List Bool) (lo hi : Nat) : List Symbol :=
  (List.range (2 * digits.length + 1)).map (square digits lo hi)

theorem square_digit (digits : List Bool) (lo hi a : Nat) :
    square digits lo hi (2 * a + 2) = Symbol.ofBit (digits.getD a false) := by
  have hdigit : (2 * a + 2) / 2 - 1 = a := by omega
  rw [square, if_neg (by omega), if_pos (by omega), hdigit]

theorem square_marked (ha : 1 ≤ a) (hlo : lo ≤ a) (hhi : a < hi) :
    square digits lo hi (2 * a + 1) = "x" := by
  rw [square, if_neg (by omega), if_neg (by omega), if_pos (by omega)]

theorem square_unmarked (ha : 1 ≤ a) (h : a < lo ∨ hi ≤ a) :
    square digits lo hi (2 * a + 1) = Symbol.blank := by
  rw [square, if_neg (by omega), if_neg (by omega), if_neg (by omega)]

/-- Squares differ with their marks only where there are gaps. -/
theorem square_congr {lo' hi' : Nat}
    (h : i % 2 = 1 → (lo ≤ i / 2 ∧ i / 2 < hi ↔ lo' ≤ i / 2 ∧ i / 2 < hi')) :
    square digits lo hi i = square digits lo' hi' i := by
  unfold square
  split
  · rfl
  · split
    · rfl
    · exact if_congr (h (by omega)) rfl rfl

theorem length_sheet : (sheet digits lo hi).length = 2 * digits.length + 1 := by
  rw [sheet, List.length_map, List.length_range]

theorem getElem_sheet (h : i < (sheet digits lo hi).length) :
    (sheet digits lo hi)[i] = square digits lo hi i := by
  simp [sheet]

/-- To write on a gap is to change its mark. -/
theorem set_sheet {lo' hi' : Nat} {x : Symbol} (hx : square digits lo' hi' i = x)
    (hothers : ∀ j, j ≠ i → square digits lo hi j = square digits lo' hi' j) :
    (sheet digits lo hi).set i x = sheet digits lo' hi' := by
  refine List.ext_getElem (by simp [length_sheet]) ?_
  intro j _ _
  rw [List.getElem_set, getElem_sheet, getElem_sheet]
  split
  · rename_i hij
    rw [← hij, hx]
  · rename_i hij
    exact hothers j (Ne.symm hij)

theorem mark_sheet (ha : 1 ≤ a) (hhi : a < hi) :
    (sheet digits (a + 1) hi).set (2 * a + 1) "x" = sheet digits a hi := by
  refine set_sheet (square_marked ha (Nat.le_refl a) hhi) ?_
  intro j hj
  refine square_congr ?_
  omega

theorem erase_sheet (ha : 1 ≤ a) :
    (sheet digits lo (a + 1)).set (2 * a + 1) Symbol.blank = sheet digits lo a := by
  refine set_sheet (square_unmarked ha (Or.inr (Nat.le_refl a))) ?_
  intro j hj
  refine square_congr ?_
  omega

/-- Without marks it does not matter where they would begin. -/
theorem sheet_of_no_marks (lo lo' : Nat) : sheet digits lo lo = sheet digits lo' lo' := by
  refine List.map_congr_left ?_
  intro j _
  refine square_congr ?_
  omega

/-- A new digit comes with a gap in front of it. -/
theorem sheet_concat (hne : digits ≠ []) (hhi : hi ≤ digits.length) (b : Bool) :
    sheet (digits ++ [b]) lo hi = sheet digits lo hi ++ [Symbol.blank, Symbol.ofBit b] := by
  have hpos : 0 < digits.length := List.length_pos_iff.mpr hne
  have hlen : 2 * (digits ++ [b]).length + 1 = 2 * digits.length + 1 + 1 + 1 := by
    rw [List.length_append, List.length_singleton]
    omega
  have hold : (List.range (2 * digits.length + 1)).map (square (digits ++ [b]) lo hi) =
      sheet digits lo hi := by
    refine List.map_congr_left ?_
    intro j hj
    rw [List.mem_range] at hj
    unfold square
    split
    · rfl
    · rw [List.getD_append _ _ _ _ (by omega)]
  have hgap : square (digits ++ [b]) lo hi (2 * digits.length + 1) = Symbol.blank :=
    square_unmarked hpos (Or.inr hhi)
  have hdigit : square (digits ++ [b]) lo hi (2 * digits.length + 1 + 1) = Symbol.ofBit b := by
    rw [square_digit]
    simp
  rw [sheet, hlen, List.range_succ, List.range_succ, List.map_append, List.map_append, hold,
    List.map_singleton, List.map_singleton, hgap, hdigit, List.append_assoc]
  rfl

/-- Read without the gaps, the sheet shows its digits. -/
theorem filterMap_sheet : (sheet digits lo hi).filterMap Symbol.bit? = digits := by
  have hgap : ∀ a, (square digits lo hi (2 * a + 1)).bit? = none := by
    intro a
    unfold square
    split
    · rfl
    · split
      · omega
      · split <;> rfl
  have key : ∀ n, ((List.range (2 * n + 1)).map (square digits lo hi)).filterMap Symbol.bit? =
      (List.range n).map fun a => digits.getD a false := by
    intro n
    induction n with
    | zero => rfl
    | succ n ih =>
      have hlen : 2 * (n + 1) + 1 = 2 * n + 1 + 1 + 1 := by omega
      rw [hlen, List.range_succ, List.range_succ, List.range_succ (n := n), List.map_append,
        List.map_append, List.map_append, List.filterMap_append, List.filterMap_append, ih,
        List.append_assoc]
      simp [hgap, square_digit]
  rw [sheet, key]
  refine List.ext_getElem (by simp) ?_
  intro j _ hj
  rw [List.getElem_map, List.getElem_range, List.getD_eq_getElem _ _ hj]

/-- The digits of a sheet without marks stand on every other square behind the two at its left
end. -/
theorem sheet_eq_intersperse (hne : digits ≠ []) :
    sheet digits lo lo = Symbol.schwa :: Symbol.schwa ::
      List.intersperse Symbol.blank (digits.map Symbol.ofBit) := by
  have hpos : 0 < digits.length := List.length_pos_iff.mpr hne
  refine List.ext_getElem ?length ?square
  case length =>
    rw [length_sheet, List.length_cons, List.length_cons, List.length_intersperse, List.length_map]
    omega
  case square =>
    intro j hj hj'
    rw [getElem_sheet]
    rw [length_sheet] at hj
    rcases j with _ | _ | j
    · rfl
    · rfl
    · rw [List.getElem_cons_succ, List.getElem_cons_succ]
      obtain ⟨a, rfl | rfl⟩ : ∃ a, j = 2 * a ∨ j = 2 * a + 1 := ⟨j / 2, by omega⟩
      · have ha : a < digits.length := by omega
        rw [square_digit, List.getElem_intersperse_two_mul, List.getElem_map,
          List.getD_eq_getElem _ _ ha]
      · have hgap : 2 * a + 1 + 1 + 1 = 2 * (a + 1) + 1 := by omega
        rw [hgap, square_unmarked (by omega) (by omega),
          List.getElem_intersperse_two_mul_add_one]

end Sheet

/-! ### Rows -/

/-- What is proved of all rows: their digits are the first ones of the sequence. -/
def Shows (row : Row) : Prop := Begins (row.symbols.filterMap Symbol.bit?)

section Row

variable {digits : List Bool} {lo hi a : Nat}

/-- A sheet of which digit `a` is scanned. -/
def onDigit (digits : List Bool) (lo hi a : Nat) : Row where
  symbols := sheet digits lo hi
  place := 2 * a + 2

/-- A sheet of which the gap in front of digit `a` is scanned. -/
def onGap (digits : List Bool) (lo hi a : Nat) : Row where
  symbols := sheet digits lo hi
  place := 2 * a + 1

/-- A sheet with a new gap, which is scanned. -/
def onNewGap (digits : List Bool) (lo hi : Nat) : Row where
  symbols := sheet digits lo hi ++ [Symbol.blank]
  place := 2 * digits.length + 1

/-- A sheet with a new gap and a square for a new digit, which is scanned. -/
def onNewDigit (digits : List Bool) (lo hi : Nat) : Row where
  symbols := sheet digits lo hi ++ [Symbol.blank, Symbol.blank]
  place := 2 * digits.length + 2

theorem shows_onDigit (h : Begins digits) : Shows (onDigit digits lo hi a) := by
  rw [Shows, onDigit, filterMap_sheet]
  exact h

theorem shows_onGap (h : Begins digits) : Shows (onGap digits lo hi a) := by
  rw [Shows, onGap, filterMap_sheet]
  exact h

theorem shows_onNewGap (h : Begins digits) : Shows (onNewGap digits lo hi) := by
  rw [Shows, onNewGap, List.filterMap_append, filterMap_sheet]
  show Begins (digits ++ [])
  rwa [List.append_nil]

theorem shows_onNewDigit (h : Begins digits) : Shows (onNewDigit digits lo hi) := by
  rw [Shows, onNewDigit, List.filterMap_append, filterMap_sheet]
  show Begins (digits ++ [])
  rwa [List.append_nil]

theorem onDigit_of_no_marks (lo : Nat) : onDigit digits lo lo a = onDigit digits 0 0 a := by
  rw [onDigit, sheet_of_no_marks lo 0, onDigit]

theorem scanned_onDigit {b : Bool} (hb : digits[a]? = some b) :
    (onDigit digits lo hi a).scanned = Symbol.ofBit b := by
  obtain ⟨ha, hb⟩ := List.getElem?_eq_some_iff.mp hb
  have hlt : 2 * a + 2 < (sheet digits lo hi).length := by
    rw [length_sheet]
    omega
  rw [Row.scanned, onDigit, List.getElem?_eq_getElem hlt, getElem_sheet, square_digit,
    List.getD_eq_getElem _ _ ha, hb]
  rfl

theorem scanned_onGap (ha : a < digits.length) :
    (onGap digits lo hi a).scanned = square digits lo hi (2 * a + 1) := by
  have hlt : 2 * a + 1 < (sheet digits lo hi).length := by
    rw [length_sheet]
    omega
  rw [Row.scanned, onGap, List.getElem?_eq_getElem hlt, getElem_sheet]
  rfl

theorem scanned_onNewDigit : (onNewDigit digits lo hi).scanned = Symbol.blank := by
  simp [Row.scanned, onNewDigit, length_sheet]

/-! The operations of the program on these rows. -/

theorem right_onGap (h : a < digits.length) :
    (Operation.move .right).onRow (onGap digits lo hi a) = onDigit digits lo hi a := by
  refine if_pos ?_
  rw [onGap, length_sheet]
  show 2 * a + 1 + 1 < 2 * digits.length + 1
  omega

theorem right_onDigit (h : a + 1 < digits.length) :
    (Operation.move .right).onRow (onDigit digits lo hi a) = onGap digits lo hi (a + 1) := by
  refine if_pos ?_
  rw [onDigit, length_sheet]
  show 2 * a + 2 + 1 < 2 * digits.length + 1
  omega

theorem left_onDigit :
    (Operation.move .left).onRow (onDigit digits lo hi a) = onGap digits lo hi a :=
  rfl

theorem left_onGap :
    (Operation.move .left).onRow (onGap digits lo hi (a + 1)) = onDigit digits lo hi a :=
  rfl

theorem mark_onGap (ha : 1 ≤ a) (hhi : a < hi) :
    (Operation.print "x").onRow (onGap digits (a + 1) hi a) = onGap digits a hi a := by
  rw [Operation.onRow, onGap, mark_sheet ha hhi, onGap]

theorem erase_onGap (ha : 1 ≤ a) :
    Operation.erase.onRow (onGap digits lo (a + 1) a) = onGap digits lo a a := by
  rw [Operation.onRow, onGap, erase_sheet ha, onGap]

/-- Behind the last digit the tape grows. -/
theorem right_onDigit_last (h : a + 1 = digits.length) :
    (Operation.move .right).onRow (onDigit digits lo hi a) = onNewGap digits lo hi := by
  have hlast : ¬ (onDigit digits lo hi a).place + 1 < (onDigit digits lo hi a).symbols.length := by
    rw [onDigit, length_sheet]
    show ¬ 2 * a + 2 + 1 < 2 * digits.length + 1
    omega
  have hplace : 2 * a + 2 + 1 = 2 * digits.length + 1 := by omega
  rw [Operation.onRow, if_neg hlast, onDigit, hplace, onNewGap]

theorem right_onNewGap :
    (Operation.move .right).onRow (onNewGap digits lo hi) = onNewDigit digits lo hi := by
  have hlast : ¬ (onNewGap digits lo hi).place + 1 < (onNewGap digits lo hi).symbols.length := by
    rw [onNewGap, List.length_append, length_sheet]
    exact Nat.lt_irrefl _
  rw [Operation.onRow, if_neg hlast, onNewGap, List.append_assoc, onNewDigit]
  rfl

theorem print_onNewDigit (hne : digits ≠ []) (hhi : hi ≤ digits.length) (b : Bool) :
    (Operation.print (Symbol.ofBit b)).onRow (onNewDigit digits lo hi) =
      onDigit (digits ++ [b]) lo hi digits.length := by
  have hplace : 2 * digits.length + 2 = (sheet digits lo hi).length + 1 := by rw [length_sheet]
  rw [Operation.onRow, onNewDigit, onDigit, sheet_concat hne hhi b, hplace,
    List.set_append_right _ _ (Nat.le_succ _)]
  simp

end Row

/-! ### Runs -/

/-- The program.  Its configurations are called by their numbers below. -/
def program : Program := increasingOnes.resolved "b"

/-- The configuration that goes back over the last group of ones and marks it. -/
def marking : Nat := 1

/-- The configuration that runs to the end and prints a one. -/
def adding : Nat := 2

/-- The configuration that goes back to the last mark. -/
def seeking : Nat := 3

/-- The configuration that runs to the end and prints a zero. -/
def closing : Nat := 4

section Rules

open Operation

theorem opening_blank : program.findRule? program.initial Symbol.blank =
    some ⟨.none, [print Symbol.schwa, move .right, print Symbol.schwa, move .right, print "0",
      move .right, move .right, print "0", move .left, move .left], marking⟩ :=
  rfl

theorem marking_one : program.findRule? marking "1" =
    some ⟨.symbol "1", [move .right, print "x", move .left, move .left, move .left], marking⟩ :=
  rfl

theorem marking_zero : program.findRule? marking "0" = some ⟨.symbol "0", [], adding⟩ := rfl

theorem adding_digit (b : Bool) : program.findRule? adding (Symbol.ofBit b) =
    some ⟨.anyOf (.ofList ["0", "1"]), [move .right, move .right], adding⟩ := by
  cases b <;> rfl

theorem adding_blank : program.findRule? adding Symbol.blank =
    some ⟨.none, [print "1", move .left], seeking⟩ :=
  rfl

theorem seeking_mark : program.findRule? seeking "x" =
    some ⟨.symbol "x", [erase, move .right], adding⟩ :=
  rfl

theorem seeking_schwa : program.findRule? seeking Symbol.schwa =
    some ⟨.symbol Symbol.schwa, [move .right], closing⟩ :=
  rfl

theorem seeking_blank : program.findRule? seeking Symbol.blank =
    some ⟨.none, [move .left, move .left], seeking⟩ :=
  rfl

theorem closing_digit (b : Bool) : program.findRule? closing (Symbol.ofBit b) =
    some ⟨.nonBlank, [move .right, move .right], closing⟩ := by
  cases b <;> rfl

theorem closing_blank : program.findRule? closing Symbol.blank =
    some ⟨.none, [print "0", move .left, move .left], marking⟩ :=
  rfl

end Rules

section Run

variable {digits : List Bool} {lo hi a b i k n : Nat}

/-- At a one the gap behind it is marked. -/
theorem leads_mark (hd : Begins digits) (ha : digits[a + 1]? = some true) (hlo : lo = a + 2)
    (hhi : lo < hi) (hlen : hi ≤ digits.length) :
    program.Leads Shows ⟨onDigit digits (lo + 1) hi (a + 1), [], marking⟩
      ⟨onDigit digits lo hi a, [], marking⟩ := by
  subst hlo
  refine .rule (shows_onDigit hd) (scanned_onDigit ha) marking_one (right_onDigit (by omega)) ?_
  refine .owed (shows_onGap hd) (mark_onGap (by omega) hhi) ?_
  refine .owed (shows_onGap hd) left_onGap ?_
  refine .owed (shows_onDigit hd) left_onDigit ?_
  refine .owed (shows_onGap hd) left_onGap ?_
  exact .refl (shows_onDigit hd)

/-- From the last one of a group on all its ones are marked. -/
theorem leads_marking (hd : Begins digits) (hlen : digits.length = n + 2 + k)
    (hones : ∀ j < k, digits[n + j + 1]? = some true) :
    program.Leads Shows ⟨onDigit digits (n + 2 + k) (n + 2 + k) (n + k), [], marking⟩
      ⟨onDigit digits (n + 2) (n + 2 + k) n, [], marking⟩ := by
  have key : ∀ j ≤ k, program.Leads Shows
      ⟨onDigit digits (n + 2 + j) (n + 2 + k) (n + j), [], marking⟩
      ⟨onDigit digits (n + 2) (n + 2 + k) n, [], marking⟩ := by
    intro j hj
    induction j with
    | zero => exact .refl (shows_onDigit hd)
    | succ j ih =>
      have hmark : program.Leads Shows
          ⟨onDigit digits (n + 2 + j + 1) (n + 2 + k) (n + j + 1), [], marking⟩
          ⟨onDigit digits (n + 2 + j) (n + 2 + k) (n + j), [], marking⟩ :=
        leads_mark hd (hones j (by omega)) (by omega) (by omega) (by omega)
      exact hmark.trans (ih (by omega))
  exact key k (Nat.le_refl k)

/-- The run over the digits to the end of the tape is the same in two configurations. -/
theorem leads_run (hd : Begins digits) (ha : a < digits.length)
    (hrule : ∀ b, ∃ matcher, program.findRule? i (Symbol.ofBit b) =
      some ⟨matcher, [.move .right, .move .right], i⟩) :
    program.Leads Shows ⟨onDigit digits lo hi a, [], i⟩ ⟨onNewDigit digits lo hi, [], i⟩ := by
  -- By induction on the number of digits that are left.
  induction hk : digits.length - (a + 1) generalizing a with
  | zero =>
    obtain ⟨matcher, hr⟩ := hrule digits[a]
    refine .rule (shows_onDigit hd) (scanned_onDigit (List.getElem?_eq_getElem ha)) hr
      (right_onDigit_last (by omega)) ?_
    refine .owed (shows_onNewGap hd) right_onNewGap ?_
    exact .refl (shows_onNewDigit hd)
  | succ k ih =>
    obtain ⟨matcher, hr⟩ := hrule digits[a]
    refine .rule (shows_onDigit hd) (scanned_onDigit (List.getElem?_eq_getElem ha)) hr
      (right_onDigit (by omega)) ?_
    refine .owed (shows_onGap hd) (right_onGap (by omega)) ?_
    exact ih (by omega) (by omega)

/-- At the end of the tape a one is printed. -/
theorem leads_add (hd : Begins (digits ++ [true])) (ha : a < digits.length)
    (hhi : hi ≤ digits.length) :
    program.Leads Shows ⟨onDigit digits lo hi a, [], adding⟩
      ⟨onGap (digits ++ [true]) lo hi digits.length, [], seeking⟩ := by
  have hd' : Begins digits := hd.of_prefix (List.prefix_append _ _)
  have hne : digits ≠ [] := List.ne_nil_of_length_pos (by omega)
  refine (leads_run hd' ha fun b => ⟨_, adding_digit b⟩).trans ?_
  refine .rule (shows_onNewDigit hd') scanned_onNewDigit adding_blank
    (print_onNewDigit hne hhi true) ?_
  refine .owed (shows_onDigit hd) left_onDigit ?_
  exact .refl (shows_onGap hd)

/-- Gaps without a mark are passed over to the left. -/
theorem leads_seek (hd : Begins digits) (hab : a ≤ b) (hb : b < digits.length)
    (hblank : hi ≤ a + 1 ∨ hi ≤ lo) :
    program.Leads Shows ⟨onGap digits lo hi b, [], seeking⟩
      ⟨onGap digits lo hi a, [], seeking⟩ := by
  obtain ⟨k, rfl⟩ : ∃ k, b = a + k := ⟨b - a, by omega⟩
  induction k with
  | zero => exact .refl (shows_onGap hd)
  | succ k ih =>
    have hx : (onGap digits lo hi (a + k + 1)).scanned = Symbol.blank := by
      rw [scanned_onGap (by omega), square_unmarked (by omega) (by omega)]
    refine .rule (shows_onGap hd) hx seeking_blank left_onGap ?_
    refine .owed (shows_onDigit hd) left_onDigit ?_
    exact ih (by omega) (by omega)

/-- A mark is erased for a one at the end of the tape. -/
theorem leads_round (hd : Begins (digits ++ [true])) (hlen : digits.length = n + 1) (hlo : 1 ≤ hi)
    (hle : lo ≤ hi) (hhi : hi ≤ n) :
    program.Leads Shows ⟨onGap digits lo (hi + 1) n, [], seeking⟩
      ⟨onGap (digits ++ [true]) lo hi (n + 1), [], seeking⟩ := by
  have hd' : Begins digits := hd.of_prefix (List.prefix_append _ _)
  have hseek : program.Leads Shows ⟨onGap digits lo (hi + 1) n, [], seeking⟩
      ⟨onGap digits lo (hi + 1) hi, [], seeking⟩ :=
    leads_seek hd' hhi (by omega) (Or.inl (Nat.le_refl _))
  have hx : (onGap digits lo (hi + 1) hi).scanned = "x" := by
    rw [scanned_onGap (by omega), square_marked hlo hle (by omega)]
  have hadd : program.Leads Shows ⟨onDigit digits lo hi hi, [], adding⟩
      ⟨onGap (digits ++ [true]) lo hi (n + 1), [], seeking⟩ := by
    rw [← hlen]
    exact leads_add hd (by omega) (by omega)
  refine hseek.trans ?_
  refine .rule (shows_onGap hd') hx seeking_mark (erase_onGap hlo) ?_
  exact .owed (shows_onGap hd') (right_onGap (by omega)) hadd

/-- There are as many new ones as there were marks. -/
theorem leads_rounds (hd : Begins (digits ++ List.replicate k true)) (hlen : digits.length = n + 1)
    (hlo : 1 ≤ lo) (hhi : lo + k ≤ n + 1) :
    program.Leads Shows ⟨onGap digits lo (lo + k) n, [], seeking⟩
      ⟨onGap (digits ++ List.replicate k true) lo lo (n + k), [], seeking⟩ := by
  induction k generalizing digits n with
  | zero =>
    rw [List.replicate_zero, List.append_nil] at hd ⊢
    exact .refl (shows_onGap hd)
  | succ k ih =>
    have hsplit : digits ++ List.replicate (k + 1) true =
        (digits ++ [true]) ++ List.replicate k true := by
      rw [List.replicate_succ, List.append_assoc]
      rfl
    have hn : n + (k + 1) = n + 1 + k := by omega
    rw [hsplit] at hd ⊢
    rw [hn]
    have hround : program.Leads Shows ⟨onGap digits lo (lo + k + 1) n, [], seeking⟩
        ⟨onGap (digits ++ [true]) lo (lo + k) (n + 1), [], seeking⟩ :=
      leads_round (hd.of_prefix (List.prefix_append _ _)) hlen (by omega) (Nat.le_add_right _ _)
        (by omega)
    exact hround.trans (ih hd (by simp [hlen]) (by omega))

/-- When no mark is left a zero is printed. -/
theorem leads_finish (hd : Begins (digits ++ [false])) (hlen : digits.length = n + 1)
    (hlo : lo ≤ n + 1) :
    program.Leads Shows ⟨onGap digits lo lo n, [], seeking⟩
      ⟨onDigit (digits ++ [false]) lo lo n, [], marking⟩ := by
  have hd' : Begins digits := hd.of_prefix (List.prefix_append _ _)
  have hne : digits ≠ [] := List.ne_nil_of_length_eq_add_one hlen
  have hseek : program.Leads Shows ⟨onGap digits lo lo n, [], seeking⟩
      ⟨onGap digits lo lo 0, [], seeking⟩ :=
    leads_seek hd' (Nat.zero_le n) (by omega) (Or.inr (Nat.le_refl lo))
  have hrun : program.Leads Shows ⟨onDigit digits lo lo 0, [], closing⟩
      ⟨onNewDigit digits lo lo, [], closing⟩ :=
    leads_run hd' (by omega) fun b => ⟨_, closing_digit b⟩
  have hx : (onGap digits lo lo 0).scanned = Symbol.schwa := scanned_onGap (by omega)
  refine hseek.trans ?_
  refine .rule (shows_onGap hd') hx seeking_schwa (right_onGap (by omega)) ?_
  refine hrun.trans ?_
  refine .rule (shows_onNewDigit hd') scanned_onNewDigit closing_blank
    (print_onNewDigit hne (by omega) false) ?_
  refine .owed (shows_onDigit hd) left_onDigit ?_
  rw [hlen]
  refine .owed (shows_onGap hd) left_onGap ?_
  exact .refl (shows_onDigit hd)

/-- After a group of `k` ones, the zero of which is digit `n`, comes a group of one more. -/
theorem leads_group (hd : Begins (digits ++ [true] ++ List.replicate k true ++ [false]))
    (hlen : digits.length = n + 2 + k) (hzero : digits[n]? = some false)
    (hones : ∀ j < k, digits[n + j + 1]? = some true) :
    program.Leads Shows ⟨onDigit digits 0 0 (n + k), [], marking⟩
      ⟨onDigit (digits ++ [true] ++ List.replicate k true ++ [false]) 0 0 (n + 2 + k + k), [],
        marking⟩ := by
  have hgroup : Begins (digits ++ [true] ++ List.replicate k true) :=
    hd.of_prefix (List.prefix_append _ _)
  have hone : Begins (digits ++ [true]) := hgroup.of_prefix (List.prefix_append _ _)
  have hdigits : Begins digits := hone.of_prefix (List.prefix_append _ _)
  have hmarking : program.Leads Shows ⟨onDigit digits 0 0 (n + k), [], marking⟩
      ⟨onDigit digits (n + 2) (n + 2 + k) n, [], marking⟩ := by
    rw [← onDigit_of_no_marks (n + 2 + k)]
    exact leads_marking hdigits hlen hones
  have hadd : program.Leads Shows ⟨onDigit digits (n + 2) (n + 2 + k) n, [], adding⟩
      ⟨onGap (digits ++ [true]) (n + 2) (n + 2 + k) (n + 2 + k), [], seeking⟩ := by
    rw [← hlen]
    exact leads_add hone (by omega) (Nat.le_refl _)
  have hrounds : program.Leads Shows
      ⟨onGap (digits ++ [true]) (n + 2) (n + 2 + k) (n + 2 + k), [], seeking⟩
      ⟨onGap (digits ++ [true] ++ List.replicate k true) (n + 2) (n + 2) (n + 2 + k + k), [],
        seeking⟩ :=
    leads_rounds hgroup (by simp [hlen]) (by omega) (by omega)
  have hfinish : program.Leads Shows
      ⟨onGap (digits ++ [true] ++ List.replicate k true) (n + 2) (n + 2) (n + 2 + k + k), [],
        seeking⟩
      ⟨onDigit (digits ++ [true] ++ List.replicate k true ++ [false]) 0 0 (n + 2 + k + k), [],
        marking⟩ := by
    rw [← onDigit_of_no_marks (n + 2)]
    refine leads_finish hd ?_ (by omega)
    simp only [List.length_append, List.length_replicate, List.length_singleton, hlen]
    omega
  refine hmarking.trans ?_
  refine .redirect (shows_onDigit hdigits) (scanned_onDigit hzero) marking_zero ?_
  exact hadd.trans (hrounds.trans hfinish)

end Run

/-! ### From group to group -/

/-- The first `m + 1` groups are printed with a zero after them, there are no marks, and the last
digit of these groups is scanned. -/
def stage (m : Nat) : Situation where
  row := onDigit (groups (m + 1) ++ [false]) 0 0 ((groups m).length + m)
  owed := []
  next := marking

/-- The first rule prints two groups. -/
theorem leads_opening : program.Leads Shows program.opening (stage 0) := by
  refine .rule ⟨0, List.prefix_rfl⟩ rfl opening_blank rfl (.allOwed ?_)
  intro k hk
  refine ⟨2, ?_⟩
  revert k
  decide

theorem leads_stage (m : Nat) : program.Leads Shows (stage m) (stage (m + 1)) := by
  have hnext : groups (m + 2) ++ [false] =
      groups (m + 1) ++ [false] ++ [true] ++ List.replicate m true ++ [false] := by
    rw [groups_succ (m + 1), List.replicate_succ]
    simp
  have hlen : (groups (m + 1) ++ [false]).length = (groups m).length + 2 + m := by
    rw [List.length_append, length_groups_succ, List.length_singleton]
    omega
  have hplace : (groups (m + 1)).length + (m + 1) = (groups m).length + 2 + m + m := by
    rw [length_groups_succ]
    omega
  have hd : Begins (groups (m + 2) ++ [false]) := begins_groups_zero (m + 2)
  rw [hnext] at hd
  rw [stage, stage, hnext, hplace]
  exact leads_group hd hlen (getElem?_groups_zero m _) fun j hj => getElem?_groups_one hj _

/-- With every group the tape becomes longer. -/
theorem length_stage_lt (m : Nat) :
    (stage m).row.symbols.length < (stage (m + 1)).row.symbols.length := by
  rw [stage, stage, onDigit, onDigit, length_sheet, length_sheet, List.length_append,
    List.length_append, length_groups_succ (m + 1)]
  omega

/-! ### All snapshots -/

/-- The run comes to all stages, and before and at each the digits are the first ones of the
sequence. -/
theorem exists_stage (m : Nat) : ∃ n, m ≤ n ∧ (program.step^[n] program.start).IsIn (stage m) ∧
    ∀ k ≤ n, ∃ i, (program.step^[k] program.start).IsIn i ∧ Shows i.row := by
  induction m with
  | zero =>
    obtain ⟨n, hn, hway⟩ := leads_opening.iterate program.isIn_opening
    exact ⟨n, Nat.zero_le n, hn, hway⟩
  | succ m ih =>
    obtain ⟨n, hmn, hn, hway⟩ := ih
    obtain ⟨l, hl, hway'⟩ := (leads_stage m).iterate hn
    -- The next stage is another one, so it takes a step at least to come there.
    have hpos : l ≠ 0 := by
      rintro rfl
      have hrows := hn.tapeSymbols_eq.symm.trans hl.tapeSymbols_eq
      exact Nat.ne_of_lt (length_stage_lt m) (congrArg List.length hrows)
    rw [← Function.iterate_add_apply] at hl
    refine ⟨l + n, by omega, hl, ?_⟩
    intro k hk
    rcases Nat.lt_or_ge k n with hkn | hkn
    · exact hway k (by omega)
    · obtain ⟨j, rfl⟩ : ∃ j, k = j + n := ⟨k - n, by omega⟩
      rw [Function.iterate_add_apply]
      exact hway' j (by omega)

/-- **The table for increasing ones prints the sequence 0, 01, 011, ….**  It never stops and never
prints a digit that is not the next one, and it comes to all groups. -/
theorem prints_increasing_ones :
    ∃ p, byName "increasing-ones" = .ok p ∧
      (∀ n, (p.step^[n] p.start).state ≠ .completed ∧
        ∃ m, (p.step^[n] p.start).digits <+: groups m) ∧
      ∀ m, ∃ n, let s := p.step^[n] p.start
        s.pendingOperations? = none ∧ p.configurationName s.next = "o" ∧
        s.tapeSymbols = Symbol.schwa :: Symbol.schwa :: List.intersperse Symbol.blank
          ((groups (m + 1) ++ [false]).map Symbol.ofBit) := by
  refine ⟨program, rfl, ?run, ?stages⟩
  case run =>
    intro n
    obtain ⟨l, hnl, -, hway⟩ := exists_stage n
    obtain ⟨i, hi, m, hm⟩ := hway n hnl
    refine ⟨hi.not_completed, m, ?_⟩
    rw [Snapshot.digits_eq, hi.tapeSymbols_eq]
    exact hm
  case stages =>
    intro m
    obtain ⟨n, -, hn, -⟩ := exists_stage m
    refine ⟨n, ?_, ?_, ?_⟩
    · rw [Snapshot.pendingOperations?_eq]
      exact if_pos hn.pending_eq
    · rw [hn.next_eq]
      rfl
    · rw [hn.tapeSymbols_eq]
      exact sheet_eq_intersperse (by simp)

end IncreasingOnes

end Catalogue

end AutomaticMachine
