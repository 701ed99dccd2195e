/-
Two tables, one run: the expansion of one third.

The tables `alternatingDigits` and `alternatingDigitsCompact` have different
configurations and rules of different lengths, and still the same operation is
done in every step: three steps in turn print a digit and go over to the
second square after it.  Both runs are followed at once, by the number of steps
taken (`Twins`, `Twins.step`, `twins_iterate`).

The digits `0, 1, 0, 1, …` on the tape are the first binary digits of one
third: `d` of them make the number `2 ^ d / 3` (`binaryValue_alternating`).
The main statement is `runs_alike`.
-/
import AutomaticMachine.Catalogue
import AutomaticMachine.Proofs.Snapshot.Digits
import AutomaticMachine.Proofs.Snapshot.Situation
import AutomaticMachine.Proofs.Table.Resolution
import Mathlib.Algebra.Order.Ring.Nat

namespace AutomaticMachine

namespace Catalogue

namespace AlternatingDigits

/-! ### The digits of one third -/

/-- Digit `k` is `1` for odd `k`. -/
def digit (k : Nat) : Bool := decide (k % 2 = 1)

/-- The first `d` digits. -/
def alternating (d : Nat) : List Bool := (List.range d).map digit

theorem alternating_succ (d : Nat) : alternating (d + 1) = alternating d ++ [digit d] := by
  rw [alternating, List.range_succ, List.map_append, List.map_singleton, alternating]

theorem toNat_digit (k : Nat) : (digit k).toNat = k % 2 := by
  rw [digit]
  rcases Nat.mod_two_eq_zero_or_one k with h | h <;> simp [h]

theorem ofBit_digit (k : Nat) : Symbol.ofBit (digit k) = if k % 2 = 1 then "1" else "0" := by
  rw [digit, Symbol.ofBit]
  exact if_congr decide_eq_true_iff rfl rfl

theorem binaryValue_alternating (d : Nat) :
    Snapshot.binaryValue (alternating d) = 2 ^ d / 3 := by
  -- What is left over in the division by three goes to and fro between one and two.
  have h : 3 * Snapshot.binaryValue (alternating d) + 1 + d % 2 = 2 ^ d := by
    induction d with
    | zero => rfl
    | succ d ih =>
      rw [alternating_succ, Snapshot.binaryValue_append, toNat_digit, Nat.pow_succ]
      omega
  omega

/-- Of the digits only the first is a leading zero. -/
theorem length_significant (d : Nat) :
    ((alternating d).dropWhile (!·)).length = d - 1 := by
  rcases d with _ | _ | d
  · rfl
  · rfl
  · have hsplit : alternating (d + 2) =
        false :: true :: (((List.range d).map Nat.succ).map Nat.succ).map digit := by
      rw [alternating, List.range_succ_eq_map, List.range_succ_eq_map]
      rfl
    rw [hsplit, List.dropWhile_cons_of_pos (by rfl), List.dropWhile_cons_of_neg (by decide)]
    simp

/-! ### The rows -/

/-- The operation of step `n`, counted from zero. -/
def operation (n : Nat) : Operation :=
  if n % 3 = 0 then .print (Symbol.ofBit (digit (n / 3))) else .move .right

/-- How many digits stand on the tape after `n` steps. -/
def printed (n : Nat) : Nat := (n + 2) / 3

/-- Square `i` of a tape with `d` digits. -/
def square (d i : Nat) : Symbol :=
  if i % 2 = 0 ∧ i / 2 < d then Symbol.ofBit (digit (i / 2)) else Symbol.blank

/-- The tape after `n` steps.  The steps that do not print go to the right. -/
def row (n : Nat) : Row where
  symbols := (List.range (n - printed n + 1)).map (square (printed n))
  place := n - printed n

theorem exists_phase (n : Nat) : ∃ q, n = 3 * q ∨ n = 3 * q + 1 ∨ n = 3 * q + 2 :=
  ⟨n / 3, by omega⟩

theorem operation_of_print (q : Nat) :
    operation (3 * q) = .print (Symbol.ofBit (digit q)) := by
  rw [operation, if_pos (by omega), Nat.mul_div_cancel_left q (by omega)]

theorem operation_of_move {n : Nat} (h : n % 3 ≠ 0) : operation n = .move .right := by
  rw [operation, if_neg h]

theorem operation_ne_left (n : Nat) : operation n ≠ .move .left := by
  unfold operation
  split <;> simp

theorem scanned_row (n : Nat) : (row n).scanned = square (printed n) (n - printed n) := by
  have hlt : n - printed n < n - printed n + 1 := Nat.lt_succ_self _
  rw [Row.scanned, row, List.getElem?_map, List.getElem?_range hlt]
  rfl

/-- A move goes over the right end of the tape and leaves the number of digits as it is. -/
theorem onRow_move {n : Nat} (h : n % 3 ≠ 0) :
    (Operation.move .right).onRow (row n) = row (n + 1) := by
  have hprinted : printed (n + 1) = printed n := by
    rw [printed, printed]
    omega
  have hlen : (row n).symbols.length = n - printed n + 1 := by
    rw [row, List.length_map, List.length_range]
  have hlast : ¬ (row n).place + 1 < (row n).symbols.length := by
    rw [hlen]
    exact Nat.lt_irrefl _
  have hplace : n + 1 - printed n = n - printed n + 1 := by
    rw [printed]
    omega
  -- The digits end before the new square.
  have hblank : square (printed n) (n - printed n + 1) = Symbol.blank := by
    refine if_neg ?_
    rw [printed]
    omega
  rw [Operation.onRow, if_neg hlast, row, row, hprinted, hplace,
    List.range_succ (n := n - printed n + 1), List.map_append, List.map_singleton, hblank]

/-- A digit is printed on the last square. -/
theorem onRow_print (q : Nat) :
    (Operation.print (Symbol.ofBit (digit q))).onRow (row (3 * q)) = row (3 * q + 1) := by
  have hbefore : printed (3 * q) = q := by
    rw [printed]
    omega
  have hafter : printed (3 * q + 1) = q + 1 := by
    rw [printed]
    omega
  have hplace : 3 * q - q = 2 * q := by omega
  have hplace' : 3 * q + 1 - (q + 1) = 2 * q := by omega
  have hlast : square (q + 1) (2 * q) = Symbol.ofBit (digit q) := by
    rw [square, if_pos (by omega), Nat.mul_div_cancel_left q (by omega)]
  have hothers : (List.range (2 * q)).map (square (q + 1)) =
      (List.range (2 * q)).map (square q) := by
    refine List.map_congr_left ?_
    intro i hi
    rw [List.mem_range] at hi
    have hiff : i % 2 = 0 ∧ i / 2 < q + 1 ↔ i % 2 = 0 ∧ i / 2 < q := by omega
    rw [square, square, if_congr hiff rfl rfl]
  rw [Operation.onRow, row, row, hbefore, hafter, hplace, hplace', List.range_succ,
    List.map_append, List.map_append, hothers, List.map_singleton, List.map_singleton, hlast]
  simp

theorem onRow_operation (n : Nat) : (operation n).onRow (row n) = row (n + 1) := by
  by_cases h : n % 3 = 0
  · obtain ⟨q, rfl⟩ : ∃ q, n = 3 * q := ⟨n / 3, by omega⟩
    rw [operation_of_print]
    exact onRow_print q
  · rw [operation_of_move h]
    exact onRow_move h

/-! ### What is read from the tape -/

/-- With their blanks left out, the squares show the digits. -/
theorem filterMap_square (d m : Nat) :
    ((List.range m).map (square d)).filterMap Symbol.bit? = alternating (min d ((m + 1) / 2)) := by
  induction m with
  | zero => simp [alternating]
  | succ m ih =>
    rw [List.range_succ, List.map_append, List.filterMap_append, ih, List.map_singleton, square]
    by_cases h : m % 2 = 0 ∧ m / 2 < d
    · have hm : min d ((m + 1) / 2) = m / 2 := by omega
      have hm' : min d ((m + 1 + 1) / 2) = m / 2 + 1 := by omega
      rw [if_pos h, hm, hm', alternating_succ]
      simp
    · have hm : min d ((m + 1) / 2) = min d ((m + 1 + 1) / 2) := by omega
      rw [if_neg h, hm]
      simp

theorem filterMap_row (n : Nat) :
    (row n).symbols.filterMap Symbol.bit? = alternating (printed n) := by
  have hmin : min (printed n) ((n - printed n + 1 + 1) / 2) = printed n := by
    rw [printed]
    omega
  rw [row, filterMap_square, hmin]

/-- The number that the first `d` digits make, unless they are too many to be decoded. -/
def decoded (d : Nat) : Except Fault Nat :=
  if d ≤ 129 then .ok (2 ^ d / 3) else .error (.overflow (d - 1))

theorem decodeBinary_eq {s : Snapshot} {d : Nat} (h : s.digits = alternating d) :
    s.decodeBinary = decoded d := by
  have hmax : d - 1 ≤ Snapshot.maxDigits ↔ d ≤ 129 := by
    rw [Snapshot.maxDigits]
    omega
  rw [Snapshot.decodeBinary, h, length_significant, Snapshot.binaryValue_dropWhile,
    binaryValue_alternating, decoded, if_congr hmax rfl rfl]

/-! ### The runs -/

/-- The program with a configuration for every digit and one for the way to the next. -/
def plain : Program := alternatingDigits.resolved "b"

/-- The program with a single configuration. -/
def compact : Program := alternatingDigitsCompact.resolved "b"

/-- After `n` steps the plain program goes from digit to digit through its four configurations. -/
def plainSituation (n : Nat) : Situation where
  row := row n
  owed := if n % 3 = 1 then [.move .right] else []
  next := 2 * (n / 3 % 2) + if n % 3 = 0 then 0 else 1

/-- The compact program reads a digit, and then it owes the way to the next one and its print. -/
def compactSituation (n : Nat) : Situation where
  row := row n
  owed :=
    if n = 0 ∨ n % 3 = 1 then []
    else if n % 3 = 0 then [operation n]
    else [operation n, operation (n + 1)]
  next := 0

/-! A cycle of three steps prints a digit, leaves its square and passes over the square after it;
`q` counts the cycles. -/

section Cycle

variable (q : Nat)

theorem scanned_row_print : (row (3 * q)).scanned = Symbol.blank := by
  rw [scanned_row]
  refine if_neg ?_
  rw [printed]
  omega

theorem scanned_row_leave : (row (3 * q + 1)).scanned = Symbol.ofBit (digit q) := by
  have hprinted : printed (3 * q + 1) = q + 1 := by
    rw [printed]
    omega
  have hplace : 3 * q + 1 - (q + 1) = 2 * q := by omega
  rw [scanned_row, hprinted, hplace, square, if_pos (by omega),
    Nat.mul_div_cancel_left q (by omega)]

theorem scanned_row_pass : (row (3 * q + 2)).scanned = Symbol.blank := by
  rw [scanned_row]
  refine if_neg ?_
  rw [printed]
  omega

theorem plainSituation_print :
    plainSituation (3 * q) = ⟨row (3 * q), [], 2 * (q % 2)⟩ := by
  have hdiv : 3 * q / 3 = q := by omega
  rw [plainSituation, if_neg (by omega), if_pos (by omega), hdiv, Nat.add_zero]

theorem plainSituation_leave :
    plainSituation (3 * q + 1) = ⟨row (3 * q + 1), [.move .right], 2 * (q % 2) + 1⟩ := by
  have hdiv : (3 * q + 1) / 3 = q := by omega
  rw [plainSituation, if_pos (by omega), if_neg (by omega), hdiv]

theorem plainSituation_pass :
    plainSituation (3 * q + 2) = ⟨row (3 * q + 2), [], 2 * (q % 2) + 1⟩ := by
  have hdiv : (3 * q + 2) / 3 = q := by omega
  rw [plainSituation, if_neg (by omega), if_neg (by omega), hdiv]

theorem findRule?_plain_print :
    plain.findRule? (2 * (q % 2)) Symbol.blank =
      some ⟨.none, [.print (Symbol.ofBit (digit q)), .move .right], 2 * (q % 2) + 1⟩ := by
  rcases Nat.mod_two_eq_zero_or_one q with h | h
  · rw [digit, h]
    rfl
  · rw [digit, h]
    rfl

theorem findRule?_plain_pass :
    plain.findRule? (2 * (q % 2) + 1) Symbol.blank =
      some ⟨.none, [.move .right], 2 * ((q + 1) % 2)⟩ := by
  rcases Nat.mod_two_eq_zero_or_one q with h | h
  · rw [Nat.add_mod, h]
    rfl
  · rw [Nat.add_mod, h]
    rfl

/-- The digit that is read says which one comes next. -/
theorem findRule?_compact_leave :
    compact.findRule? 0 (Symbol.ofBit (digit q)) = some ⟨.symbol (Symbol.ofBit (digit q)),
      [.move .right, .move .right, .print (Symbol.ofBit (digit (q + 1)))], 0⟩ := by
  rcases Nat.mod_two_eq_zero_or_one q with h | h
  · rw [digit, digit, Nat.add_mod, h]
    rfl
  · rw [digit, digit, Nat.add_mod, h]
    rfl

end Cycle

/-- The next step of the plain program does the operation of its number. -/
theorem ordered?_plain (n : Nat) :
    plain.ordered? (plainSituation n) =
      some (operation n :: (plainSituation (n + 1)).owed, (plainSituation (n + 1)).next) := by
  obtain ⟨q, rfl | rfl | rfl⟩ := exists_phase n
  · rw [plainSituation_print, plainSituation_leave, operation_of_print]
    exact Program.ordered?_of_rule (scanned_row_print q) (findRule?_plain_print q)
  · rw [plainSituation_leave, plainSituation_pass, operation_of_move (by omega)]
    rfl
  · have hcycle : 3 * q + 2 + 1 = 3 * (q + 1) := by omega
    rw [plainSituation_pass, hcycle, plainSituation_print, operation_of_move (by omega)]
    exact Program.ordered?_of_rule (scanned_row_pass q) (findRule?_plain_pass q)

/-- So does the next step of the compact program. -/
theorem ordered?_compact (n : Nat) :
    compact.ordered? (compactSituation n) =
      some (operation n :: (compactSituation (n + 1)).owed, (compactSituation (n + 1)).next) := by
  obtain ⟨q, rfl | rfl | rfl⟩ := exists_phase n
  · have hleave : 3 * q + 1 = 0 ∨ (3 * q + 1) % 3 = 1 := by omega
    rw [compactSituation, compactSituation, if_pos hleave]
    rcases Nat.eq_zero_or_pos q with rfl | hq
    · rfl
    · rw [if_neg (by omega), if_pos (by omega)]
      rfl
  · -- The rule that is begun here does the operations of three steps.
    have hcycle : 3 * q + 1 + 1 + 1 = 3 * (q + 1) := by omega
    have hleave : operation (3 * q + 1) = .move .right := operation_of_move (by omega)
    have hpass : operation (3 * q + 1 + 1) = .move .right := operation_of_move (by omega)
    rw [compactSituation, compactSituation, if_pos (by omega), if_neg (by omega),
      if_neg (by omega), hcycle, hleave, hpass, operation_of_print]
    exact Program.ordered?_of_rule (scanned_row_leave q) (findRule?_compact_leave q)
  · rw [compactSituation, compactSituation, if_neg (by omega), if_neg (by omega),
      if_neg (by omega), if_pos (by omega)]
    rfl

/-- After `n` steps the two runs differ in nothing but the configurations and what is owed. -/
structure Twins (n : Nat) (s s' : Snapshot) : Prop where
  plain_isIn : s.IsIn (plainSituation n)
  compact_isIn : s'.IsIn (compactSituation n)
  tape_eq : s'.tape = s.tape
  head_eq : s'.head = s.head
  last_eq : s'.last = s.last
  state_eq : s'.state = s.state
  steps_eq : s'.steps = s.steps
  /-- The squares stand in the order of their creation. -/
  bears : s.tape.Bears (List.range s.tape.size) s.head (row n)

theorem twins_start : Twins 0 plain.start compact.start where
  plain_isIn := plain.isIn_opening
  compact_isIn := compact.isIn_opening
  tape_eq := rfl
  head_eq := rfl
  last_eq := rfl
  state_eq := rfl
  steps_eq := rfl
  bears := Tape.bears_new

/-- To do the operation of a step is to come to a situation with the next row. -/
theorem carryOut_operation {n : Nat} {m m' : Situation} (hm : m.row = row n)
    (hm' : m'.row = row (n + 1)) : m.carryOut (operation n :: m'.owed) m'.next = m' := by
  have hrow : (operation n).onRow m.row = m'.row := by rw [hm, hm', onRow_operation]
  exact congrArg (Situation.mk · m'.owed m'.next) hrow

theorem Twins.step {n : Nat} {s s' : Snapshot} (h : Twins n s s') :
    Twins (n + 1) (plain.step s) (compact.step s') := by
  obtain ⟨i, hi⟩ := h.plain_isIn.exists_order (ordered?_plain n)
  obtain ⟨i', hi'⟩ := h.compact_isIn.exists_order (ordered?_compact n)
  have hplain := h.plain_isIn.step (Program.proceed_of_ordered? (ordered?_plain n))
  have hcompact := h.compact_isIn.step (Program.proceed_of_ordered? (ordered?_compact n))
  rw [carryOut_operation rfl rfl] at hplain hcompact
  -- The same operation is done on the same square of the same tape.
  obtain ⟨t, j, hop, hb⟩ := h.bears.execute_of_ne_left (operation_ne_left n)
  have hop' : (operation n).execute s'.tape s'.head = .ok (t, j) := by
    rw [h.tape_eq, h.head_eq]
    exact hop
  rw [hi] at hplain ⊢
  rw [hi'] at hcompact ⊢
  obtain ⟨ht, hj⟩ := Program.follow_tape_of_cons
    (o := ⟨i, operation n :: (plainSituation (n + 1)).owed, (plainSituation (n + 1)).next⟩) rfl hop
  obtain ⟨ht', hj'⟩ := Program.follow_tape_of_cons
    (o := ⟨i', operation n :: (compactSituation (n + 1)).owed, (compactSituation (n + 1)).next⟩)
    rfl hop'
  exact {
    plain_isIn := hplain
    compact_isIn := hcompact
    tape_eq := ht'.trans ht.symm
    head_eq := hj'.trans hj.symm
    last_eq := rfl
    state_eq := rfl
    steps_eq := congrArg (· + 1) h.steps_eq
    bears := by
      rw [ht, hj, ← onRow_operation]
      exact hb }

theorem twins_iterate (n : Nat) :
    Twins n (plain.step^[n] plain.start) (compact.step^[n] compact.start) := by
  induction n with
  | zero => exact twins_start
  | succ n ih =>
    rw [Function.iterate_succ_apply', Function.iterate_succ_apply']
    exact ih.step

theorem Twins.squares_eq {n : Nat} {s s' : Snapshot} (h : Twins n s s') :
    s.squares = (List.range (n - printed n + 1)).map fun i => (i, square (printed n) i) := by
  have hlen : n - printed n + 1 = s.tape.size := by
    simpa [row] using h.bears.length_eq
  have hzip : ((List.range s.tape.size).map id).zip
      ((List.range s.tape.size).map (square (printed n))) =
        (List.range s.tape.size).map fun i => (i, square (printed n) i) := List.zip_map'
  rw [List.map_id] at hzip
  rw [Snapshot.squares, h.bears.squares_eq, row, hlen, ← hzip]
  rfl

theorem Twins.digits_eq {n : Nat} {s s' : Snapshot} (h : Twins n s s') :
    s.digits = alternating (printed n) ∧ s'.digits = alternating (printed n) := by
  rw [Snapshot.digits_eq, Snapshot.digits_eq, h.plain_isIn.tapeSymbols_eq,
    h.compact_isIn.tapeSymbols_eq]
  exact ⟨filterMap_row n, filterMap_row n⟩

/-- **The two tables for alternating digits run alike**, and both work out one third in binary. -/
theorem runs_alike :
    ∃ p q, byName "alternating-digits" = .ok p ∧ byName "alternating-digits-compact" = .ok q ∧
      ∀ n, let s := p.step^[n] p.start
        let s' := q.step^[n] q.start
        let d := (n + 2) / 3
        (s'.tape = s.tape ∧ s'.head = s.head ∧ s'.last = s.last ∧ s'.state = s.state ∧
          s'.steps = s.steps) ∧
        (s.state ≠ .completed ∧ s'.state ≠ .completed) ∧
        (s.squares = (List.range (n - d + 1)).map fun i =>
          (i, if i % 2 = 0 ∧ i / 2 < d then if i / 2 % 2 = 1 then "1" else "0"
            else Symbol.blank)) ∧
        s.digits = (List.range d).map (fun k => decide (k % 2 = 1)) ∧
        s.decodeBinary = (if d ≤ 129 then .ok (2 ^ d / 3) else .error (.overflow (d - 1))) ∧
        s'.decodeBinary = (if d ≤ 129 then .ok (2 ^ d / 3) else .error (.overflow (d - 1))) := by
  refine ⟨plain, compact, rfl, rfl, ?_⟩
  intro n s s' d
  have h : Twins n s s' := twins_iterate n
  obtain ⟨hdigits, hdigits'⟩ := h.digits_eq
  refine ⟨⟨h.tape_eq, h.head_eq, h.last_eq, h.state_eq, h.steps_eq⟩,
    ⟨h.plain_isIn.not_completed, h.compact_isIn.not_completed⟩, ?squares, hdigits,
    decodeBinary_eq hdigits, decodeBinary_eq hdigits'⟩
  case squares =>
    rw [h.squares_eq]
    refine List.map_congr_left ?_
    intro i _
    rw [square, ofBit_digit]
    rfl

end AlternatingDigits

end Catalogue

end AutomaticMachine
