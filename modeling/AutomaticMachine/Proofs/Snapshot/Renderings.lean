/-
The renderings of a tape show the same squares and the same cursor.

Every rendering walks over the tape of its own accord.  As the squares form
one chain, all of them meet the same squares, each once, and the scanned one
among them at one place.  Which place that is follows from the run: the tape
reaches to the left as far as the head ever went, so the scanned square stands
as many squares from its left end as the head is from its leftmost position.

* `Chain.texts_eq`         — the two texts of a tape, split at the scanned square;
* `Step.originPosition_eq` — a step leaves the left end of the tape, or goes to a new one;
* `isLeast_headAt`         — after any run the left end is where the head was leftmost;
* `renderings_agree`       — the main statement.
-/
import AutomaticMachine.Proofs.Textbook
import AutomaticMachine.Snapshot.Rendering
import Mathlib.Order.Bounds.Basic

namespace AutomaticMachine

/-- Symbols one after the other, with `_` in the place of blanks. -/
def Symbol.displayAll (symbols : List Symbol) : String :=
  String.join (symbols.map fun x => if x = "" then "_" else x)

namespace Tape

namespace Chain

variable {s : Snapshot} {l a b : List Nat} {i : Nat}

theorem squares_snapshot (h : s.tape.Chain l) (hh : s.head < s.tape.size) :
    s.squares = l.map fun k => (k, (s.tape.cellAt k).symbol) := by
  rw [Snapshot.squares, h.squares_eq hh]
  rfl

theorem tapeSymbols_snapshot (h : s.tape.Chain l) (hh : s.head < s.tape.size) :
    s.tapeSymbols = l.map fun k => (s.tape.cellAt k).symbol := by
  rw [Snapshot.tapeSymbols, h.squares_snapshot hh, List.map_map]
  rfl

theorem cursor_eq (h : s.tape.Chain l) (hh : s.head < s.tape.size) :
    s.cursor = l.idxOf s.head := by
  rw [Snapshot.cursor, h.position_eq hh]
  rfl

theorem originPosition_eq (h : s.tape.Chain l) (h0 : origin < s.tape.size) :
    s.originPosition = l.idxOf origin := by
  rw [Snapshot.originPosition, h.position_eq h0]
  rfl

/-- The texts of a tape whose chain is split at the scanned square. -/
theorem texts_eq (h : s.tape.Chain l) (hh : s.head < s.tape.size) (hs : l = a ++ s.head :: b) :
    s.tapeText = Symbol.displayAll (a.map fun k => (s.tape.cellAt k).symbol) ++
        Symbol.display (s.tape.cellAt s.head).symbol ++
        Symbol.displayAll (b.map fun k => (s.tape.cellAt k).symbol) ∧
      s.tapeTextWithCursor = Symbol.displayAll (a.map fun k => (s.tape.cellAt k).symbol) ++
        ("[" ++ Symbol.display (s.tape.cellAt s.head).symbol ++ "]") ++
        Symbol.displayAll (b.map fun k => (s.tape.cellAt k).symbol) := by
  have hnodup := h.nodup
  rw [hs, List.nodup_middle, List.nodup_cons, List.mem_append, not_or] at hnodup
  constructor
  · show Symbol.displayAll s.tapeSymbols = _
    rw [h.tapeSymbols_snapshot hh, hs, Symbol.displayAll, List.map_append, List.map_append,
      String.join_append, List.map_cons, List.map_cons, String.join_cons, String.append_assoc]
    rfl
  · have htext : s.tapeTextWithCursor = String.join (l.map fun k =>
        if k = s.head then "[" ++ Symbol.display (s.tape.cellAt k).symbol ++ "]"
        else Symbol.display (s.tape.cellAt k).symbol) := by
      rw [Snapshot.tapeTextWithCursor, h.squares_snapshot hh, List.map_map]
      rfl
    -- The scanned square is met once, so on both sides of it nothing is put in brackets.
    have hplain : ∀ m : List Nat, s.head ∉ m →
        String.join (m.map fun k =>
          if k = s.head then "[" ++ Symbol.display (s.tape.cellAt k).symbol ++ "]"
          else Symbol.display (s.tape.cellAt k).symbol) =
        Symbol.displayAll (m.map fun k => (s.tape.cellAt k).symbol) := by
      intro m hm
      rw [Symbol.displayAll, List.map_map]
      refine congrArg String.join (List.map_congr_left fun k hk => ?_)
      rw [if_neg (ne_of_mem_of_not_mem hk hm)]
      rfl
    rw [htext, ← hplain a hnodup.1.1, ← hplain b hnodup.1.2, hs, List.map_append,
      String.join_append, List.map_cons, String.join_cons, if_pos rfl, ← String.append_assoc]

end Chain

end Tape

/-! ### The left end of the tape -/

namespace Program

variable {p : Program} {s s' : Snapshot} {l : List Nat}

/-- An order leaves the left end of the tape where it is, or it goes to a new square there. -/
theorem originPosition_follow (hl : s.tape.Chain l) (h0 : Tape.origin < s.tape.size)
    (hh : s.head < s.tape.size) (o : Order) :
    (follow s o).originPosition = s.originPosition ∨
      (follow s o).originPosition = s.originPosition + 1 ∧ (follow s o).cursor = 0 := by
  have hmem : Tape.origin ∈ l := (hl.mem_iff _).mpr h0
  cases ho : o.operations with
  | nil =>
    left
    rw [Snapshot.originPosition, (follow_tape_of_nil ho).1]
    rfl
  | cons op rest =>
    obtain ⟨t', j, l', hop, he⟩ := hl.execute hh op
    obtain ⟨ht, hj⟩ := follow_tape_of_cons ho hop
    have hchain : (follow s o).tape.Chain l' := by rw [ht]; exact he.chain
    have hhead : (follow s o).head < (follow s o).tape.size := by rw [ht, hj]; exact he.head_lt
    have hstays : Tape.origin < (follow s o).tape.size := by
      rw [ht, ← he.chain.mem_iff]
      rcases he.kept_or_grown with ⟨rfl, -⟩ | ⟨d, -, rfl, -⟩
      · exact hmem
      · exact Direction.mem_extend.mpr (Or.inl hmem)
    rw [hchain.originPosition_eq hstays, hchain.cursor_eq hhead, hl.originPosition_eq h0, hj]
    rcases he.kept_or_grown with ⟨rfl, -⟩ | ⟨d, -, rfl, -, rfl, -⟩
    · exact Or.inl rfl
    · cases d with
      | left =>
        have hne : s.tape.size ≠ Tape.origin := (ne_of_mem_of_not_mem hmem hl.size_notMem).symm
        exact Or.inr ⟨List.idxOf_cons_ne _ hne, List.idxOf_cons_self⟩
      | right => exact Or.inl (List.idxOf_append_of_mem hmem)

theorem Step.originPosition_eq (hs : Step p s s') (hl : s.tape.Chain l)
    (h0 : Tape.origin < s.tape.size) (hh : s.head < s.tape.size) :
    s'.originPosition = s.originPosition ∨
      s'.originPosition = s.originPosition + 1 ∧ s'.cursor = 0 := by
  cases hs with
  | stay _ => exact Or.inl rfl
  | stop _ _ _ => exact Or.inl rfl
  | start _ _ r _ => exact originPosition_follow hl h0 hh _
  | resume _ op rest _ => exact originPosition_follow hl h0 hh _

end Program

namespace Textbook

variable {t : Table} {initial : String} {p : Program} {s : Snapshot} {m : State}

/-- The position of the head of the textbook machine after `k` steps. -/
def headAt (t : Table) (initial : String) (k : Nat) : Int :=
  ((step t)^[k] (start initial)).head

theorem Simulates.origin_lt (h : Simulates t p s m) : Tape.origin < s.tape.size := by
  obtain ⟨l, hl⟩ := h.shows
  exact (hl.chain.mem_iff _).mp hl.origin_mem

theorem Simulates.head_eq (h : Simulates t p s m) : m.head = s.cursor - s.originPosition := by
  obtain ⟨l, hl⟩ := h.shows
  rw [hl.chain.cursor_eq hl.head_lt, hl.chain.originPosition_eq h.origin_lt, ← hl.head_eq]
  rfl

/-- After any run the left end of the tape is where the head was leftmost. -/
theorem isLeast_headAt (hw : t.WellFormed initial) (n : Nat) :
    IsLeast {z | ∃ k ≤ n, headAt t initial k = z}
      (-(((t.resolved initial).step^[n] (t.resolved initial).start).originPosition : Int)) := by
  induction n with
  | zero =>
    have hzero : ∀ k ≤ 0, headAt t initial k = 0 := by
      intro k hk
      rw [Nat.le_zero.mp hk]
      rfl
    refine ⟨⟨0, Nat.le_refl 0, rfl⟩, ?_⟩
    rintro z ⟨k, hk, rfl⟩
    rw [hzero k hk]
    exact Int.neg_nonpos_of_nonneg (Int.natCast_nonneg _)
  | succ n ih =>
    obtain ⟨⟨k, hk, hleast⟩, hbound⟩ := ih
    have hsim := simulates_iterate hw n
    have hhead : headAt t initial (n + 1) = _ := (simulates_iterate hw (n + 1)).head_eq
    have hc := Program.consistent_iterate hw.closed_resolved n
    obtain ⟨l, hl⟩ := hc.chained
    have hstep := (Program.step_cases (t.resolved initial) _).originPosition_eq hl
      hsim.origin_lt hc.head_lt
    rw [← Function.iterate_succ_apply' (t.resolved initial).step] at hstep
    rcases hstep with hsame | ⟨hlonger, hcursor⟩
    · -- The left end is where it was, and the head is not to the left of it.
      rw [hsame] at hhead ⊢
      refine ⟨⟨k, Nat.le_succ_of_le hk, hleast⟩, ?_⟩
      rintro z ⟨k', hk', rfl⟩
      rcases Nat.lt_or_eq_of_le hk' with hk' | rfl
      · exact hbound ⟨k', Nat.le_of_lt_succ hk', rfl⟩
      · omega
    · -- The head is on a new left end.
      rw [hlonger, hcursor] at hhead
      rw [hlonger]
      refine ⟨⟨n + 1, Nat.le_refl _, by omega⟩, ?_⟩
      rintro z ⟨k', hk', rfl⟩
      rcases Nat.lt_or_eq_of_le hk' with hk' | rfl
      · have := hbound ⟨k', Nat.le_of_lt_succ hk', rfl⟩
        omega
      · omega

/-- **The renderings of a tape agree.**  After any number of steps of a program that was built, the
walk over the tape meets every square once and the scanned one at one place.  The texts are those
of the symbols before it, on it and after it, without and with brackets around the one in the
middle; and the place is how far the head is from its leftmost position so far. -/
theorem renderings_agree (hb : t.build initial = .ok p) (n : Nat) :
    let s := p.step^[n] p.start
    (∀ k, (p.step^[k] p.start).tape.coordinate (p.step^[k] p.start).head =
      .ok (headAt t initial k)) ∧
    ∃ (walked : List (Nat × Symbol)) (i : Nat) (x : Symbol) (least : Int),
      s.tape.squares s.head = .ok walked ∧ s.tapeSymbols = walked.map Prod.snd ∧
      s.tapeSymbols.length = s.tape.size ∧
      (∀ j, (walked.map Prod.fst)[j]? = some s.head ↔ j = i) ∧ s.tapeSymbols[i]? = some x ∧
      s.tapeText = Symbol.displayAll s.tapeSymbols ∧
      s.tapeText = Symbol.displayAll (s.tapeSymbols.take i) ++ x.display ++
        Symbol.displayAll (s.tapeSymbols.drop (i + 1)) ∧
      s.tapeTextWithCursor = Symbol.displayAll (s.tapeSymbols.take i) ++ ("[" ++ x.display ++ "]") ++
        Symbol.displayAll (s.tapeSymbols.drop (i + 1)) ∧
      IsLeast {z | ∃ k ≤ n, headAt t initial k = z} least ∧
      (i : Int) = headAt t initial n - least := by
  obtain ⟨hw, rfl⟩ := Table.build_eq_ok_iff.mp hb
  refine ⟨fun k => (simulates_iterate hw k).agrees.head_eq, ?_⟩
  have hleast := isLeast_headAt hw n
  have hhead : headAt t initial n = _ := (simulates_iterate hw n).head_eq
  have hc := Program.consistent_iterate hw.closed_resolved n
  generalize ((t.resolved initial).step^[n] (t.resolved initial).start) = s at *
  obtain ⟨l, hl⟩ := hc.chained
  obtain ⟨a, b, hs⟩ := List.append_of_mem ((hl.mem_iff _).mpr hc.head_lt)
  have hcursor : s.cursor = a.length := by
    rw [hl.cursor_eq hc.head_lt, Tape.idxOf_of_split hl.nodup hs]
  obtain ⟨htext, hbracketed⟩ := hl.texts_eq hc.head_lt hs
  have hsymbols : s.tapeSymbols = (a.map fun k => (s.tape.cellAt k).symbol) ++
      (s.tape.cellAt s.head).symbol :: (b.map fun k => (s.tape.cellAt k).symbol) := by
    rw [hl.tapeSymbols_snapshot hc.head_lt, hs, List.map_append, List.map_cons]
  have htake : s.tapeSymbols.take a.length = a.map fun k => (s.tape.cellAt k).symbol := by
    simp [hsymbols]
  have hdrop : s.tapeSymbols.drop (a.length + 1) = b.map fun k => (s.tape.cellAt k).symbol := by
    simp [hsymbols, List.drop_append]
  refine ⟨_, a.length, (s.tape.cellAt s.head).symbol, _, hl.squares_eq hc.head_lt, ?symbols,
    ?length, ?place, ?scanned, rfl, ?text, ?bracketed, hleast, ?cursor⟩
  case symbols => rw [hl.tapeSymbols_snapshot hc.head_lt, List.map_map]; rfl
  case length => rw [hl.tapeSymbols_snapshot hc.head_lt, List.length_map, hl.length_eq]
  case place =>
    intro j
    have hplace : l[a.length]? = some s.head := by simp [hs]
    have hlt : a.length < l.length := (List.getElem?_eq_some_iff.mp hplace).1
    rw [Tape.Chain.map_fst_squares, ← hplace, eq_comm, List.getElem?_inj hlt hl.nodup, eq_comm]
  case scanned => simp [hsymbols]
  case text => rw [htext, htake, hdrop]
  case bracketed => rw [hbracketed, htake, hdrop]
  case cursor =>
    rw [hhead, hcursor]
    omega

/-- A run goes two squares to the left of the origin, prints there and comes halfway back. -/
theorem renderings_agree_left_of_origin :
    let t : Table := {
      name := "left"
      configurations := [⟨"b", [⟨.none,
        [.print "x", .move .left, .move .left, .print "1", .move .right], Table.completeName⟩]⟩] }
    let p := t.resolved "b"
    let s := p.step^[5] p.start
    t.build "b" = .ok p ∧ s.tapeText = "1_x" ∧ s.tapeTextWithCursor = "1[_]x" ∧
      headAt t "b" 5 = -1 ∧ IsLeast {z | ∃ k ≤ 5, headAt t "b" k = z} (-2) := by
  intro t p s
  have hb : t.build "b" = .ok p := rfl
  have hwalk : s.tape.squares s.head = .ok [(2, "1"), (1, ""), (0, "x")] := by decide +kernel
  have hsymbols : s.tapeSymbols = ["1", "", "x"] := by decide +kernel
  have hhead : s.head = 1 := by decide +kernel
  have hposition : headAt t "b" 5 = -1 := by decide +kernel
  obtain ⟨-, walked, i, x, least, hwalked, -, -, hplace, hscanned, -, htext, hbracketed, hleast,
    hi⟩ := renderings_agree hb 5
  obtain rfl := Except.ok.inj (hwalk.symm.trans hwalked)
  obtain rfl : 1 = i := (hplace 1).mp (congrArg some hhead.symm)
  rw [hsymbols] at hscanned htext hbracketed
  obtain rfl : "" = x := Option.some.inj hscanned
  rw [hposition] at hi
  obtain rfl : least = -2 := by omega
  exact ⟨hb, htext.trans (by decide), hbracketed.trans (by decide), hposition, hleast⟩

end Textbook

end AutomaticMachine
