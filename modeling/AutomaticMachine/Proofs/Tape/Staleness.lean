/-
A stale number is the only thing that a tape session fails on.

Whoever works on a tape keeps the numbers of its squares.  When a copy has
been taken back, such a number may name a square that stands somewhere else,
or none.  In the latter case, and in no other, a request fails: it reports how
many squares there are and the number that it was asked about.

A function from tape to tape leaves nothing behind where it fails.  So that
something could be left, `InPlace` has the operations as changes to one tape,
made in the order in which squares are looked up, added and linked; what has
been changed before a failure stays changed.  Nothing has been: a number is
looked up before a square is added.

* `InPlace.run_execute`            — operations in place do what the functions do, and nothing
  where they fail;
* `Chain.exists_walk`              — a walk of any length stays on the tape and ends for want of a
  neighbour;
* `Session.perform_eq_error_iff`   — a request fails just if its number is stale;
* `Session.fails_only_if_stale`    — the main statement, after any requests.
-/
import AutomaticMachine.Proofs.Tape.Session

namespace AutomaticMachine

namespace Tape

/-! ### Changing a tape in place -/

/-- Work on one tape: what has been changed before a failure stays changed. -/
abbrev InPlace := EStateM StaleCell Tape

namespace InPlace

/-- Look a square up. -/
def look (i : Nat) : InPlace Cell := do
  MonadExcept.ofExcept ((← get).cell i)

/-- Change a square. -/
def change (i : Nat) (f : Cell → Cell) : InPlace Unit := do
  set (← MonadExcept.ofExcept ((← get).modify i f))

/-- Add a square; gives its number. -/
def add (c : Cell) : InPlace Nat :=
  modifyGet fun t => (t.size, ⟨t.arena.push c⟩)

def print (i : Nat) (s : Symbol) : InPlace Nat := do
  change i fun c => { c with symbol := s }
  return i

def move (d : Direction) (i : Nat) : InPlace Nat := do
  match (← look i).neighbour d with
  | some j => return j
  | none =>
    let fresh ← add (Cell.link {} d.opposite i)
    change i (Cell.link · d fresh)
    return fresh

/-- Carry out an operation; gives the square scanned afterwards. -/
def execute : Operation → Nat → InPlace Nat
  | .print s, i => print i s
  | .erase, i => print i Symbol.blank
  | .move d, i => move d i

variable {t : Tape} {i : Nat}

theorem run_look (h : i < t.size) : (look i).run t = .ok (t.cellAt i) t := by
  show (MonadExcept.ofExcept (t.cell i) : InPlace Cell).run t = _
  rw [cell_eq h]
  rfl

theorem run_look_of_le (h : t.size ≤ i) : (look i).run t = .error ⟨t.size, i⟩ t := by
  show (MonadExcept.ofExcept (t.cell i) : InPlace Cell).run t = _
  rw [cell_of_le h]
  rfl

theorem run_change (f : Cell → Cell) (h : i < t.size) :
    (change i f).run t = .ok () (t.adjust i f) := by
  show (do set (← MonadExcept.ofExcept (t.modify i f)) : InPlace Unit).run t = _
  rw [modify_eq f h]
  rfl

theorem run_change_of_le (f : Cell → Cell) (h : t.size ≤ i) :
    (change i f).run t = .error ⟨t.size, i⟩ t := by
  show (do set (← MonadExcept.ofExcept (t.modify i f)) : InPlace Unit).run t = _
  rw [modify_of_le f h]
  rfl

theorem run_print (s : Symbol) (h : i < t.size) : (print i s).run t = .ok i (t.printed i s) := by
  rw [print, EStateM.run_bind, run_change _ h]
  rfl

theorem run_print_of_le (s : Symbol) (h : t.size ≤ i) :
    (print i s).run t = .error ⟨t.size, i⟩ t := by
  rw [print, EStateM.run_bind, run_change_of_le _ h]

theorem run_move_of_some {d : Direction} {j : Nat} (h : i < t.size)
    (hj : (t.cellAt i).neighbour d = some j) : (move d i).run t = .ok j t := by
  rw [move, EStateM.run_bind, run_look h]
  simp only [hj]
  rfl

theorem run_move_of_none {d : Direction} (h : i < t.size)
    (hn : (t.cellAt i).neighbour d = none) : (move d i).run t = .ok t.size (t.grow d i) := by
  have hlt := lt_size_push (Cell.link {} d.opposite i) h
  rw [move, EStateM.run_bind, run_look h]
  simp only [hn]
  show (change i (Cell.link · d t.size) >>= fun _ => pure t.size).run
    ⟨t.arena.push (Cell.link {} d.opposite i)⟩ = _
  rw [EStateM.run_bind, run_change _ hlt]
  rfl

/-- The number is looked up before a square is added. -/
theorem run_move_of_le (d : Direction) (h : t.size ≤ i) :
    (move d i).run t = .error ⟨t.size, i⟩ t := by
  rw [move, EStateM.run_bind, run_look_of_le h]

/-- In place, an operation that succeeds does what the function does, and one that fails has done
nothing. -/
theorem run_execute (op : Operation) (t : Tape) (i : Nat) :
    (execute op i).run t =
      match op.execute t i with
      | .ok (t', j) => .ok j t'
      | .error e => .error e t := by
  rcases Nat.lt_or_ge i t.size with hi | hi
  · cases op with
    | print s =>
      rw [Operation.execute_of_written? (s := s) rfl hi]
      exact run_print s hi
    | erase =>
      rw [Operation.execute_of_written? (s := Symbol.blank) rfl hi]
      exact run_print Symbol.blank hi
    | move d =>
      rw [Operation.execute_move]
      cases hd : (t.cellAt i).neighbour d with
      | some j =>
        rw [move_of_some hi hd]
        exact run_move_of_some hi hd
      | none =>
        rw [move_of_none hi hd]
        exact run_move_of_none hi hd
  · rw [Operation.execute_of_le op hi]
    cases op with
    | print s => exact run_print_of_le s hi
    | erase => exact run_print_of_le Symbol.blank hi
    | move d => exact run_move_of_le d hi

end InPlace

/-! ### Walks -/

variable {t t' : Tape} {l : List Nat} {i j n : Nat}

theorem walk_of_le (d : Direction) (hn : 0 < n) (h : t.size ≤ i) :
    t.walk d n i = .error ⟨t.size, i⟩ := by
  obtain ⟨n, rfl⟩ : ∃ m, n = m + 1 := ⟨n - 1, by omega⟩
  rw [walk, neighbour_of_le d h]
  rfl

namespace Chain

/-- However far it is to go, a walk leads from square to square of the tape. -/
theorem exists_walk_lt (h : t.Chain l) (d : Direction) (n : Nat) (hi : i < t.size) :
    ∃ j, t.walk d n i = .ok j ∧ j < t.size := by
  induction n generalizing i with
  | zero => exact ⟨i, rfl, hi⟩
  | succ n ih =>
    cases hd : (t.cellAt i).neighbour d with
    | some j =>
      rw [walk_succ_of_some n hi hd]
      exact ih (h.neighbour_lt hi hd)
    | none => exact ⟨i, walk_succ_of_none n hi hd, hi⟩

/-- A walk stays on the tape.  One that may go as far as there are squares ends where there is no
further one. -/
theorem exists_walk (h : t.Chain l) (d : Direction) (n : Nat) (hi : i < t.size) :
    ∃ j, t.walk d n i = .ok j ∧ j < t.size ∧ (t.size ≤ n → t.neighbour d j = .ok none) := by
  obtain ⟨j, hj, hlt⟩ := h.exists_walk_lt d n hi
  refine ⟨j, hj, hlt, ?_⟩
  intro hn
  have hne : d.along l ≠ [] :=
    List.ne_nil_of_mem (Direction.mem_along.mpr ((h.mem_iff i).mpr hi))
  obtain ⟨front, e, hs⟩ := (List.eq_nil_or_concat' (d.along l)).resolve_left hne
  have hlast : (d.along l).getLast? = some e := by rw [hs]; simp
  obtain rfl : e = j := Except.ok.inj ((h.walk_eq_last hi hn hlast).symm.trans hj)
  rw [Tape.neighbour_eq d hlt, (h.neighbour_eq_none_iff hlt).mpr ⟨front, hs⟩]

end Chain

/-! ### Requests -/

/-- What operations keep of a tape: its squares form a chain, and the origin is one of them. -/
structure Sound (t : Tape) : Prop where
  chain : ∃ l, t.Chain l
  origin_lt : origin < t.size

theorem sound_new : Tape.new.Sound where
  chain := ⟨_, chain_new⟩
  origin_lt := Nat.zero_lt_one

theorem Sound.execute {op : Operation} (h : t.Sound) (hop : op.execute t i = .ok (t', j)) :
    t'.Sound := by
  obtain ⟨l, hl⟩ := h.chain
  obtain ⟨l', he⟩ := hl.effect_of_execute hop
  exact ⟨⟨l', he.chain⟩, Nat.lt_of_lt_of_le h.origin_lt he.size_le⟩

/-- The square that a request is about, if it is about one. -/
def Request.square? : Request → Option Nat
  | .execute _ i | .read i | .neighbour _ i | .leftmost i | .squares i => some i
  | .origin | .size | .isEmpty | .save | .restore _ | .equals _ => none

/-- The request is about a square of the tape, or about none. -/
def Request.InRange (r : Request) (t : Tape) : Prop := ∀ i, r.square? = some i → i < t.size

theorem Request.not_inRange_iff {r : Request} :
    ¬ r.InRange t ↔ ∃ i, r.square? = some i ∧ t.size ≤ i := by
  simp [InRange]

/-- The squares that a reply names. -/
def Reply.named : Reply → List Nat
  | .square i => [i]
  | .neighbour i => i.toList
  | .squares l => l.map Prod.fst
  | .symbol _ | .count _ | .flag _ | .slot _ | .done => []

namespace Session

variable {s : Session} {r : Request}

theorem perform_of_le (h : s.tape.Sound) (hr : r.square? = some i) (hi : s.tape.size ≤ i) :
    s.perform r = .error ⟨s.tape.size, i⟩ := by
  have hleft : s.tape.leftmost i = .error ⟨s.tape.size, i⟩ := walk_of_le .left h.origin_lt hi
  cases r with
  | execute op k =>
    obtain rfl : k = i := Option.some.inj hr
    rw [perform, Operation.execute_of_le op hi]
    rfl
  | read k =>
    obtain rfl : k = i := Option.some.inj hr
    rw [perform, read_of_le hi]
    rfl
  | neighbour d k =>
    obtain rfl : k = i := Option.some.inj hr
    rw [perform, neighbour_of_le d hi]
    rfl
  | leftmost k =>
    obtain rfl : k = i := Option.some.inj hr
    rw [perform, hleft]
    rfl
  | squares k =>
    obtain rfl : k = i := Option.some.inj hr
    rw [perform, Tape.squares, hleft]
    rfl
  | origin | size | isEmpty | save | restore _ | equals _ => simp [Request.square?] at hr

/-- A request is met unless its number is stale, and its reply names squares of the tape. -/
theorem exists_perform (h : s.tape.Sound) (hr : r.InRange s.tape) :
    ∃ reply s', s.perform r = .ok (reply, s') ∧ ∀ k ∈ reply.named, k < s'.tape.size := by
  obtain ⟨l, hl⟩ := h.chain
  cases r with
  | execute op i =>
    obtain ⟨t', j, l', hop, he⟩ := hl.execute (hr i rfl) op
    refine ⟨.square j, { s with tape := t' }, by rw [perform, hop]; rfl, ?_⟩
    intro k hk
    rw [List.mem_singleton.mp hk]
    exact he.head_lt
  | read i =>
    refine ⟨_, s, by rw [perform, read_eq (hr i rfl)]; rfl, ?_⟩
    exact fun k hk => absurd hk List.not_mem_nil
  | neighbour d i =>
    refine ⟨_, s, by rw [perform, Tape.neighbour_eq d (hr i rfl)]; rfl, ?_⟩
    intro k hk
    exact hl.neighbour_lt (hr i rfl) (Option.mem_toList.mp hk)
  | leftmost i =>
    obtain ⟨j, hj, hlt⟩ := hl.exists_walk_lt .left s.tape.size (hr i rfl)
    have hleft : s.tape.leftmost i = .ok j := hj
    refine ⟨.square j, s, by rw [perform, hleft]; rfl, ?_⟩
    intro k hk
    rwa [List.mem_singleton.mp hk]
  | squares i =>
    refine ⟨_, s, by rw [perform, hl.squares_eq (hr i rfl)]; rfl, ?_⟩
    intro k hk
    rw [Reply.named, Chain.map_fst_squares] at hk
    exact (hl.mem_iff k).mp hk
  | origin =>
    refine ⟨.square Tape.origin, s, rfl, ?_⟩
    intro k hk
    rw [List.mem_singleton.mp hk]
    exact h.origin_lt
  | size | isEmpty | save | restore _ | equals _ =>
    exact ⟨_, _, rfl, fun k hk => absurd hk List.not_mem_nil⟩

theorem perform_eq_error_iff (h : s.tape.Sound) (e : StaleCell) :
    s.perform r = .error e ↔
      ∃ i, r.square? = some i ∧ s.tape.size ≤ i ∧ e = ⟨s.tape.size, i⟩ := by
  constructor
  · intro he
    by_cases hr : r.InRange s.tape
    · obtain ⟨reply, s', hok, -⟩ := exists_perform h hr
      rw [hok] at he
      exact nomatch he
    · obtain ⟨i, hi, hle⟩ := Request.not_inRange_iff.mp hr
      have he' := perform_of_le h hi hle
      exact ⟨i, hi, hle, Except.error.inj (he.symm.trans he')⟩
  · rintro ⟨i, hi, hle, rfl⟩
    exact perform_of_le h hi hle

theorem named_lt (h : s.tape.Sound) {reply : Reply} {s' : Session}
    (hr : s.perform r = .ok (reply, s')) : ∀ k ∈ reply.named, k < s'.tape.size := by
  have hrange : r.InRange s.tape := by
    intro i hi
    refine Nat.lt_of_not_le ?_
    intro hle
    rw [perform_of_le h hi hle] at hr
    exact nomatch hr
  obtain ⟨reply', s'', hr', hnamed⟩ := exists_perform h hrange
  obtain ⟨rfl, rfl⟩ := Prod.mk.inj (Except.ok.inj (hr'.symm.trans hr))
  exact hnamed

/-! ### Sessions -/

theorem performAll_append (s : Session) (front rest : List Request) :
    (s.performAll (front ++ rest)).2 = ((s.performAll front).2.performAll rest).2 := by
  induction front generalizing s with
  | nil => rfl
  | cons r front ih =>
    rw [List.cons_append, performAll, performAll]
    cases hr : s.perform r with
    | error e => exact ih s
    | ok p => exact ih p.2

theorem performAll_concat_of_error {requests : List Request} {e : StaleCell}
    (hr : (s.performAll requests).2.perform r = .error e) :
    (s.performAll (requests ++ [r])).2 = (s.performAll requests).2 := by
  rw [performAll_append, performAll, hr]
  rfl

theorem performAll_concat_of_ok {requests : List Request} {reply : Reply} {s' : Session}
    (hr : (s.performAll requests).2.perform r = .ok (reply, s')) :
    (s.performAll (requests ++ [r])).2 = s' := by
  rw [performAll_append, performAll, hr]
  rfl

/-- **A tape session fails on stale numbers only.**  After any requests, a further one fails just if
it is about a square with a number that the tape does not reach.  It reports the size of the tape
and the number, and it leaves the tape and the copies as they were, also where the operations
change the tape in place.  A request that is met names squares of the tape that it leaves, and on
the way to them no walk ever leaves the tape. -/
theorem fails_only_if_stale (requests : List Request) :
    let s := (({} : Session).performAll requests).2
    (∀ r e, s.perform r = .error e ↔
      ∃ i, r.square? = some i ∧ s.tape.size ≤ i ∧ e = ⟨s.tape.size, i⟩) ∧
    (∀ r e, s.perform r = .error e → (({} : Session).performAll (requests ++ [r])).2 = s) ∧
    (∀ r reply s', s.perform r = .ok (reply, s') →
      (({} : Session).performAll (requests ++ [r])).2 = s' ∧
        ∀ k ∈ reply.named, k < s'.tape.size) ∧
    (∀ d n i, i < s.tape.size → ∃ j, s.tape.walk d n i = .ok j ∧ j < s.tape.size ∧
      (s.tape.size ≤ n → s.tape.neighbour d j = .ok none)) ∧
    ∀ op i, (InPlace.execute op i).run s.tape =
      match op.execute s.tape i with
      | .ok (t', j) => .ok j t'
      | .error e => .error e s.tape := by
  intro s
  have hs : s.tape.Sound := ((each_new sound_new).performAll Sound.execute requests).tape
  refine ⟨fun r => perform_eq_error_iff hs, fun r e => performAll_concat_of_error, ?met, ?walks,
    fun op i => InPlace.run_execute op s.tape i⟩
  case met =>
    intro r reply s' hr
    exact ⟨performAll_concat_of_ok hr, named_lt hs hr⟩
  case walks =>
    intro d n i hi
    obtain ⟨l, hl⟩ := hs.chain
    exact hl.exists_walk d n hi

/-- After the copy has been taken back, square 1 on the right of the origin is no more, and the
request for it changes nothing.  A move to the left makes a new square of that number. -/
theorem fails_only_if_stale_restored :
    let requests : List Request := [.save, .execute (.move .right) 0, .restore 0]
    let s := (({} : Session).performAll requests).2
    s.perform (.execute (.move .right) 1) = .error ⟨1, 1⟩ ∧
      (({} : Session).performAll (requests ++ [.execute (.move .right) 1])).2 = s ∧
      (InPlace.execute (.move .right) 1).run s.tape = .error ⟨1, 1⟩ s.tape ∧
      ∃ s', s.perform (.execute (.move .left) 0) = .ok (.square 1, s') ∧ 1 < s'.tape.size := by
  intro requests s
  obtain ⟨hfails, hkept, hmet, -, hplace⟩ := fails_only_if_stale requests
  have hstale : s.perform (.execute (.move .right) 1) = .error ⟨1, 1⟩ :=
    (hfails _ _).mpr ⟨1, rfl, Nat.le_refl 1, rfl⟩
  obtain ⟨s', hmoved⟩ : ∃ s', s.perform (.execute (.move .left) 0) = .ok (.square 1, s') :=
    ⟨_, rfl⟩
  refine ⟨hstale, hkept _ _ hstale, hplace (.move .right) 1, s', hmoved, ?_⟩
  exact (hmet _ _ _ hmoved).2 1 (List.mem_singleton.mpr rfl)

end Session

end Tape

end AutomaticMachine
