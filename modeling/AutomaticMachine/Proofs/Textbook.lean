/-
The textbook machine, and runs of programs as runs of it.

The machine of the textbooks works on the declared table as it stands: its
tape is a line of squares without ends, its head is an integer, and it knows
configurations by name only.  It has no numbers, no links and no squares that
come into being.  A run of the program of a table shows at every step what the
textbook machine does:

* `Simulates.step`           — one step of either keeps them side by side;
* `simulates_iterate`        — so do any number of steps;
* `run_agrees_with_textbook` — the main statement, on everything that can be seen.
-/
import AutomaticMachine.Proofs.Snapshot.Invariant
import AutomaticMachine.Proofs.Tape.Coordinates

namespace AutomaticMachine

namespace Textbook

/-- The state of the textbook machine between two steps. -/
structure State where
  cells : Int → Symbol
  head : Int
  state : RunningState
  /-- The name of the configuration whose rule is being carried out, or was last. -/
  current : String
  /-- The name of the configuration that follows when nothing is owed. -/
  next : String
  queue : List Operation
  last : Option Operation
  steps : Nat

/-- The machine on a blank line. -/
def start (initial : String) : State where
  cells _ := Symbol.blank
  head := 0
  state := .paused
  current := Table.beginName
  next := initial
  queue := []
  last := none
  steps := 0

/-- Do the first of some operations, if there is one, and owe the others. -/
def State.carryOut (m : State) (current next : String) (operations : List Operation) : State where
  cells := operations.head?.elim m.cells fun op => (op.act m.cells m.head).1
  head := operations.head?.elim m.head fun op => (op.act m.cells m.head).2
  state := .running
  current := current
  next := next
  queue := operations.tail
  last := operations.head?
  steps := m.steps + 1

/-- One step by the table.  What is owed comes first, whatever is scanned; then the first rule
declared for the next configuration and the scanned symbol; and where there is none the machine
has completed its work. -/
def step (t : Table) (m : State) : State :=
  match m.queue with
  | op :: rest => m.carryOut m.current m.next (op :: rest)
  | [] =>
    match t.ruleFor? m.next (m.cells m.head) with
    | some r => m.carryOut m.next r.next r.operations
    | none => { m with state := .completed }

theorem step_of_queue {t : Table} {m : State} {op : Operation} {rest : List Operation}
    (hq : m.queue = op :: rest) : step t m = m.carryOut m.current m.next (op :: rest) := by
  simp [step, hq]

theorem step_of_rule {t : Table} {m : State} {r : Rule String} (hq : m.queue = [])
    (hr : t.ruleFor? m.next (m.cells m.head) = some r) :
    step t m = m.carryOut m.next r.next r.operations := by
  simp [step, hq, hr]

theorem step_of_no_rule {t : Table} {m : State} (hq : m.queue = [])
    (hr : t.ruleFor? m.next (m.cells m.head) = none) :
    step t m = { m with state := .completed } := by
  simp [step, hq, hr]

/-- A snapshot of a run and a state of the textbook machine show the same. -/
structure Agrees (p : Program) (s : Snapshot) (m : State) : Prop where
  origin_eq : s.tape.coordinate Tape.origin = .ok 0
  right_eq : ∀ i j, s.tape.neighbour .right i = .ok (some j) →
    ∃ z, s.tape.coordinate i = .ok z ∧ s.tape.coordinate j = .ok (z + 1)
  /-- The symbol on a square is the one at its position. -/
  symbol_eq : ∀ i, i < s.tape.size →
    ∃ z, s.tape.coordinate i = .ok z ∧ s.tape.read i = .ok (m.cells z)
  /-- Where the tape has no square the line is blank. -/
  blank_elsewhere : ∀ z, (∀ i, s.tape.coordinate i ≠ .ok z) → m.cells z = Symbol.blank
  head_eq : s.tape.coordinate s.head = .ok m.head
  state_eq : s.state = m.state
  current_eq : (p.configuration? s.current).map (·.name) = some m.current
  next_eq : (p.configuration? s.next).map (·.name) = some m.next
  pending_eq : s.pendingOperations? = if m.queue = [] then none else some m.queue
  last_eq : s.last = m.last
  steps_eq : s.steps = m.steps

/-- The relation behind the agreement: the tape is a window on the line, and numbers are those of
names that stand for configurations. -/
structure Simulates (t : Table) (p : Program) (s : Snapshot) (m : State) : Prop where
  shows : ∃ l, s.tape.Shows l s.head m.cells m.head
  state_eq : s.state = m.state
  current_eq : (p.configuration? s.current).map (·.name) = some m.current
  next_eq : s.next = t.number m.next
  declares : t.Declares m.next
  pending_eq : s.pending = m.queue
  last_eq : s.last = m.last
  steps_eq : s.steps = m.steps

variable {t : Table} {initial : String} {p : Program} {s : Snapshot} {m : State}

theorem simulates_start (hw : t.WellFormed initial) :
    Simulates t (t.resolved initial) (t.resolved initial).start (start initial) where
  shows := ⟨_, Tape.shows_new⟩
  state_eq := rfl
  current_eq := Table.name_entry
  next_eq := rfl
  declares := hw.start
  pending_eq := rfl
  last_eq := rfl
  steps_eq := rfl

theorem Simulates.symbol_eq (h : Simulates t p s m) : s.symbol = m.cells m.head := by
  obtain ⟨l, hl⟩ := h.shows
  rw [Snapshot.symbol_eq hl.head_lt, hl.visited _ hl.head_mem, hl.head_eq]

/-- Following an order is carrying out its operations. -/
theorem Simulates.follow (h : Simulates t p s m) {i : Nat} {current next : String}
    (hi : (p.configuration? i).map (·.name) = some current) (hn : t.Declares next)
    (operations : List Operation) :
    Simulates t p (Program.follow s ⟨i, operations, t.number next⟩)
      (m.carryOut current next operations) := by
  obtain ⟨l, hl⟩ := h.shows
  have hshows : ∃ l', (Program.follow s ⟨i, operations, t.number next⟩).tape.Shows l'
      (Program.follow s ⟨i, operations, t.number next⟩).head
      (m.carryOut current next operations).cells (m.carryOut current next operations).head := by
    cases operations with
    | nil =>
      obtain ⟨ht, hh⟩ := Program.follow_tape_of_nil (s := s) (o := ⟨i, [], t.number next⟩) rfl
      rw [ht, hh]
      exact ⟨l, hl⟩
    | cons op rest =>
      obtain ⟨t', j, l', hop, hl'⟩ := hl.execute op
      obtain ⟨ht, hh⟩ :=
        Program.follow_tape_of_cons (o := ⟨i, op :: rest, t.number next⟩) rfl hop
      rw [ht, hh]
      exact ⟨l', hl'⟩
  exact {
    shows := hshows
    state_eq := rfl
    current_eq := hi
    next_eq := rfl
    declares := hn
    pending_eq := rfl
    last_eq := rfl
    steps_eq := congrArg (· + 1) h.steps_eq }

theorem Simulates.step (hw : t.WellFormed initial)
    (h : Simulates t (t.resolved initial) s m) (hc : (t.resolved initial).Consistent s) :
    Simulates t (t.resolved initial) ((t.resolved initial).step s) (step t m) := by
  have hrule := @Table.findRule?_number t initial _ h.declares (m.cells m.head)
  have hstep := Program.step_cases (t.resolved initial) s
  generalize (t.resolved initial).step s = s' at hstep
  cases hstep with
  | stay hs =>
    -- The textbook machine does not ask whether it is over: it looks for a rule and finds none.
    obtain ⟨hpend, hr⟩ := hc.stopped hs
    rw [h.next_eq, h.symbol_eq, hrule, Option.map_eq_none_iff] at hr
    rw [step_of_no_rule (h.pending_eq.symm.trans hpend) hr]
    exact { h with state_eq := hs }
  | stop hs hpend hr =>
    rw [h.next_eq, h.symbol_eq, hrule, Option.map_eq_none_iff] at hr
    rw [step_of_no_rule (h.pending_eq.symm.trans hpend) hr]
    exact { h with state_eq := rfl }
  | start hs hpend r hr =>
    rw [h.next_eq, h.symbol_eq, hrule] at hr
    obtain ⟨r', hr', rfl⟩ := Option.map_eq_some_iff.mp hr
    rw [step_of_rule (h.pending_eq.symm.trans hpend) hr']
    -- The rule that is found is the declared one, with the number of its successor.
    refine h.follow ?_ (hw.declares_next hr') r'.operations
    rw [h.next_eq]
    exact Table.name_number h.declares
  | resume hs op rest hpend =>
    rw [step_of_queue (h.pending_eq.symm.trans hpend), h.next_eq]
    exact h.follow h.current_eq h.declares (op :: rest)

theorem simulates_iterate (hw : t.WellFormed initial) (n : Nat) :
    Simulates t (t.resolved initial) ((t.resolved initial).step^[n] (t.resolved initial).start)
      ((step t)^[n] (start initial)) := by
  induction n with
  | zero => exact simulates_start hw
  | succ n ih =>
    rw [Function.iterate_succ_apply', Function.iterate_succ_apply']
    exact ih.step hw (Program.consistent_iterate hw.closed_resolved n)

theorem Simulates.agrees (h : Simulates t (t.resolved initial) s m) :
    Agrees (t.resolved initial) s m := by
  obtain ⟨l, hl⟩ := h.shows
  have h0 : Tape.origin < s.tape.size := (hl.chain.mem_iff _).mp hl.origin_mem
  have hcoord : ∀ i, i < s.tape.size → s.tape.coordinate i = .ok (Tape.coordinateIn l i) :=
    fun i hi => hl.chain.coordinate_eq h0 hi
  exact {
    origin_eq := by rw [hcoord _ h0, Tape.coordinateIn_origin]
    right_eq := fun i j hj => by
      obtain ⟨hi, hj⟩ := Tape.lt_of_neighbour hj
      obtain ⟨a, b, hs⟩ := (hl.chain.neighbour_eq_some_iff hi).mp hj
      refine ⟨_, hcoord i hi, ?_⟩
      rw [hcoord j (hl.chain.neighbour_lt hi hj), Tape.coordinateIn_next hl.chain.nodup hs]
      rfl
    symbol_eq := fun i hi => by
      refine ⟨_, hcoord i hi, ?_⟩
      rw [Tape.read_eq hi, hl.visited i ((hl.chain.mem_iff i).mpr hi)]
    blank_elsewhere := fun z hz => hl.unvisited z fun i hi he =>
      hz i (by rw [hcoord i ((hl.chain.mem_iff i).mp hi), he])
    head_eq := by rw [hcoord _ hl.head_lt, hl.head_eq]
    state_eq := h.state_eq
    current_eq := h.current_eq
    next_eq := by
      rw [h.next_eq]
      exact Table.name_number h.declares
    pending_eq := by rw [Snapshot.pendingOperations?_eq, h.pending_eq]
    last_eq := h.last_eq
    steps_eq := h.steps_eq }

/-- **A run of a program is a run of the textbook machine.**  After any number of steps the
snapshot of a program that was built agrees with the state of the textbook machine that works on
the declared table. -/
theorem run_agrees_with_textbook (hb : t.build initial = .ok p) (n : Nat) :
    Agrees p (p.step^[n] p.start) ((step t)^[n] (start initial)) := by
  obtain ⟨hw, rfl⟩ := Table.build_eq_ok_iff.mp hb
  exact (simulates_iterate hw n).agrees

/-- After five steps the run has gone right and back left, and owes another operation. -/
theorem run_agrees_with_textbook_eraseCells :
    let t := Catalogue.eraseCells
    let p := t.resolved "e"
    t.build "e" = .ok p ∧ (p.step^[5] p.start).pending = [.erase] ∧
      Agrees p (p.step^[5] p.start) ((step t)^[5] (start "e")) := by
  have hb : Catalogue.eraseCells.build "e" = .ok (Catalogue.eraseCells.resolved "e") := rfl
  exact ⟨hb, rfl, run_agrees_with_textbook hb 5⟩

end Textbook

end AutomaticMachine
