/-
Changes of symbols and directions that a machine does not notice.

A `Symmetry` replaces symbols, directions and matchers so that every matcher
tells the same symbols apart as before.  Carried over to tapes, tables,
programs and snapshots it commutes with all that a machine does:

* `Symmetry.execute_tape`    — operations on a tape, also where they fail;
* `Symmetry.step_snapshot`   — a step, and so every run (`Symmetry.iterate_step`);
* `Symmetry.build_table`     — building a program;
* `Symmetry.lint_program`    — the findings about it, which stay the same;
* `Symmetry.chain_tape`      — the order of the squares, which is turned round where the
  directions are.
-/
import AutomaticMachine.Program.Lint
import AutomaticMachine.Proofs.Lint.Reachable
import AutomaticMachine.Snapshot.Rendering

namespace AutomaticMachine

/-- Replacements of symbols, directions and matchers that fit together. -/
structure Symmetry where
  symbol : Symbol → Symbol
  direction : Direction → Direction
  matcher : Matcher → Matcher
  symbol_blank : symbol Symbol.blank = Symbol.blank
  direction_opposite : ∀ d, direction d.opposite = (direction d).opposite
  matcher_none : matcher .none = .none
  accepts_iff : ∀ m s, (matcher m).Accepts (symbol s) ↔ m.Accepts s
  covers_eq : ∀ m m', (matcher m).covers (matcher m') = m.covers m'
  isEmptySet_eq : ∀ m, (matcher m).isEmptySet = m.isEmptySet

namespace Symmetry

variable {σ : Symmetry}

/-! ### Tapes -/

/-- The square with its symbol replaced, and its neighbours where their directions lead. -/
def cell (σ : Symmetry) (c : Cell) : Cell where
  symbol := σ.symbol c.symbol
  left := c.neighbour (σ.direction .left)
  right := c.neighbour (σ.direction .right)

def tape (σ : Symmetry) (t : Tape) : Tape := ⟨t.arena.map σ.cell⟩

def operation (σ : Symmetry) : Operation → Operation
  | .print s => .print (σ.symbol s)
  | .erase => .erase
  | .move d => .move (σ.direction d)

/-- Opposites stay opposites, so either all directions stay or all are turned round. -/
theorem direction_cases (σ : Symmetry) :
    (∀ d, σ.direction d = d) ∨ ∀ d, σ.direction d = d.opposite := by
  have hright : σ.direction .right = (σ.direction .left).opposite := σ.direction_opposite .left
  cases hleft : σ.direction .left with
  | left =>
    refine Or.inl ?_
    intro d
    cases d with
    | left => exact hleft
    | right => simp [hright, hleft, Direction.opposite]
  | right =>
    refine Or.inr ?_
    intro d
    cases d with
    | left => exact hleft
    | right => simp [hright, hleft]

@[simp] theorem direction_direction (d : Direction) : σ.direction (σ.direction d) = d := by
  rcases σ.direction_cases with hd | hd <;> simp [hd]

theorem neighbour_cell (c : Cell) (d : Direction) :
    (σ.cell c).neighbour d = c.neighbour (σ.direction d) := by
  cases d <;> rfl

theorem cell_default : σ.cell {} = {} := by
  simp [cell, σ.symbol_blank]

theorem cell_link (c : Cell) (d : Direction) (i : Nat) :
    σ.cell (c.link d i) = (σ.cell c).link (σ.direction d) i := by
  rcases σ.direction_cases with hd | hd <;>
    cases d <;> simp [cell, hd, Cell.link, Cell.neighbour, Direction.opposite]

@[simp] theorem size_tape (t : Tape) : (σ.tape t).size = t.size :=
  Array.size_map

theorem tape_new : σ.tape .new = .new := by
  simp [tape, Tape.new, cell_default]

theorem cellAt_tape (t : Tape) (i : Nat) : (σ.tape t).cellAt i = σ.cell (t.cellAt i) := by
  rw [Tape.cellAt, Tape.cellAt, tape, Array.getElem?_map]
  cases t.arena[i]? with
  | none => exact cell_default.symm
  | some c => rfl

theorem read_tape (t : Tape) (i : Nat) : (σ.tape t).read i = σ.symbol <$> t.read i := by
  rcases Nat.lt_or_ge i t.size with hi | hi
  · rw [Tape.read_eq hi, Tape.read_eq (by simpa using hi), cellAt_tape]
    rfl
  · rw [Tape.read_of_le hi, Tape.read_of_le (by simpa using hi), size_tape]
    rfl

theorem neighbour_tape (t : Tape) (d : Direction) (i : Nat) :
    (σ.tape t).neighbour d i = t.neighbour (σ.direction d) i := by
  rcases Nat.lt_or_ge i t.size with hi | hi
  · rw [Tape.neighbour_eq _ hi, Tape.neighbour_eq _ (by simpa using hi), cellAt_tape,
      neighbour_cell]
  · rw [Tape.neighbour_of_le _ hi, Tape.neighbour_of_le _ (by simpa using hi), size_tape]

/-- Changes of a square that correspond lead to tapes that correspond. -/
theorem adjust_tape {f g : Cell → Cell} (h : ∀ c, g (σ.cell c) = σ.cell (f c)) (t : Tape)
    (i : Nat) : (σ.tape t).adjust i g = σ.tape (t.adjust i f) := by
  have hcells : (t.arena.map σ.cell).modify i g = (t.arena.modify i f).map σ.cell := by
    apply Array.ext
    · simp
    · intro k hk hk'
      rw [Array.getElem_modify, Array.getElem_map, Array.getElem_map, Array.getElem_modify]
      split
      · exact h _
      · rfl
  exact congrArg Tape.mk hcells

theorem printed_tape (t : Tape) (i : Nat) (s : Symbol) :
    (σ.tape t).printed i (σ.symbol s) = σ.tape (t.printed i s) := by
  refine adjust_tape ?_ t i
  intro c
  simp [cell, Cell.neighbour]

theorem grow_tape (t : Tape) (d : Direction) (i : Nat) :
    (σ.tape t).grow (σ.direction d) i = σ.tape (t.grow d i) := by
  have hfresh : Cell.link {} (σ.direction d).opposite i = σ.cell (Cell.link {} d.opposite i) := by
    rw [cell_link, cell_default, σ.direction_opposite]
  have hpush : (⟨(σ.tape t).arena.push (Cell.link {} (σ.direction d).opposite i)⟩ : Tape) =
      σ.tape ⟨t.arena.push (Cell.link {} d.opposite i)⟩ := by
    rw [hfresh, tape, tape, Array.map_push]
  rw [Tape.grow, Tape.grow, hpush, size_tape]
  refine adjust_tape ?_ _ i
  intro c
  rw [cell_link]

theorem written?_operation (op : Operation) :
    (σ.operation op).written? = op.written?.map σ.symbol := by
  cases op with
  | print s => rfl
  | erase => simp [operation, Operation.written?, σ.symbol_blank]
  | move d => rfl

/-- An operation comes to the same as before, also where it fails. -/
theorem execute_tape (op : Operation) (t : Tape) (i : Nat) :
    (σ.operation op).execute (σ.tape t) i = Prod.map σ.tape id <$> op.execute t i := by
  rcases Nat.lt_or_ge i t.size with hi | hi
  · have hi' : i < (σ.tape t).size := by simpa using hi
    -- A write changes one square; a move goes to a neighbour, or makes one where there is none.
    rcases op.writes_or_moves with ⟨s, hs⟩ | ⟨d, rfl⟩
    · have hs' : (σ.operation op).written? = some (σ.symbol s) := by
        rw [written?_operation, hs]
        rfl
      rw [Operation.execute_of_written? hs hi, Operation.execute_of_written? hs' hi',
        printed_tape]
      rfl
    · have hneighbour : ((σ.tape t).cellAt i).neighbour (σ.direction d) =
          (t.cellAt i).neighbour d := by
        rw [cellAt_tape, neighbour_cell, direction_direction]
      rw [operation, Operation.execute_move, Operation.execute_move]
      cases hd : (t.cellAt i).neighbour d with
      | some j =>
        rw [Tape.move_of_some hi hd, Tape.move_of_some hi' (hneighbour.trans hd)]
        rfl
      | none =>
        rw [Tape.move_of_none hi hd, Tape.move_of_none hi' (hneighbour.trans hd), grow_tape,
          size_tape]
        rfl
  · -- Neither tape has the square, and both say so.
    rw [Operation.execute_of_le _ hi, Operation.execute_of_le _ (by simpa using hi), size_tape]
    rfl

/-! ### Tables and programs -/

def rule {ν : Type} (σ : Symmetry) (r : Rule ν) : Rule ν where
  matcher := σ.matcher r.matcher
  operations := r.operations.map σ.operation
  next := r.next

def configuration {ν : Type} (σ : Symmetry) (c : Configuration ν) : Configuration ν where
  name := c.name
  rules := c.rules.map σ.rule

def table (σ : Symmetry) (t : Table) : Table where
  name := t.name
  configurations := t.configurations.map σ.configuration

def program (σ : Symmetry) (p : Program) : Program :=
  { p with configurations := p.configurations.map σ.configuration }

theorem findRule?_configuration {ν : Type} (c : Configuration ν) (s : Symbol) :
    (σ.configuration c).findRule? (σ.symbol s) = (c.findRule? s).map σ.rule := by
  have haccepts : (fun r : Rule ν => decide ((σ.rule r).matcher.Accepts (σ.symbol s))) =
      fun r => decide (r.matcher.Accepts s) := by
    funext r
    exact decide_eq_decide.mpr (σ.accepts_iff r.matcher s)
  rw [Configuration.findRule?, Configuration.findRule?, configuration, List.find?_map]
  exact congrArg (fun accepts => (c.rules.find? accepts).map σ.rule) haccepts

theorem configuration?_program (p : Program) (i : Nat) :
    (σ.program p).configuration? i = (p.configuration? i).map σ.configuration :=
  List.getElem?_map

theorem configurationName_program (p : Program) (i : Nat) :
    (σ.program p).configurationName i = p.configurationName i := by
  rw [Program.configurationName, Program.configurationName, configuration?_program,
    Option.map_map]
  rfl

theorem findRule?_program (p : Program) (i : Nat) (s : Symbol) :
    (σ.program p).findRule? i (σ.symbol s) = (p.findRule? i s).map σ.rule := by
  rw [Program.findRule?, Program.findRule?, configuration?_program]
  cases p.configuration? i with
  | none => rfl
  | some c => exact findRule?_configuration c s

/-! ### Building -/

variable {t : Table} {initial : String} {p : Program}

theorem names_table (t : Table) : (σ.table t).names = t.names :=
  Table.names_eq_of_map rfl fun _ => rfl

theorem withComplete_table (t : Table) :
    (σ.table t).withComplete = t.withComplete.map σ.configuration :=
  Table.withComplete_eq_of_map rfl (fun _ => rfl) rfl

theorem number_table (t : Table) : (σ.table t).number = t.number :=
  Table.number_eq_of_map (f := σ.configuration) rfl (fun _ => rfl) rfl

theorem resolved_table (t : Table) (initial : String) :
    (σ.table t).resolved initial = σ.program (t.resolved initial) := by
  have hconfigurations : (σ.table t).withComplete.map (·.map t.number) =
      (t.withComplete.map (·.map t.number)).map σ.configuration := by
    rw [withComplete_table, List.map_map, List.map_map]
    refine List.map_congr_left ?_
    intro c _
    simp [configuration, Configuration.map, rule, Rule.map, Function.comp_def]
  -- The synthetic configuration is about a blank square, and blanks stay.
  have hentry : σ.rule (ν := Nat) ⟨.none, [], t.number initial⟩ = ⟨.none, [], t.number initial⟩ := by
    simp [rule, σ.matcher_none]
  rw [Table.resolved, Table.resolved, program, number_table, hconfigurations, withComplete_table]
  simp [configuration, hentry, table]

theorem wellFormed_table (h : t.WellFormed initial) : (σ.table t).WellFormed initial where
  start := (Table.declares_congr (names_table t)).mpr h.start
  distinct := by
    rw [names_table]
    exact h.distinct
  closed c hc r hr := by
    obtain ⟨d, hd, rfl⟩ := List.mem_map.mp hc
    obtain ⟨e, he, rfl⟩ := List.mem_map.mp hr
    exact (Table.declares_congr (names_table t)).mpr (h.closed d hd e he)
  nonempty c hc r hr := by
    obtain ⟨d, hd, rfl⟩ := List.mem_map.mp hc
    obtain ⟨e, he, rfl⟩ := List.mem_map.mp hr
    exact (σ.isEmptySet_eq e.matcher).trans (h.nonempty d hd e he)

theorem build_table (h : t.build initial = .ok p) :
    (σ.table t).build initial = .ok (σ.program p) := by
  obtain ⟨hw, rfl⟩ := Table.build_eq_ok_iff.mp h
  rw [(wellFormed_table hw).build_eq, resolved_table]

/-! ### Findings -/

theorem successors_program (p : Program) (i : Nat) :
    (σ.program p).successors i = p.successors i := by
  rw [Program.successors, Program.successors, configuration?_program]
  cases p.configuration? i with
  | none => rfl
  | some c => simp [configuration, rule, Function.comp_def]

theorem unreachable_program (p : Program) : (σ.program p).unreachable = p.unreachable := by
  have hlen : (σ.program p).configurations.length = p.configurations.length := by
    simp [program]
  have hname : (σ.program p).configurationName = p.configurationName :=
    funext (configurationName_program p)
  rw [Program.unreachable, Program.unreachable, Program.unreached, Program.unreached, hlen, hname,
    Program.unvisitedFrom_congr (successors_program p)]
  rfl

theorem shadowedIn_configuration (c : Configuration Nat) :
    Program.shadowedIn (σ.configuration c) = Program.shadowedIn c := by
  have hcovering : ∀ rules : List (Rule Nat), ∀ m,
      Program.firstCovering? (rules.map σ.rule) (σ.matcher m) = Program.firstCovering? rules m := by
    intro rules m
    rw [Program.firstCovering?, Program.firstCovering?, List.findIdx?_map]
    simp [rule, Function.comp_def, σ.covers_eq]
  simp only [Program.shadowedIn, configuration, List.zipIdx_map, List.filterMap_map,
    ← List.map_take, Function.comp_def, Prod.map, rule, hcovering]
  rfl

/-- The findings about a program stay the same. -/
theorem lint_program (p : Program) : (σ.program p).lint = p.lint := by
  have hshadowed : (σ.program p).shadowed = p.shadowed := by
    rw [Program.shadowed, Program.shadowed, program, List.flatMap_map]
    exact List.flatMap_congr fun c _ => shadowedIn_configuration c
  rw [Program.lint, Program.lint, unreachable_program, hshadowed]

/-! ### Runs -/

def order (σ : Symmetry) (o : Program.Order) : Program.Order :=
  { o with operations := o.operations.map σ.operation }

def snapshot (σ : Symmetry) (s : Snapshot) : Snapshot :=
  { s with
    tape := σ.tape s.tape
    pending := s.pending.map σ.operation
    last := s.last.map σ.operation }

theorem symbol_snapshot (s : Snapshot) : (σ.snapshot s).symbol = σ.symbol s.symbol := by
  rw [Snapshot.symbol, Snapshot.symbol, snapshot, read_tape]
  cases s.tape.read s.head with
  | error e => exact σ.symbol_blank.symm
  | ok x => rfl

theorem follow_snapshot (s : Snapshot) (o : Program.Order) :
    Program.follow (σ.snapshot s) (σ.order o) = σ.snapshot (Program.follow s o) := by
  obtain ⟨configuration, operations, next⟩ := o
  cases operations with
  | nil => rfl
  | cons op rest =>
    have hexecute : (σ.operation op).execute (σ.snapshot s).tape (σ.snapshot s).head =
        Prod.map σ.tape id <$> op.execute s.tape s.head := execute_tape op s.tape s.head
    simp only [Program.follow, order, List.map_cons, hexecute]
    cases op.execute s.tape s.head with
    | error e => rfl
    | ok r => rfl

theorem order?_snapshot (p : Program) (s : Snapshot) :
    (σ.program p).order? (σ.snapshot s) = (p.order? s).map σ.order := by
  by_cases hs : s.pending = []
  · have hs' : (σ.snapshot s).pending = [] := congrArg (List.map σ.operation) hs
    have hnext : (σ.snapshot s).next = s.next := rfl
    rw [Program.order?_of_pending_eq_nil hs, Program.order?_of_pending_eq_nil hs', symbol_snapshot,
      hnext, findRule?_program, Option.map_map, Option.map_map]
    rfl
  · have hs' : (σ.snapshot s).pending ≠ [] := fun h => hs (List.map_eq_nil_iff.mp h)
    rw [Program.order?_of_pending_ne_nil hs, Program.order?_of_pending_ne_nil hs']
    rfl

theorem step_snapshot (p : Program) (s : Snapshot) :
    (σ.program p).step (σ.snapshot s) = σ.snapshot (p.step s) := by
  have horder : Option.Rel (fun o o' => o' = σ.order o) (p.order? s)
      ((σ.program p).order? (σ.snapshot s)) := by
    rw [order?_snapshot]
    cases p.order? s with
    | none => exact .none
    | some o => exact .some rfl
  refine Program.step_related (S := fun s s' => s' = σ.snapshot s) rfl rfl horder ?_ rfl
  rintro o _ rfl
  exact follow_snapshot s o

/-- **A run goes as before**, on the replaced symbols and in the replaced directions. -/
theorem iterate_step (p : Program) (n : Nat) :
    (σ.program p).step^[n] (σ.program p).start = σ.snapshot (p.step^[n] p.start) := by
  induction n with
  | zero =>
    show (σ.program p).start = σ.snapshot p.start
    rw [Program.start, Program.start, snapshot, tape_new]
    rfl
  | succ n ih =>
    rw [Function.iterate_succ_apply', Function.iterate_succ_apply', ih, step_snapshot]

/-! ### The order of the squares -/

theorem along_direction (d : Direction) (l : List Nat) :
    d.along ((σ.direction .right).along l) = (σ.direction d).along l := by
  rcases σ.direction_cases with hd | hd <;> cases d <;>
    simp [hd, Direction.along, Direction.opposite]

theorem chain_tape {t : Tape} {l : List Nat} (h : t.Chain l) :
    (σ.tape t).Chain ((σ.direction .right).along l) where
  nodup := by simpa using h.nodup
  mem_iff := by simpa using h.mem_iff
  next d i a b hs := by
    rw [along_direction] at hs
    rw [cellAt_tape, neighbour_cell, h.next _ _ _ _ hs]

/-- The symbols on the tape are replaced, and in the replaced order. -/
theorem tapeSymbols_snapshot {s : Snapshot} (h : p.Consistent s) :
    (σ.snapshot s).tapeSymbols = (σ.direction .right).along (s.tapeSymbols.map σ.symbol) := by
  obtain ⟨l, hl⟩ := h.chained
  have hhead : (σ.snapshot s).head < (σ.tape s.tape).size := by
    rw [size_tape]
    exact h.head_lt
  have hsquares := hl.squares_eq h.head_lt
  have hsquares' : (σ.snapshot s).tape.squares (σ.snapshot s).head = _ :=
    (chain_tape hl).squares_eq hhead
  rw [Snapshot.tapeSymbols, Snapshot.tapeSymbols, Snapshot.squares, Snapshot.squares, hsquares,
    hsquares', Except.toOption, Except.toOption]
  simp only [Option.getD_some, List.map_map, Direction.map_along, cellAt_tape]
  rfl

/-- The second snapshot shows the first one with the replacements, under the same numbers and names
of configurations. -/
structure Image (σ : Symmetry) (p q : Program) (s s' : Snapshot) : Prop where
  size_eq : s'.tape.size = s.tape.size
  read_eq : ∀ i, s'.tape.read i = σ.symbol <$> s.tape.read i
  neighbour_eq : ∀ d i, s'.tape.neighbour d i = s.tape.neighbour (σ.direction d) i
  tapeSymbols_eq : s'.tapeSymbols = (σ.direction .right).along (s.tapeSymbols.map σ.symbol)
  head_eq : s'.head = s.head
  state_eq : s'.state = s.state
  steps_eq : s'.steps = s.steps
  current_eq : s'.current = s.current
  next_eq : s'.next = s.next
  name_eq : ∀ i, q.configurationName i = p.configurationName i
  pending_eq : s'.pending = s.pending.map σ.operation
  last_eq : s'.last = s.last.map σ.operation

/-- A table with the replacements is accepted as well, with the same findings, and its run shows
the run of the table. -/
theorem run_table (h : t.build initial = .ok p) :
    ∃ q, (σ.table t).build initial = .ok q ∧ q.lint = p.lint ∧
      ∀ n, σ.Image p q (p.step^[n] p.start) (q.step^[n] q.start) := by
  refine ⟨σ.program p, build_table h, lint_program p, ?_⟩
  intro n
  rw [iterate_step]
  exact {
    size_eq := size_tape _
    read_eq := read_tape _
    neighbour_eq := neighbour_tape _
    tapeSymbols_eq :=
      tapeSymbols_snapshot (Program.consistent_iterate (Table.closed_of_build h) n)
    head_eq := rfl
    state_eq := rfl
    steps_eq := rfl
    current_eq := rfl
    next_eq := rfl
    name_eq := configurationName_program p
    pending_eq := rfl
    last_eq := rfl }

end Symmetry

end AutomaticMachine
