/-
Runs as runs by whole rules.

The interpreter of this file carries out a rule at once: `WholeRules.step` looks a rule up, does all
its operations and goes to its successor, so it never owes anything.  A run of a program takes a
step for each operation, and one for a rule without operations.  On its way through a rule nothing
that it scans matters, and at the end of each rule it shows what the interpreter shows.

* `Begins.iterate`                      — the snapshots on the way through a rule, by induction on
  the operations that are done;
* `Consistent.iterate_ruleSteps`        — at the end of the rule the interpreter has come as far;
* `pending_eq_nil_iff_exists_ruleTime`  — at no other time is nothing owed;
* `runs_by_whole_rules`                 — the main statement.
-/
import AutomaticMachine.Proofs.Snapshot.Invariant
import Mathlib.Order.Monotone.Basic

namespace AutomaticMachine

namespace WholeRules

/-- The state of the interpreter between two rules. -/
structure State where
  state : RunningState
  tape : Tape
  head : Nat
  /-- The configuration whose rule was carried out last. -/
  current : Nat
  next : Nat
  /-- The last operation of that rule, if it has operations. -/
  last : Option Operation
  /-- How many steps a machine takes that does one operation at a time. -/
  steps : Nat

def start (p : Program) : State where
  state := .paused
  tape := .new
  head := Tape.origin
  current := p.entry
  next := p.initial
  last := none
  steps := 0

/-- Carry out the rule for the scanned symbol, all of its operations one after the other.  Where
there is none the work is done. -/
def step (p : Program) (m : State) : Except StaleCell State := do
  match p.findRule? m.next (← m.tape.read m.head) with
  | some r =>
    let (tape, head) ← Operation.executeAll r.operations m.tape m.head
    return {
      state := .running
      tape, head
      current := m.next
      next := r.next
      last := r.operations.getLast?
      steps := m.steps + max 1 r.operations.length }
  | none => return { m with state := .completed }

/-- The state after so many rules. -/
def run (p : Program) : Nat → Except StaleCell State
  | 0 => return start p
  | n + 1 => do step p (← run p n)

/-- What a snapshot looks like that shows the same and owes nothing. -/
def State.snapshot (m : State) : Snapshot where
  state := m.state
  tape := m.tape
  head := m.head
  current := m.current
  pending := []
  next := m.next
  last := m.last
  steps := m.steps

variable {p : Program} {m : State} {x : Symbol}

theorem step_of_rule {r : Rule Nat} {t : Tape} {j : Nat} (hx : m.tape.read m.head = .ok x)
    (hr : p.findRule? m.next x = some r)
    (hops : Operation.executeAll r.operations m.tape m.head = .ok (t, j)) :
    step p m = .ok {
      state := .running
      tape := t
      head := j
      current := m.next
      next := r.next
      last := r.operations.getLast?
      steps := m.steps + max 1 r.operations.length } := by
  simp [step, hx, hr, hops, bind, Except.bind, pure, Except.pure]

theorem step_of_no_rule (hx : m.tape.read m.head = .ok x) (hr : p.findRule? m.next x = none) :
    step p m = .ok { m with state := .completed } := by
  simp [step, hx, hr, bind, Except.bind, pure, Except.pure]

end WholeRules

namespace Program

variable {p : Program} {s : Snapshot} {r : Rule Nat}

/-! ### On the way through a rule -/

/-- The next step begins a rule. -/
structure Begins (p : Program) (s : Snapshot) (r : Rule Nat) : Prop where
  not_completed : s.state ≠ .completed
  pending_eq : s.pending = []
  findRule?_eq : p.findRule? s.next s.symbol = some r

/-- A run is not over where a rule applies. -/
theorem Consistent.begins (hc : p.Consistent s) (hpend : s.pending = [])
    (hr : p.findRule? s.next s.symbol = some r) : p.Begins s r := by
  refine ⟨?_, hpend, hr⟩
  intro hs
  rw [(hc.stopped hs).2] at hr
  exact nomatch hr

/-- The snapshot after `i` steps of a rule that begins at `s`, given the tape and the scanned square
by then. -/
def within (s : Snapshot) (r : Rule Nat) (i : Nat) (t : Tape) (j : Nat) : Snapshot where
  state := .running
  tape := t
  head := j
  current := s.next
  pending := r.operations.drop i
  next := r.next
  last := (r.operations.take i).getLast?
  steps := s.steps + i

/-- Where `i` operations of the rule are done, following an order for the others does one more. -/
theorem follow_eq_within {s' : Snapshot} {i : Nat} (hc : p.Consistent s')
    (hi : i < max 1 r.operations.length) (hsteps : s'.steps = s.steps + i)
    (hops : Operation.executeAll (r.operations.take i) s.tape s.head = .ok (s'.tape, s'.head)) :
    ∃ t j, Operation.executeAll (r.operations.take (i + 1)) s.tape s.head = .ok (t, j) ∧
      follow s' ⟨s.next, r.operations.drop i, r.next⟩ = within s r (i + 1) t j := by
  obtain ⟨l, hl⟩ := hc.chained
  have hlast : (r.operations.take (i + 1)).getLast? = (r.operations.drop i).head? := by
    rw [List.head?_drop, List.getLast?_take]
    cases hops : r.operations with
    | nil => simp
    | cons op rest =>
      have hlt : i < (op :: rest).length := by
        rw [hops] at hi
        simpa using hi
      simp [List.getElem?_eq_getElem hlt]
  have hops' : Operation.executeAll (r.operations.take (i + 1)) s.tape s.head =
      .ok ((follow s' ⟨s.next, r.operations.drop i, r.next⟩).tape,
        (follow s' ⟨s.next, r.operations.drop i, r.next⟩).head) := by
    rw [List.take_add_one, ← List.head?_drop, Operation.executeAll_append hops]
    exact executeAll_follow hl hc.head_lt ⟨s.next, r.operations.drop i, r.next⟩
  refine ⟨_, _, hops', ?_⟩
  rw [within, hlast, ← List.tail_drop, ← Nat.add_assoc, ← hsteps]
  rfl

/-- After `i` steps of a rule, of which there is one at least, `i` of its operations are done. -/
theorem Begins.iterate (hp : p.Closed) (hc : p.Consistent s) (hb : p.Begins s r) {i : Nat}
    (hpos : 1 ≤ i) (hi : i ≤ max 1 r.operations.length) :
    ∃ t j, Operation.executeAll (r.operations.take i) s.tape s.head = .ok (t, j) ∧
      p.step^[i] s = within s r i t j := by
  induction i, hpos using Nat.le_induction with
  | base =>
    have hstep : p.step s = follow s ⟨s.next, r.operations.drop 0, r.next⟩ :=
      (Step.start hb.not_completed hb.pending_eq r hb.findRule?_eq).eq_step.symm
    obtain ⟨t, j, hops, hfollow⟩ := follow_eq_within hc hi rfl rfl
    exact ⟨t, j, hops, hstep.trans hfollow⟩
  | succ i hpos ih =>
    obtain ⟨t, j, hops, hwithin⟩ := ih (by omega)
    have hlt : i < r.operations.length := by omega
    have hpend : (within s r i t j).pending = r.operations[i] :: r.operations.drop (i + 1) :=
      List.drop_eq_getElem_cons hlt
    -- The rule is not done, so the step does not look at the scanned symbol.
    have hstep : p.step (within s r i t j) =
        follow (within s r i t j) ⟨s.next, r.operations.drop i, r.next⟩ := by
      rw [List.drop_eq_getElem_cons hlt]
      exact (Step.resume (by simp [within]) _ _ hpend).eq_step.symm
    have hc' : p.Consistent (within s r i t j) := by
      rw [← hwithin]
      exact hc.iterate hp i
    obtain ⟨t', j', hops', hfollow⟩ := follow_eq_within hc' hi rfl hops
    refine ⟨t', j', hops', ?_⟩
    rw [Function.iterate_succ_apply', hwithin, hstep, hfollow]

/-- At the end of a rule all its operations are done and nothing is owed. -/
theorem Begins.iterate_max (hp : p.Closed) (hc : p.Consistent s) (hb : p.Begins s r) :
    ∃ t j, Operation.executeAll r.operations s.tape s.head = .ok (t, j) ∧
      p.step^[max 1 r.operations.length] s = {
        state := .running
        tape := t
        head := j
        current := s.next
        pending := []
        next := r.next
        last := r.operations.getLast?
        steps := s.steps + max 1 r.operations.length } := by
  have hall : r.operations.length ≤ max 1 r.operations.length := by omega
  have h := hb.iterate hp hc (by omega) (Nat.le_refl _)
  simpa only [within, List.take_of_length_le hall, List.drop_of_length_le hall] using h

/-- Before the end of a rule the operations are owed that are not done. -/
theorem Begins.pending_iterate (hp : p.Closed) (hc : p.Consistent s) (hb : p.Begins s r) {i : Nat}
    (hpos : 0 < i) (hi : i < r.operations.length) :
    (p.step^[i] s).pending = r.operations.drop i := by
  obtain ⟨t, j, -, hwithin⟩ := hb.iterate hp hc hpos (by omega)
  rw [hwithin]
  rfl

/-! ### From rule to rule -/

/-- How many steps are taken from a snapshot on where nothing is owed until nothing is owed again.
-/
def ruleSteps (p : Program) (s : Snapshot) : Nat :=
  match p.findRule? s.next s.symbol with
  | some r => max 1 r.operations.length
  | none => 1

theorem ruleSteps_pos (p : Program) (s : Snapshot) : 0 < p.ruleSteps s := by
  rw [ruleSteps]
  split <;> omega

/-- Where no rule applies the run is over with the next step, if it was not before. -/
theorem step_of_findRule?_eq_none (hpend : s.pending = [])
    (hr : p.findRule? s.next s.symbol = none) : p.step s = { s with state := .completed } := by
  by_cases hs : s.state = .completed
  · rw [step_of_completed hs, ← hs]
  · exact (Step.stop hs hpend hr).eq_step.symm

/-- The interpreter does at once what a run does from one snapshot that owes nothing to the
next. -/
theorem Consistent.iterate_ruleSteps (hp : p.Closed) {m : WholeRules.State}
    (hc : p.Consistent m.snapshot) :
    ∃ m', WholeRules.step p m = .ok m' ∧
      p.step^[p.ruleSteps m.snapshot] m.snapshot = m'.snapshot := by
  have hread : m.tape.read m.head = .ok m.snapshot.symbol := Snapshot.read_eq hc.head_lt
  cases hr : p.findRule? m.snapshot.next m.snapshot.symbol with
  | none =>
    refine ⟨_, WholeRules.step_of_no_rule hread hr, ?_⟩
    rw [ruleSteps, hr]
    exact step_of_findRule?_eq_none rfl hr
  | some r =>
    have hb : p.Begins m.snapshot r := hc.begins rfl hr
    obtain ⟨t, j, hops, hend⟩ := hb.iterate_max hp hc
    refine ⟨_, WholeRules.step_of_rule hread hr hops, ?_⟩
    rw [ruleSteps, hr]
    exact hend

theorem Consistent.pending_ne_nil (hp : p.Closed) (hc : p.Consistent s) (hpend : s.pending = [])
    {i : Nat} (hpos : 0 < i) (hi : i < p.ruleSteps s) : (p.step^[i] s).pending ≠ [] := by
  rw [ruleSteps] at hi
  split at hi
  · rename_i r hr
    have hlt : i < r.operations.length := by omega
    rw [(hc.begins hpend hr).pending_iterate hp hc hpos hlt]
    simpa using hlt
  · omega

/-- After how many steps a run has come to the end of so many rules. -/
def ruleTime (p : Program) : Nat → Nat
  | 0 => 0
  | n + 1 => p.ruleTime n + p.ruleSteps (p.step^[p.ruleTime n] p.start)

theorem ruleTime_strictMono (p : Program) : StrictMono p.ruleTime :=
  strictMono_nat_of_lt_succ fun n =>
    Nat.lt_add_of_pos_right (p.ruleSteps_pos (p.step^[p.ruleTime n] p.start))

/-- At the end of so many rules the interpreter has carried out as many. -/
theorem iterate_ruleTime (hp : p.Closed) (n : Nat) :
    ∃ m, WholeRules.run p n = .ok m ∧ p.step^[p.ruleTime n] p.start = m.snapshot := by
  induction n with
  | zero => exact ⟨_, rfl, rfl⟩
  | succ n ih =>
    obtain ⟨m, hm, hsnapshot⟩ := ih
    have hc : p.Consistent m.snapshot := hsnapshot ▸ consistent_iterate hp (p.ruleTime n)
    obtain ⟨m', hm', hend⟩ := hc.iterate_ruleSteps hp
    refine ⟨m', ?_, ?_⟩
    · rw [WholeRules.run, hm]
      exact hm'
    · rw [ruleTime, hsnapshot, Nat.add_comm, Function.iterate_add_apply, hsnapshot, hend]

theorem exists_ruleTime_le (p : Program) (k : Nat) :
    ∃ n, p.ruleTime n ≤ k ∧ k < p.ruleTime (n + 1) := by
  induction k with
  | zero => exact ⟨0, Nat.le_refl 0, p.ruleTime_strictMono Nat.zero_lt_one⟩
  | succ k ih =>
    obtain ⟨n, hle, hlt⟩ := ih
    rcases Nat.lt_or_ge (k + 1) (p.ruleTime (n + 1)) with h | h
    · exact ⟨n, by omega, h⟩
    · have hnext : p.ruleTime (n + 1) < p.ruleTime (n + 1 + 1) :=
        p.ruleTime_strictMono (Nat.lt_succ_self (n + 1))
      exact ⟨n + 1, h, by omega⟩

theorem pending_eq_nil_iff_exists_ruleTime (hp : p.Closed) (k : Nat) :
    (p.step^[k] p.start).pending = [] ↔ ∃ n, p.ruleTime n = k := by
  constructor
  · intro hpend
    obtain ⟨n, hle, hlt⟩ := p.exists_ruleTime_le k
    refine ⟨n, Decidable.byContradiction ?_⟩
    intro hne
    -- Otherwise the run is on its way through a rule.
    obtain ⟨i, rfl⟩ := Nat.exists_eq_add_of_le' hle
    obtain ⟨m, -, hsnapshot⟩ := iterate_ruleTime hp n
    rw [Function.iterate_add_apply] at hpend
    refine (consistent_iterate hp (p.ruleTime n)).pending_ne_nil hp ?_ ?_ ?_ hpend
    · rw [hsnapshot]
      rfl
    · omega
    · rw [ruleTime] at hlt
      omega
  · rintro ⟨n, rfl⟩
    obtain ⟨m, -, hsnapshot⟩ := iterate_ruleTime hp n
    rw [hsnapshot]
    rfl

/-- **A run is a run by whole rules.**  A rule that begins takes as many steps as it has operations,
one if it has none, and then all of them are done and nothing is owed; before that the operations
are owed that are not done.  So the snapshots of a run that owe nothing are those of the interpreter
that carries out whole rules, one for each of its states and in the same order. -/
theorem runs_by_whole_rules {t : Table} {initial : String} (hb : t.build initial = .ok p) :
    (∀ n r, let s := p.step^[n] p.start
      s.state ≠ .completed → s.pendingOperations? = none →
      p.findRule? s.next s.symbol = some r →
      (∃ tape head, Operation.executeAll r.operations s.tape s.head = .ok (tape, head) ∧
        p.step^[max 1 r.operations.length] s = {
          state := .running
          tape, head
          current := s.next
          pending := []
          next := r.next
          last := r.operations.getLast?
          steps := s.steps + max 1 r.operations.length }) ∧
      ∀ i, 0 < i → i < r.operations.length →
        (p.step^[i] s).pendingOperations? = some (r.operations.drop i)) ∧
    (∀ s : Snapshot, (∃ k, p.step^[k] p.start = s ∧ s.pendingOperations? = none) ↔
      ∃ n m, WholeRules.run p n = .ok m ∧ m.snapshot = s) ∧
    ∃ time : Nat → Nat, StrictMono time ∧
      (∀ n, ∃ m, WholeRules.run p n = .ok m ∧ p.step^[time n] p.start = m.snapshot) ∧
      ∀ k, (p.step^[k] p.start).pendingOperations? = none ↔ ∃ n, time n = k := by
  have hp := Table.closed_of_build hb
  have htime : ∀ k, (p.step^[k] p.start).pendingOperations? = none ↔ ∃ n, p.ruleTime n = k :=
    fun k => Snapshot.pendingOperations?_eq_none_iff.trans (pending_eq_nil_iff_exists_ruleTime hp k)
  refine ⟨?rule, ?snapshots, p.ruleTime, p.ruleTime_strictMono, iterate_ruleTime hp, htime⟩
  case rule =>
    intro n r s hs hpend hr
    have hc : p.Consistent s := consistent_iterate hp n
    have hbegins : p.Begins s r :=
      ⟨hs, Snapshot.pendingOperations?_eq_none_iff.mp hpend, hr⟩
    refine ⟨hbegins.iterate_max hp hc, ?_⟩
    intro i hpos hi
    rw [Snapshot.pendingOperations?_eq, hbegins.pending_iterate hp hc hpos hi, if_neg]
    simpa using hi
  case snapshots =>
    intro s
    constructor
    · rintro ⟨k, rfl, hpend⟩
      obtain ⟨n, rfl⟩ := (htime k).mp hpend
      obtain ⟨m, hm, hsnapshot⟩ := iterate_ruleTime hp n
      exact ⟨n, m, hm, hsnapshot.symm⟩
    · rintro ⟨n, m, hm, rfl⟩
      obtain ⟨m', hm', hsnapshot⟩ := iterate_ruleTime hp n
      obtain rfl : m' = m := Except.ok.inj (hm'.symm.trans hm)
      exact ⟨p.ruleTime n, hsnapshot, Snapshot.pendingOperations?_eq_none_iff.mpr rfl⟩

/-- The third rule of this run erases two squares.  Half-way its operations are owed in part, and
after it the interpreter shows what the run shows. -/
theorem runs_by_whole_rules_eraseCells :
    let p := Catalogue.eraseCells.resolved "e"
    let s := p.step^[3] p.start
    Catalogue.eraseCells.build "e" = .ok p ∧
      s.state = .running ∧ s.pendingOperations? = none ∧
      p.findRule? s.next s.symbol =
        some ⟨.symbol "0", [.erase, .move .left, .erase], p.complete⟩ ∧
      (p.step^[2] s).pendingOperations? = some [.erase] ∧
      ∃ n m, WholeRules.run p n = .ok m ∧ m.snapshot = p.step^[6] p.start := by
  intro p s
  have hb : Catalogue.eraseCells.build "e" = .ok p := rfl
  have hr : p.findRule? s.next s.symbol =
      some ⟨.symbol "0", [.erase, .move .left, .erase], p.complete⟩ := by
    decide +kernel
  obtain ⟨hrule, hsnapshots, -⟩ := runs_by_whole_rules hb
  have hstate : s.state = .running := by
    decide +kernel
  have hpend : s.pendingOperations? = none := by
    decide +kernel
  have hend : (p.step^[6] p.start).pendingOperations? = none := by
    decide +kernel
  obtain ⟨-, howed⟩ := hrule 3 _ (by rw [hstate]; decide) hpend hr
  exact ⟨hb, hstate, hpend, hr, howed 2 (by decide) (by decide), (hsnapshots _).mp ⟨6, rfl, hend⟩⟩

end Program

end AutomaticMachine
