/-
What holds of every snapshot of a run.

The fields of a snapshot say more than they hold one by one: together they
record how much of which rule has been carried out, although the rule itself
is not stored.  `Program.Consistent` states this; it holds at the start
(`consistent_start`), each of the four kinds of step keeps it
(`Step.consistent`), and so it holds along every run (`consistent_iterate`).
The main statement, `run_coherent`, says it without the chain of squares.
-/
import AutomaticMachine.Catalogue
import AutomaticMachine.Proofs.Snapshot.Step
import AutomaticMachine.Proofs.Table.Resolution
import Mathlib.Logic.Function.Iterate

namespace AutomaticMachine

namespace Program

variable {p : Program} {s s' : Snapshot}

/-- The snapshot stands in the middle or at the end of a rule of its current configuration: some
of the rule's operations are done, the last of them in the last step, and the others are owed.
A rule that has operations has begun with one of them. -/
def CarriesOut (p : Program) (s : Snapshot) : Prop :=
  ∃ c r done, p.configuration? s.current = some c ∧ r ∈ c.rules ∧ r.next = s.next ∧
    r.operations = done ++ s.pending ∧ (r.operations ≠ [] → done ≠ []) ∧ s.last = done.getLast?

/-- What ties the fields of a snapshot to each other and to the program. -/
structure Consistent (p : Program) (s : Snapshot) : Prop where
  chained : ∃ l, s.tape.Chain l
  head_lt : s.head < s.tape.size
  current_le : s.current ≤ p.entry
  next_lt : s.next < p.entry
  paused_iff : s.state = .paused ↔ s.steps = 0 ∧ s.state ≠ .completed
  entry_iff : s.current = p.entry ↔ s.steps = 0
  /-- Before the first step nothing is owed, and after it a rule has been begun. -/
  pending_of_zero : s.steps = 0 → s.pending = []
  carriesOut : 0 < s.steps → p.CarriesOut s
  /-- A run is over only where no rule applies. -/
  stopped : s.state = .completed → s.pending = [] ∧ p.findRule? s.next s.symbol = none

theorem consistent_start (hp : p.Closed) : p.Consistent p.start where
  chained := ⟨_, Tape.chain_new⟩
  head_lt := Nat.zero_lt_one
  current_le := Nat.le_refl _
  next_lt := hp.initial_lt
  paused_iff := by simp [start, RunningState.initial]
  entry_iff := by simp [start]
  pending_of_zero _ := rfl
  carriesOut h := absurd h (Nat.lt_irrefl 0)
  stopped h := by simp [start, RunningState.initial] at h

theorem exists_of_findRule? {i : Nat} {x : Symbol} {r : Rule Nat}
    (h : p.findRule? i x = some r) :
    ∃ c, p.configuration? i = some c ∧ r ∈ c.rules ∧ r.matcher.Accepts x := by
  obtain ⟨c, hc, hr⟩ := Option.bind_eq_some_iff.mp h
  exact ⟨c, hc, Configuration.findRule?_eq_some hr⟩

theorem Closed.next_lt_of_findRule? (hp : p.Closed) {i : Nat} {x : Symbol} {r : Rule Nat}
    (h : p.findRule? i x = some r) : r.next < p.entry := by
  obtain ⟨c, hc, hr, -⟩ := exists_of_findRule? h
  exact hp.next_lt c (List.mem_of_getElem? hc) r hr

/-- Following an order that stems from a rule leaves a consistent snapshot. -/
theorem Consistent.follow (h : p.Consistent s) {o : Order}
    (hcurrent : o.configuration < p.entry) (hnext : o.next < p.entry)
    (hrule : p.CarriesOut (follow s o)) : p.Consistent (follow s o) := by
  obtain ⟨l, hl⟩ := h.chained
  obtain ⟨hl', hh'⟩ := follow_chain hl h.head_lt o
  exact {
    chained := hl'
    head_lt := hh'
    current_le := Nat.le_of_lt hcurrent
    next_lt := hnext
    paused_iff := by simp
    entry_iff := by
      rw [follow_current, follow_steps]
      omega
    pending_of_zero := fun h0 => absurd h0 (Nat.succ_ne_zero _)
    carriesOut := fun _ => hrule
    stopped := fun hs => by simp at hs }

theorem Step.consistent (hp : p.Closed) (h : p.Consistent s) (hs : Step p s s') :
    p.Consistent s' := by
  cases hs with
  | stay _ => exact h
  | stop hs hpend hr =>
    exact { h with
      paused_iff := by simp
      stopped := fun _ => ⟨hpend, hr⟩ }
  | start hs hpend r hr =>
    obtain ⟨c, hc, hrc, -⟩ := exists_of_findRule? hr
    -- Of the rule that is begun the first operation is done, if it has one.
    have hsplit : r.operations = r.operations.take 1 ++ r.operations.tail := by
      rw [← List.drop_one, List.take_append_drop]
    have hdone : r.operations ≠ [] → r.operations.take 1 ≠ [] := by
      intro hne
      simpa using hne
    have hlast : r.operations.head? = (r.operations.take 1).getLast? := by
      cases r.operations <;> rfl
    exact h.follow h.next_lt (hp.next_lt_of_findRule? hr)
      ⟨c, r, r.operations.take 1, hc, hrc, rfl, hsplit, hdone, hlast⟩
  | resume hs op rest hpend =>
    -- Something is owed, so a rule has been begun; its next operation is now done as well.
    have hpos : 0 < s.steps := by
      refine Nat.pos_of_ne_zero ?_
      intro h0
      rw [h.pending_of_zero h0] at hpend
      exact nomatch hpend
    obtain ⟨c, r, done, hc, hrc, hnext, hops, hdone, -⟩ := h.carriesOut hpos
    have hcurrent : s.current < p.entry := by
      refine Nat.lt_of_le_of_ne h.current_le ?_
      intro he
      have := h.entry_iff.mp he
      omega
    have hsplit : r.operations = (done ++ [op]) ++ rest := by
      rw [hops, hpend]
      simp
    exact h.follow hcurrent h.next_lt
      ⟨c, r, done ++ [op], hc, hrc, hnext, hsplit, fun _ => by simp, by simp⟩

theorem Consistent.iterate (hp : p.Closed) (h : p.Consistent s) (n : Nat) :
    p.Consistent (p.step^[n] s) := by
  induction n with
  | zero => exact h
  | succ n ih =>
    rw [Function.iterate_succ_apply']
    exact (step_cases p _).consistent hp ih

theorem consistent_iterate (hp : p.Closed) (n : Nat) : p.Consistent (p.step^[n] p.start) :=
  (consistent_start hp).iterate hp n

/-- A snapshot whose fields fit together, said through what can be asked of it. -/
structure Coherent (p : Program) (s : Snapshot) : Prop where
  head_lt : s.head < s.tape.size
  current_lt : s.current < p.configurations.length
  next_lt : s.next < p.configurations.length
  successor_lt : ∀ c ∈ p.configurations, ∀ r ∈ c.rules, r.next < p.configurations.length
  paused_iff : s.state = .paused ↔ s.steps = 0 ∧ s.state ≠ .completed
  /-- The synthetic configuration is left in the first step. -/
  entry_iff : s.current = p.entry ↔ s.steps = 0
  next_ne_entry : s.next ≠ p.entry
  /-- After the first step there is a rule of the current configuration that leads to the next
  one.  A part of its operations is done, the last of them in the last step, and the rest is
  owed. -/
  rule : 0 < s.steps → ∃ c r done rest, p.configuration? s.current = some c ∧ r ∈ c.rules ∧
    r.next = s.next ∧ r.operations = done ++ rest ∧
    (rest ≠ [] → s.pendingOperations? = some rest) ∧
    (rest = [] → s.pendingOperations? = none) ∧ (rest ≠ [] → done ≠ []) ∧
    s.last = done.getLast? ∧ (s.last = none → r.operations = [])
  running_of_pending : s.pendingOperations? ≠ none → s.state = .running
  /-- The run is over only where nothing is owed and no rule applies to the scanned symbol. -/
  stopped : s.state = .completed → s.pendingOperations? = none ∧
    ∃ c x, p.configuration? s.next = some c ∧ s.tape.read s.head = .ok x ∧
      ∀ r ∈ c.rules, ¬ r.matcher.Accepts x

theorem Consistent.exists_rule (h : p.Consistent s) (hpos : 0 < s.steps) :
    ∃ c r done rest, p.configuration? s.current = some c ∧ r ∈ c.rules ∧
      r.next = s.next ∧ r.operations = done ++ rest ∧
      (rest ≠ [] → s.pendingOperations? = some rest) ∧
      (rest = [] → s.pendingOperations? = none) ∧ (rest ≠ [] → done ≠ []) ∧
      s.last = done.getLast? ∧ (s.last = none → r.operations = []) := by
  obtain ⟨c, r, done, hc, hrc, hrn, hops, hdone, hlast⟩ := h.carriesOut hpos
  rw [Snapshot.pendingOperations?_eq]
  have hbegun : s.pending ≠ [] → done ≠ [] := by
    intro hne
    exact hdone (by simp [hops, hne])
  have hnone : s.last = none → r.operations = [] := by
    intro hnone
    -- Nothing was done in the last step, and a rule with operations has begun with one.
    rw [hlast, List.getLast?_eq_none_iff] at hnone
    exact Decidable.byContradiction fun hne => hdone hne hnone
  exact ⟨c, r, done, s.pending, hc, hrc, hrn, hops, fun hne => if_neg hne, fun he => if_pos he,
    hbegun, hlast, hnone⟩

theorem Consistent.running_of_pending (h : p.Consistent s) (hpend : s.pending ≠ []) :
    s.state = .running := by
  cases hs : s.state with
  | running => rfl
  | paused => exact absurd (h.pending_of_zero (h.paused_iff.mp hs).1) hpend
  | completed => exact absurd (h.stopped hs).1 hpend

theorem Consistent.coherent (hp : p.Closed) (h : p.Consistent s) : p.Coherent s := by
  have hlen := hp.length_eq
  have hnext := h.next_lt
  have hcurrent := h.current_le
  have hlt : s.next < p.configurations.length := by omega
  exact {
    head_lt := h.head_lt
    current_lt := by omega
    next_lt := hlt
    successor_lt := fun c hc r hr => by
      have := hp.next_lt c hc r hr
      omega
    paused_iff := h.paused_iff
    entry_iff := h.entry_iff
    next_ne_entry := Nat.ne_of_lt hnext
    rule := h.exists_rule
    running_of_pending := fun hpend => h.running_of_pending fun he =>
      hpend (by rw [Snapshot.pendingOperations?_eq, if_pos he])
    stopped := fun hs => by
      obtain ⟨hpend, hr⟩ := h.stopped hs
      have hpend' : s.pendingOperations? = none := by
        rw [Snapshot.pendingOperations?_eq, if_pos hpend]
      rw [findRule?, configuration?, List.getElem?_eq_getElem hlt] at hr
      exact ⟨hpend', p.configurations[s.next], s.symbol, List.getElem?_eq_getElem hlt,
        Snapshot.read_eq h.head_lt, Configuration.findRule?_eq_none_iff.mp hr⟩ }

/-- **The fields of a snapshot fit together** along every run of a program that was built. -/
theorem run_coherent {t : Table} {initial : String} (hb : t.build initial = .ok p) (n : Nat) :
    p.Coherent (p.step^[n] p.start) :=
  (consistent_iterate (Table.closed_of_build hb) n).coherent (Table.closed_of_build hb)

/-- After four steps the run stands in the middle of a rule of three operations. -/
theorem run_coherent_eraseCells :
    let p := Catalogue.eraseCells.resolved "e"
    Catalogue.eraseCells.build "e" = .ok p ∧
      (p.step^[4] p.start).pendingOperations? = some [.move .left, .erase] ∧
      p.Coherent (p.step^[4] p.start) := by
  have hb : Catalogue.eraseCells.build "e" = .ok (Catalogue.eraseCells.resolved "e") := rfl
  exact ⟨hb, rfl, run_coherent hb 4⟩

end Program

end AutomaticMachine
