/-
Two programs that differ only in how their configurations are numbered.

A relation between the numbers of two programs is kept by their rules
(`Program.Renumbers`) if related configurations find rules with the same
operations and related successors.  Then the runs of the programs go side by
side: their snapshots differ in the numbers only.

* `Alongside.step`, `alongside_iterate` — one step, and any number of steps;
* `Alongside.record_eq`                 — the records are equal where related numbers have equal
  names.
-/
import AutomaticMachine.Proofs.Snapshot.Step
import AutomaticMachine.Record
import Mathlib.Logic.Function.Iterate

namespace AutomaticMachine

namespace Program

variable {R : Nat → Nat → Prop} {p q : Program} {s s' : Snapshot}

/-- Rules of two programs that do the same and lead to related numbers. -/
structure RulesAlike (R : Nat → Nat → Prop) (r r' : Rule Nat) : Prop where
  operations_eq : r'.operations = r.operations
  next : R r.next r'.next

/-- Related configurations find rules alike for every symbol, and the initial ones are related. -/
structure Renumbers (R : Nat → Nat → Prop) (p q : Program) : Prop where
  initial : R p.initial q.initial
  findRule? : ∀ i j, R i j → ∀ x, Option.Rel (RulesAlike R) (p.findRule? i x) (q.findRule? j x)

/-- Snapshots that differ in the numbers of configurations only. -/
structure Alongside (R : Nat → Nat → Prop) (p q : Program) (s s' : Snapshot) : Prop where
  state_eq : s'.state = s.state
  tape_eq : s'.tape = s.tape
  head_eq : s'.head = s.head
  current : s.current = p.entry ∧ s'.current = q.entry ∨ R s.current s'.current
  pending_eq : s'.pending = s.pending
  next : R s.next s'.next
  last_eq : s'.last = s.last
  steps_eq : s'.steps = s.steps

theorem alongside_start (h : Renumbers R p q) : Alongside R p q p.start q.start where
  state_eq := rfl
  tape_eq := rfl
  head_eq := rfl
  current := Or.inl ⟨rfl, rfl⟩
  pending_eq := rfl
  next := h.initial
  last_eq := rfl
  steps_eq := rfl

theorem Alongside.symbol_eq (h : Alongside R p q s s') : s'.symbol = s.symbol := by
  rw [Snapshot.symbol, Snapshot.symbol, h.tape_eq, h.head_eq]

/-- Orders that differ in the numbers of configurations only. -/
structure OrdersAlike (R : Nat → Nat → Prop) (p q : Program) (o o' : Order) : Prop where
  configuration : o.configuration = p.entry ∧ o'.configuration = q.entry ∨
    R o.configuration o'.configuration
  operations_eq : o'.operations = o.operations
  next : R o.next o'.next

theorem Alongside.order? (hr : Renumbers R p q) (h : Alongside R p q s s') :
    Option.Rel (OrdersAlike R p q) (p.order? s) (q.order? s') := by
  by_cases hs : s.pending = []
  · rw [order?_of_pending_eq_nil hs, order?_of_pending_eq_nil (h.pending_eq.trans hs), h.symbol_eq]
    refine rel_map (hr.findRule? _ _ h.next s.symbol) ?_
    intro r r' _ halike
    exact ⟨Or.inr h.next, halike.operations_eq, halike.next⟩
  · rw [order?_of_pending_ne_nil hs, order?_of_pending_ne_nil (h.pending_eq ▸ hs)]
    exact .some ⟨h.current, h.pending_eq, h.next⟩

/-- Orders for the same operations are followed side by side. -/
theorem Alongside.follow (h : Alongside R p q s s') {o o' : Order} (ho : OrdersAlike R p q o o') :
    Alongside R p q (follow s o) (follow s' o') where
  state_eq := rfl
  tape_eq := (follow_tape_congr h.tape_eq h.head_eq (congrArg List.head? ho.operations_eq)).1
  head_eq := (follow_tape_congr h.tape_eq h.head_eq (congrArg List.head? ho.operations_eq)).2
  current := ho.configuration
  pending_eq := congrArg List.tail ho.operations_eq
  next := ho.next
  last_eq := congrArg List.head? ho.operations_eq
  steps_eq := congrArg (· + 1) h.steps_eq

theorem Alongside.step (hr : Renumbers R p q) (h : Alongside R p q s s') :
    Alongside R p q (p.step s) (q.step s') :=
  step_related h h.state_eq (h.order? hr) (fun _ _ ho => h.follow ho) { h with state_eq := rfl }

/-- **Runs of two programs that are numbered in different ways go side by side.** -/
theorem alongside_iterate (hr : Renumbers R p q) (n : Nat) :
    Alongside R p q (p.step^[n] p.start) (q.step^[n] q.start) := by
  induction n with
  | zero => exact alongside_start hr
  | succ n ih =>
    rw [Function.iterate_succ_apply', Function.iterate_succ_apply']
    exact ih.step hr

/-- The records differ at most in the names of the configurations. -/
theorem Alongside.record_eq_with_names (h : Alongside R p q s s') :
    Record.ofSnapshot q s' =
      { Record.ofSnapshot p s with
        configuration := q.configurationName s'.current
        nextConfiguration := q.configurationName s'.next } := by
  rw [Record.ofSnapshot, Record.ofSnapshot, h.state_eq, h.pending_eq, h.last_eq, h.steps_eq,
    Snapshot.tapeTextWithCursor, Snapshot.tapeTextWithCursor, Snapshot.squares, Snapshot.squares,
    h.tape_eq, h.head_eq]

theorem Alongside.record_eq (h : Alongside R p q s s')
    (hentry : q.configurationName q.entry = p.configurationName p.entry)
    (hname : ∀ i j, R i j → q.configurationName j = p.configurationName i) :
    Record.ofSnapshot q s' = Record.ofSnapshot p s := by
  have hcurrent : q.configurationName s'.current = p.configurationName s.current := by
    rcases h.current with ⟨he, he'⟩ | hr
    · rw [he, he', hentry]
    · exact hname _ _ hr
  rw [h.record_eq_with_names, hcurrent, hname _ _ h.next]
  rfl

end Program

end AutomaticMachine
