/-
A run that is over stays over.

Every step of a run that goes on is counted, the step that ends it changes the running state and
nothing else, and no step after it changes anything.  So two snapshots of a run are the same only
where it is over, however often the tape looks as before.

* `step_eq_self_iff`, `step_eq_of_completes` — what a step does to a run that is over, and what the
  step does that ends one;
* `steps_iterate_of_not_completed`           — while a run goes on its steps are counted;
* `completion_is_permanent`                  — the main statement on the snapshots of a run.

A run is over where no rule applies.  The configuration called `complete` is there to end in, and
it does end a run if no rules are declared for it (`Consistent.completes_iff`).  The check of a table
does not ask for that: a table may declare `complete` with rules, and then they apply.

* `Table.ends_at_complete` — where `complete` ends a run, and where it does not.
-/
import AutomaticMachine.Proofs.Snapshot.Invariant
import AutomaticMachine.Proofs.Table.Rules

namespace AutomaticMachine

namespace Program

variable {p : Program} {s : Snapshot} {i j n : Nat}

/-! ### Completion is permanent -/

theorem step_eq_self_iff : p.step s = s ↔ s.state = .completed := by
  constructor
  · intro h
    refine Decidable.byContradiction ?_
    intro hs
    -- A step that does not end the run counts itself.
    have hcount : (p.step s).steps = s.steps + 1 :=
      steps_step_of_not_completed (by rwa [h])
    rw [h] at hcount
    omega
  · exact step_of_completed

/-- The step that ends a run changes the running state only. -/
theorem step_eq_of_completes (hs : s.state ≠ .completed) (hc : (p.step s).state = .completed) :
    p.step s = { s with state := .completed } := by
  have h := step_cases p s
  generalize p.step s = s' at h hc
  cases h with
  | stay hs' => exact absurd hs' hs
  | stop _ _ _ => rfl
  | start _ _ r _ => exact nomatch hc
  | resume _ op rest _ => exact nomatch hc

theorem iterate_eq_of_completed (hij : i ≤ j) (hi : (p.step^[i] s).state = .completed) :
    p.step^[j] s = p.step^[i] s := by
  obtain ⟨k, rfl⟩ := Nat.exists_eq_add_of_le' hij
  rw [Function.iterate_add_apply]
  exact Function.iterate_fixed (step_of_completed hi) k

/-- As long as a run goes on, every step of it is counted. -/
theorem steps_iterate_of_not_completed (hn : (p.step^[n] s).state ≠ .completed) :
    (p.step^[n] s).steps = s.steps + n := by
  induction n with
  | zero => rfl
  | succ n ih =>
    have hbefore : (p.step^[n] s).state ≠ .completed := by
      intro hc
      exact hn (iterate_eq_of_completed (Nat.le_succ n) hc ▸ hc)
    rw [Function.iterate_succ_apply'] at hn ⊢
    rw [steps_step_of_not_completed hn, ih hbefore]
    rfl

theorem iterate_eq_iff_completed (hij : i < j) :
    p.step^[i] s = p.step^[j] s ↔ (p.step^[i] s).state = .completed := by
  constructor
  · intro h
    refine Decidable.byContradiction ?_
    intro hi
    have hcount := steps_iterate_of_not_completed hi
    rw [h] at hi hcount
    rw [steps_iterate_of_not_completed hi] at hcount
    omega
  · intro hi
    exact (iterate_eq_of_completed (Nat.le_of_lt hij) hi).symm

/-- The count of steps stays where it was before the step that ends the run. -/
theorem steps_iterate_of_completes (hn : (p.step^[n] s).state ≠ .completed)
    (hc : (p.step^[n + 1] s).state = .completed) (hnj : n < j) :
    (p.step^[j] s).steps = s.steps + n := by
  rw [iterate_eq_of_completed hnj hc, ← steps_iterate_of_not_completed hn]
  rw [Function.iterate_succ_apply'] at hc ⊢
  exact steps_step_of_completed hc

/-- **Completion is the one fixed point of a run, and permanent.**  A step changes nothing just
where the run is over; all other steps are counted but the one that ends it, which changes the
running state only.  So a snapshot of a run comes again just where the run is over, and the
snapshot after `i` steps counts `i` of them until then. -/
theorem completion_is_permanent (p : Program) :
    (∀ s, p.step s = s ↔ s.state = .completed) ∧
    (∀ s, s.state ≠ .completed → (p.step s).state = .completed →
      p.step s = { s with state := .completed }) ∧
    (∀ s, s.state ≠ .completed → (p.step s).state ≠ .completed →
      (p.step s).steps = s.steps + 1) ∧
    (∀ i j, i < j → (p.step^[i] p.start = p.step^[j] p.start ↔
      (p.step^[i] p.start).state = .completed)) ∧
    (∀ i, (∀ k ≤ i, (p.step^[k] p.start).state ≠ .completed) →
      (p.step^[i] p.start).steps = i) ∧
    -- After the step that ends the run the count is that of the snapshot before it.
    ∀ i, (p.step^[i] p.start).state ≠ .completed → (p.step^[i + 1] p.start).state = .completed →
      ∀ j, i < j → (p.step^[j] p.start).steps = i := by
  refine ⟨fun s => step_eq_self_iff, fun s => step_eq_of_completes,
    fun s _ => steps_step_of_not_completed, fun i j => iterate_eq_iff_completed, ?counted, ?frozen⟩
  case counted =>
    intro i hgoes
    rw [steps_iterate_of_not_completed (hgoes i (Nat.le_refl i))]
    exact Nat.zero_add i
  case frozen =>
    intro i hi hc j hij
    rw [steps_iterate_of_completes hi hc hij]
    exact Nat.zero_add i

/-! ### Where a run ends -/

/-- Where nothing is owed a run is over with the next step just if no rule applies. -/
theorem Consistent.completes_iff (h : p.Consistent s) (hpend : s.pending = []) :
    (p.step s).state = .completed ↔ p.findRule? s.next s.symbol = none := by
  have hs := step_cases p s
  generalize p.step s = s' at hs
  cases hs with
  | stay hs => exact iff_of_true hs (h.stopped hs).2
  | stop _ _ hr => exact iff_of_true rfl hr
  | start _ _ r hr => exact iff_of_false (by simp) (by simp [hr])
  | resume _ op rest hpend' =>
    rw [hpend] at hpend'
    exact nomatch hpend'

end Program

namespace Table

variable {t : Table} {initial : String} {p : Program}

/-- The configuration called `complete` has no rules just where none are declared for it. -/
theorem exists_complete_rules_eq_nil_iff (hb : t.build initial = .ok p) :
    (∃ c, p.configuration? p.complete = some c ∧ c.rules = []) ↔
      ∀ c ∈ t.configurations, c.name = completeName → c.rules = [] := by
  obtain ⟨hw, rfl⟩ := build_eq_ok_iff.mp hb
  obtain ⟨d, hd, hrules⟩ := Option.map_eq_some_iff.mp
    (@rules_number t initial completeName (Or.inl rfl))
  have hdeclared : d.rules = [] ↔ t.rulesOf completeName = [] := by
    rw [hrules, List.map_eq_nil_iff]
  constructor
  · rintro ⟨c, hc, hnil⟩ c' hc' hname
    obtain rfl : d = c := Option.some.inj (hd.symm.trans hc)
    rw [← rulesOf_eq_of_mem hw.distinct hc', hname]
    exact hdeclared.mp hnil
  · intro hnone
    refine ⟨d, hd, hdeclared.mpr (List.eq_nil_iff_forall_not_mem.mpr ?_)⟩
    intro r hr
    obtain ⟨c, hc, hname, hr⟩ := (mem_rulesOf_iff hw.distinct).mp hr
    rw [hnone c hc hname] at hr
    exact absurd hr List.not_mem_nil

/-- A run that has come to `complete` ends there just where no rule that is declared for `complete`
applies. -/
theorem completes_at_complete_iff (hb : t.build initial = .ok p) {n : Nat}
    (hpend : (p.step^[n] p.start).pendingOperations? = none)
    (hnext : (p.step^[n] p.start).next = p.complete) :
    (p.step^[n + 1] p.start).state = .completed ↔
      ∀ c ∈ t.configurations, c.name = completeName →
        ∀ r ∈ c.rules, ¬ r.matcher.Accepts (p.step^[n] p.start).symbol := by
  have hc := Program.consistent_iterate (closed_of_build hb) n
  rw [Function.iterate_succ_apply',
    hc.completes_iff (Snapshot.pendingOperations?_eq_none_iff.mp hpend), hnext]
  obtain ⟨hw, rfl⟩ := build_eq_ok_iff.mp hb
  have hnumber : (t.resolved initial).complete = t.number completeName := rfl
  rw [hnumber, findRule?_number (Or.inl rfl), Option.map_eq_none_iff, ruleFor?_eq_find?,
    List.find?_eq_none]
  simp only [decide_eq_true_eq, mem_rulesOf_iff hw.distinct]
  constructor
  · intro hnone c hc hname r hr
    exact hnone r ⟨c, hc, hname, hr⟩
  · rintro hnone r ⟨c, hc, hname, hr⟩
    exact hnone c hc hname r hr

/-- **Where `complete` ends a run.**  The configuration has no rules just if none are declared for
it.  A run that has come there and owes nothing is over with the next step just if no rule that is
declared for `complete` applies, and so always if there are none. -/
theorem ends_at_complete (hb : t.build initial = .ok p) :
    ((∃ c, p.configuration? p.complete = some c ∧ c.rules = []) ↔
      ∀ c ∈ t.configurations, c.name = completeName → c.rules = []) ∧
    (∀ n, (p.step^[n] p.start).pendingOperations? = none →
      (p.step^[n] p.start).next = p.complete →
      ((p.step^[n + 1] p.start).state = .completed ↔
        ∀ c ∈ t.configurations, c.name = completeName →
          ∀ r ∈ c.rules, ¬ r.matcher.Accepts (p.step^[n] p.start).symbol)) ∧
    ((∀ c ∈ t.configurations, c.name = completeName → c.rules = []) →
      ∀ n, (p.step^[n] p.start).pendingOperations? = none →
        (p.step^[n] p.start).next = p.complete →
        (p.step^[n + 1] p.start).state = .completed) := by
  refine ⟨exists_complete_rules_eq_nil_iff hb, fun n => completes_at_complete_iff hb, ?terminal⟩
  intro hnone n hpend hnext
  refine (completes_at_complete_iff hb hpend hnext).mpr ?_
  intro c hc hname r hr
  rw [hnone c hc hname] at hr
  exact absurd hr List.not_mem_nil

/-- Where `complete` has a rule for a digit, a run that comes there on a digit goes on and ends when
it comes there on a blank. -/
theorem ends_at_complete_rule_for_digit :
    let t : Table := {
      name := "rule for a digit"
      configurations := [
        ⟨"b", [⟨.none, [.print "1"], completeName⟩]⟩,
        ⟨completeName, [⟨.symbol "1", [.move .right], completeName⟩]⟩] }
    let p := t.resolved "b"
    t.build "b" = .ok p ∧ (p.step^[1] p.start).next = p.complete ∧
      (p.step^[2] p.start).state ≠ .completed ∧ (p.step^[2] p.start).next = p.complete ∧
      (p.step^[3] p.start).state = .completed := by
  intro t p
  have hb : t.build "b" = .ok p := rfl
  obtain ⟨-, hends, -⟩ := ends_at_complete hb
  refine ⟨hb, rfl, ?goes, rfl, ?ends⟩
  case goes =>
    intro hc
    have hnone := (hends 1 rfl rfl).mp hc
    exact hnone _ (List.mem_cons_of_mem _ List.mem_cons_self) rfl _ List.mem_cons_self
      (by decide +kernel)
  case ends =>
    refine (hends 2 rfl rfl).mpr ?_
    decide +kernel

/-- The check accepts a table that declares `complete` with a rule for the blank.  A run that starts
there is not over with its first step but prints. -/
theorem complete_not_terminal :
    let t : Table := {
      name := "complete goes on"
      configurations := [⟨completeName, [⟨.none, [.print "1"], completeName⟩]⟩] }
    let p := t.resolved completeName
    t.build completeName = .ok p ∧
      p.configuration? p.complete =
        some ⟨completeName, [⟨.none, [.print "1"], p.complete⟩]⟩ ∧
      p.start.pendingOperations? = none ∧ p.start.next = p.complete ∧
      (p.step p.start).state = .running ∧ (p.step p.start).symbol = "1" := by
  decide +kernel

end Table

end AutomaticMachine
