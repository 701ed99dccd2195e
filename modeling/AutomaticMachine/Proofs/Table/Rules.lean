/-
The rules that a table declares for a name.

A table passes the check only if it declares no name twice, so a name stands for one list of
rules, `Table.rulesOf`, which is empty where the name is not declared.  In the program of the
table the configuration with the number of the name has these rules.

* `Table.mem_rulesOf_iff`   — they are the rules of the configurations of that name;
* `Table.ruleFor?_eq_find?` — the rule for a symbol is the first of them that applies;
* `Table.rules_number`      — they are the rules in the program.
-/
import AutomaticMachine.Proofs.Table.Names

namespace AutomaticMachine

namespace Table

variable {t : Table} {initial name : String}

/-- The rules that a table declares for a configuration.  There are none where the name is not
declared. -/
def rulesOf (t : Table) (name : String) : List (Rule String) :=
  ((t.configurations.find? fun c => c.name == name).map (·.rules)).getD []

theorem ruleFor?_eq_find? (t : Table) (name : String) (x : Symbol) :
    t.ruleFor? name x = (t.rulesOf name).find? fun r => decide (r.matcher.Accepts x) := by
  rw [ruleFor?, rulesOf]
  cases t.configurations.find? fun c => c.name == name <;> rfl

theorem rulesOf_of_notMem (h : name ∉ t.names) : t.rulesOf name = [] := by
  have hnone : (t.configurations.find? fun c => c.name == name) = none := by
    rw [List.find?_eq_none]
    intro c hc hname
    exact h (List.mem_map.mpr ⟨c, hc, by simpa using hname⟩)
  rw [rulesOf, hnone]
  rfl

theorem rulesOf_eq_of_mem (h : t.names.Nodup) {c : Configuration String}
    (hc : c ∈ t.configurations) : t.rulesOf c.name = c.rules := by
  rw [rulesOf]
  cases hfound : t.configurations.find? fun d => d.name == c.name with
  | none => exact absurd (List.find?_eq_none.mp hfound c hc) (by simp)
  | some d =>
    have hname : d.name = c.name := by simpa using List.find?_some hfound
    obtain rfl := List.inj_on_of_nodup_map h (List.mem_of_find?_eq_some hfound) hc hname
    rfl

theorem mem_rulesOf_iff (h : t.names.Nodup) {r : Rule String} :
    r ∈ t.rulesOf name ↔ ∃ c ∈ t.configurations, c.name = name ∧ r ∈ c.rules := by
  constructor
  · intro hr
    have hname : name ∈ t.names := by
      refine Decidable.byContradiction ?_
      intro hn
      rw [rulesOf_of_notMem hn] at hr
      exact absurd hr List.not_mem_nil
    obtain ⟨c, hc, rfl⟩ := List.mem_map.mp hname
    rw [rulesOf_eq_of_mem h hc] at hr
    exact ⟨c, hc, rfl, hr⟩
  · rintro ⟨c, hc, rfl, hr⟩
    rwa [rulesOf_eq_of_mem h hc]

theorem WellFormed.declares_next_of_mem (h : t.WellFormed initial) {r : Rule String}
    (hmem : r ∈ t.rulesOf name) : t.Declares r.next := by
  obtain ⟨c, hc, -, hr⟩ := (mem_rulesOf_iff h.distinct).mp hmem
  exact h.closed c hc r hr

/-- An added `complete` has no rules. -/
theorem find?_withComplete_map_rules (t : Table) (name : String) :
    ((t.withComplete.find? fun c => c.name == name).map (·.rules)).getD [] = t.rulesOf name := by
  unfold withComplete rulesOf
  split
  · rfl
  · rw [List.find?_append]
    cases t.configurations.find? fun c => c.name == name with
    | some c => rfl
    | none => by_cases hn : completeName = name <;> simp [hn]

/-- In the program of a table a configuration has the rules that are declared for its name. -/
theorem rules_number (h : t.Declares name) :
    ((t.resolved initial).configuration? (t.number name)).map (·.rules) =
      some ((t.rulesOf name).map (Rule.map t.number)) := by
  obtain ⟨c, hc, -⟩ := exists_getElem?_number h
  rw [getElem?_number] at hc
  rw [configuration?_resolved h, ← find?_withComplete_map_rules, hc]
  rfl

end Table

end AutomaticMachine
