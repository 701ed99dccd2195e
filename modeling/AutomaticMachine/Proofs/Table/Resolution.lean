/-
What the program of a table looks like.

In a table that passes the check every name that is used has a number
(`Table.resolve_eq`), so `Table.build_eq_ok_iff` says when a table has a
program and which one it is (`Table.resolved`).  In it a name and its number
stand for the same thing:

* `name_number`              — the configuration with the number of a name has that name;
* `findRule?_number`         — it selects the rule that the table declares for the name
  (`Table.ruleFor?`);
* `closed_of_build`          — all successors are numbers of configurations, and none is that of
  the synthetic configuration.
-/
import AutomaticMachine.Program
import AutomaticMachine.Proofs.Entrywise
import AutomaticMachine.Proofs.Table.WellFormed

namespace AutomaticMachine

theorem Rule.mapM_eq_ok {ε ν μ : Type} {f : ν → Except ε μ} {g : ν → μ} {r : Rule ν}
    (h : f r.next = .ok (g r.next)) : r.mapM f = .ok (r.map g) := by
  rw [mapM, h]
  rfl

namespace Configuration

variable {ε ν μ : Type}

theorem mapM_eq_ok {f : ν → Except ε μ} {g : ν → μ} {c : Configuration ν}
    (h : ∀ r ∈ c.rules, f r.next = .ok (g r.next)) : c.mapM f = .ok (c.map g) := by
  have hrules : c.rules.mapM (Rule.mapM f) = .ok (c.rules.map (Rule.map g)) :=
    AutomaticMachine.mapM_eq_ok fun r hr => Rule.mapM_eq_ok (h r hr)
  rw [mapM, hrules]
  rfl

/-- Naming successors in another way does not change which rule is found. -/
theorem findRule?_map (f : ν → μ) (c : Configuration ν) (s : Symbol) :
    (c.map f).findRule? s = (c.findRule? s).map (Rule.map f) := by
  rw [findRule?, findRule?, Configuration.map, List.find?_map]
  rfl

theorem findRule?_eq_some {c : Configuration ν} {s : Symbol} {r : Rule ν}
    (h : c.findRule? s = some r) : r ∈ c.rules ∧ r.matcher.Accepts s :=
  ⟨List.mem_of_find?_eq_some h, by simpa using List.find?_some h⟩

theorem findRule?_eq_none_iff {c : Configuration ν} {s : Symbol} :
    c.findRule? s = none ↔ ∀ r ∈ c.rules, ¬ r.matcher.Accepts s := by
  rw [findRule?, List.find?_eq_none]
  simp

end Configuration

namespace Table

variable {t : Table} {initial name : String} {p : Program}

/-- The rule that a table declares for a configuration and a scanned symbol: the first one that
applies, in the configuration of that name.  There is none where the name is not declared. -/
def ruleFor? (t : Table) (name : String) (s : Symbol) : Option (Rule String) :=
  (t.configurations.find? fun c => c.name == name).bind (·.findRule? s)

/-! ### Names and numbers -/

/-- The number of the configuration with a name.  In a table that passes the check every name
that is used has one. -/
def number (t : Table) (name : String) : Nat := (t.withComplete.map (·.name)).idxOf name

/-- The configuration with the number of a name is the first of that name. -/
theorem getElem?_number (t : Table) (name : String) :
    t.withComplete[t.number name]? = t.withComplete.find? fun c => c.name == name := by
  rw [List.find?_eq_getElem?_findIdx, number, List.idxOf, List.findIdx_map]
  rfl

/-- A name stands for a configuration if one has it after `complete` has been added. -/
theorem exists_of_declares (h : t.Declares name) : ∃ c ∈ t.withComplete, c.name = name := by
  unfold withComplete
  rcases h with rfl | h
  · split
    · exact List.mem_map.mp ‹_›
    · exact ⟨⟨completeName, []⟩, by simp, rfl⟩
  · obtain ⟨c, hc, hname⟩ := List.mem_map.mp h
    refine ⟨c, ?_, hname⟩
    split
    · exact hc
    · exact List.mem_append_left _ hc

/-- A name that stands for a configuration has the number of one. -/
theorem exists_getElem?_number (h : t.Declares name) :
    ∃ c, t.withComplete[t.number name]? = some c ∧ c.name = name := by
  rw [getElem?_number]
  obtain ⟨c, hc, hname⟩ := exists_of_declares h
  cases hf : t.withComplete.find? fun c => c.name == name with
  | none => exact absurd (List.find?_eq_none.mp hf c hc) (by simpa using hname)
  | some c' => exact ⟨c', rfl, by simpa using List.find?_some hf⟩

theorem number_lt (h : t.Declares name) : t.number name < t.withComplete.length := by
  obtain ⟨c, hc, -⟩ := exists_getElem?_number h
  exact (List.getElem?_eq_some_iff.mp hc).1

/-- A name that stands for a configuration is found, and its number with it. -/
theorem resolve_eq (h : t.Declares name) : t.resolve name = .ok (t.number name) := by
  have hlt := number_lt h
  rw [number, List.idxOf, List.findIdx_map] at hlt ⊢
  have hfound : (t.withComplete.findIdx? fun c => c.name == name) =
      some (t.withComplete.findIdx ((· == name) ∘ (·.name))) :=
    List.findIdx?_eq_some_iff_findIdx_eq.mpr ⟨hlt, rfl⟩
  rw [resolve, hfound]

/-- Adding `complete` adds no rule. -/
theorem rules_withComplete {P : Rule String → Prop}
    (h : ∀ c ∈ t.configurations, ∀ r ∈ c.rules, P r) : ∀ c ∈ t.withComplete, ∀ r ∈ c.rules, P r := by
  intro c hc r hr
  unfold withComplete at hc
  split at hc
  · exact h c hc r hr
  · rcases List.mem_append.mp hc with hc | hc
    · exact h c hc r hr
    · rw [List.mem_singleton.mp hc] at hr
      exact absurd hr List.not_mem_nil

/-- An added `complete` has no rules, so it gives none that the table does not declare. -/
theorem find?_withComplete_bind (t : Table) (name : String) (s : Symbol) :
    (t.withComplete.find? fun c => c.name == name).bind (·.findRule? s) = t.ruleFor? name s := by
  unfold withComplete ruleFor?
  split
  · rfl
  · rw [List.find?_append]
    cases t.configurations.find? fun c => c.name == name with
    | some c => rfl
    | none =>
      -- What is left to be found is the added configuration, and it has no rules.
      by_cases hn : completeName = name
      · simp [hn, Configuration.findRule?]
      · simp [hn]

/-! ### Tables with the same names -/

section SameNames

variable {t' : Table} {f : Configuration String → Configuration String}

theorem declares_congr (h : t'.names = t.names) : t'.Declares name ↔ t.Declares name := by
  rw [Declares, Declares, h]

theorem names_eq_of_map (h : t'.configurations = t.configurations.map f)
    (hname : ∀ c, (f c).name = c.name) : t'.names = t.names := by
  simp [names, h, hname]

theorem withComplete_eq_of_map (h : t'.configurations = t.configurations.map f)
    (hname : ∀ c, (f c).name = c.name)
    (hcomplete : f { name := completeName, rules := [] } = { name := completeName, rules := [] }) :
    t'.withComplete = t.withComplete.map f := by
  rw [withComplete, withComplete, names_eq_of_map h hname, h]
  split
  · rfl
  · rw [List.map_append, List.map_singleton, hcomplete]

/-- Changing the rules only leaves all numbers as they are. -/
theorem number_eq_of_map (h : t'.configurations = t.configurations.map f)
    (hname : ∀ c, (f c).name = c.name)
    (hcomplete : f { name := completeName, rules := [] } = { name := completeName, rules := [] }) :
    t'.number = t.number := by
  funext name
  rw [number, number, withComplete_eq_of_map h hname hcomplete, List.map_map]
  exact congrArg (List.idxOf name) (List.map_congr_left fun c _ => hname c)

end SameNames

/-! ### The program -/

/-- The program of a table, without the check. -/
def resolved (t : Table) (initial : String) : Program where
  name := t.name
  configurations := t.withComplete.map (·.map t.number) ++
    [{ name := beginName
       rules := [{ matcher := .none, operations := [], next := t.number initial }] }]
  initial := t.number initial
  entry := t.withComplete.length
  complete := t.number completeName

/-- A table that passes the check has a program: resolution finds every name. -/
theorem WellFormed.build_eq (h : t.WellFormed initial) :
    t.build initial = .ok (t.resolved initial) := by
  have hconfigurations : t.withComplete.mapM (Configuration.mapM t.resolve) =
      .ok (t.withComplete.map (·.map t.number)) :=
    mapM_eq_ok fun c hc => Configuration.mapM_eq_ok fun r hr =>
      resolve_eq (rules_withComplete h.closed c hc r hr)
  rw [build, check_eq_ok_iff.mpr h, resolve_eq h.start, resolve_eq (Or.inl rfl),
    hconfigurations, resolved]
  simp [bind, Except.bind, pure, Except.pure]

/-- Just the well-formed tables have a program. -/
theorem build_eq_ok_iff :
    t.build initial = .ok p ↔ t.WellFormed initial ∧ p = t.resolved initial := by
  constructor
  · intro h
    have hw : t.WellFormed initial := by
      cases hcheck : t.check initial with
      | ok u => exact check_eq_ok_iff.mp hcheck
      | error fault =>
        rw [build, hcheck] at h
        exact nomatch h
    rw [hw.build_eq] at h
    exact ⟨hw, (Except.ok.inj h).symm⟩
  · rintro ⟨hw, rfl⟩
    exact hw.build_eq

/-- The check is all that can fail. -/
theorem build_eq_error_iff {fault : Fault} :
    t.build initial = .error fault ↔ t.check initial = .error fault := by
  cases hcheck : t.check initial with
  | ok u => simp [(check_eq_ok_iff.mp hcheck).build_eq]
  | error fault' =>
    rw [build, hcheck]
    exact ⟨fun h => congrArg _ (Except.error.inj h), fun h => congrArg _ (Except.error.inj h)⟩

theorem configuration?_resolved (h : t.Declares name) :
    (t.resolved initial).configuration? (t.number name) =
      (t.withComplete.find? fun c => c.name == name).map (·.map t.number) := by
  have hlt : t.number name < (t.withComplete.map (·.map t.number)).length := by
    simpa using number_lt h
  rw [Program.configuration?, resolved, List.getElem?_append_left hlt, List.getElem?_map,
    getElem?_number]

theorem name_number (h : t.Declares name) :
    ((t.resolved initial).configuration? (t.number name)).map (·.name) = some name := by
  obtain ⟨c, hc, rfl⟩ := exists_getElem?_number h
  rw [getElem?_number] at hc
  rw [configuration?_resolved h, hc]
  rfl

/-- The synthetic configuration stands at the end. -/
theorem configuration?_entry :
    (t.resolved initial).configuration? (t.resolved initial).entry =
      some { name := beginName
             rules := [{ matcher := .none, operations := [], next := t.number initial }] } := by
  have hlen : (t.withComplete.map (·.map t.number)).length ≤ t.withComplete.length := by simp
  rw [Program.configuration?, resolved, List.getElem?_append_right hlen]
  simp

theorem name_entry :
    ((t.resolved initial).configuration? (t.resolved initial).entry).map (·.name) =
      some beginName := by
  rw [configuration?_entry]
  rfl

/-- In the program of a table the configuration with the number of a name selects the rule that
is declared for the name. -/
theorem findRule?_number (h : t.Declares name) (s : Symbol) :
    (t.resolved initial).findRule? (t.number name) s =
      (t.ruleFor? name s).map (Rule.map t.number) := by
  rw [Program.findRule?, configuration?_resolved h, ← find?_withComplete_bind]
  cases t.withComplete.find? fun c => c.name == name with
  | none => rfl
  | some c => exact Configuration.findRule?_map t.number c s

theorem WellFormed.declares_next (h : t.WellFormed initial) {s : Symbol} {r : Rule String}
    (hr : t.ruleFor? name s = some r) : t.Declares r.next := by
  obtain ⟨c, hc, hr⟩ := Option.bind_eq_some_iff.mp hr
  exact h.closed c (List.mem_of_find?_eq_some hc) r (Configuration.findRule?_eq_some hr).1

end Table

namespace Program

/-- All numbers in a program are those of configurations, and none leads to the synthetic one,
which comes last. -/
structure Closed (p : Program) : Prop where
  length_eq : p.configurations.length = p.entry + 1
  initial_lt : p.initial < p.entry
  complete_lt : p.complete < p.entry
  next_lt : ∀ c ∈ p.configurations, ∀ r ∈ c.rules, r.next < p.entry

end Program

theorem Table.WellFormed.closed_resolved {t : Table} {initial : String}
    (h : t.WellFormed initial) : (t.resolved initial).Closed where
  length_eq := by simp [resolved]
  initial_lt := number_lt h.start
  complete_lt := number_lt (Or.inl rfl)
  next_lt c hc r hr := by
    rcases List.mem_append.mp hc with hc | hc
    · obtain ⟨c', hc', rfl⟩ := List.mem_map.mp hc
      obtain ⟨r', hr', rfl⟩ := List.mem_map.mp hr
      exact number_lt (rules_withComplete h.closed c' hc' r' hr')
    · -- The one rule of the synthetic configuration leads to the initial one.
      rw [List.mem_singleton.mp hc] at hr
      rw [List.mem_singleton.mp hr]
      exact number_lt h.start

theorem Table.closed_of_build {t : Table} {initial : String} {p : Program}
    (h : t.build initial = .ok p) : p.Closed := by
  obtain ⟨hw, rfl⟩ := build_eq_ok_iff.mp h
  exact hw.closed_resolved

end AutomaticMachine
