/-
A program holds everything that its table declares.

In a program successors are numbers, but each number is that of one name, and
so the declarations can be had back: without the synthetic configuration at
the end and with names for numbers, the configurations are those of the table,
`complete` among them whether it was declared or added.

* `WellFormed.declarations_resolved` — what is had back from the program of a table;
* `WellFormed.build_declarations`    — and a table made of it has the same program;
* `build_eq_build_iff`               — the main statement: which tables have the same program.
-/
import AutomaticMachine.Proofs.Table.Names

namespace AutomaticMachine

/-- The configurations of a program with names for numbers, the synthetic one left out. -/
def Program.declarations (p : Program) : List (Configuration String) :=
  p.configurations.dropLast.map (·.map p.configurationName)

/-- The table that a program can be built from. -/
def Program.table (p : Program) : Table :=
  { name := p.name, configurations := p.declarations }

namespace Table

variable {t t' : Table} {a b initial : String} {p q : Program}

/-- Numbering the successors of a configuration can be undone. -/
theorem map_configurationName_map_number {c : Configuration String}
    (h : ∀ r ∈ c.rules, t.Declares r.next) :
    (c.map t.number).map (t.resolved initial).configurationName = c := by
  have hrules : (c.rules.map (Rule.map t.number)).map
      (Rule.map (t.resolved initial).configurationName) = c.rules := by
    rw [List.map_map]
    refine (List.map_congr_left fun r hr => ?_).trans (List.map_id _)
    show { r with next := (t.resolved initial).configurationName (t.number r.next) } = r
    rw [configurationName_number (h r hr)]
  exact (Configuration.mk.injEq ..).mpr ⟨rfl, hrules⟩

theorem WellFormed.declarations_resolved (h : t.WellFormed initial) :
    (t.resolved initial).declarations = t.withComplete := by
  rw [Program.declarations]
  show (List.dropLast (_ ++ [_])).map _ = _
  rw [List.dropLast_concat, List.map_map]
  refine (List.map_congr_left fun c hc => ?_).trans (List.map_id _)
  exact map_configurationName_map_number (rules_withComplete h.closed c hc)

/-- The program of a table depends on nothing but what can be had back from it. -/
theorem resolved_congr (hname : t.name = t'.name) (h : t.withComplete = t'.withComplete) :
    t.resolved initial = t'.resolved initial := by
  have hnumber : t.number = t'.number := by
    funext name
    rw [number, number, h]
  rw [resolved, resolved, hname, hnumber, h]

/-- Adding `complete` a second time adds nothing. -/
theorem withComplete_of_configurations_eq (h : t'.configurations = t.withComplete) :
    t'.withComplete = t.withComplete := by
  have hmem : completeName ∈ t'.names := by
    rw [names, h, ← declares_iff_mem]
    exact Or.inl rfl
  rw [withComplete, if_pos hmem, h]

theorem WellFormed.of_configurations_eq (hw : t.WellFormed initial)
    (h : t'.configurations = t.withComplete) : t'.WellFormed initial := by
  have hdeclares : ∀ name, t.Declares name → t'.Declares name := by
    intro name hname
    rw [declares_iff_mem] at hname ⊢
    rwa [withComplete_of_configurations_eq h]
  exact {
    start := hdeclares _ hw.start
    distinct := by
      rw [names, h]
      exact nodup_withComplete hw.distinct
    closed := by
      rw [h]
      exact rules_withComplete fun c hc r hr => hdeclares _ (hw.closed c hc r hr)
    nonempty := by
      rw [h]
      exact rules_withComplete hw.nonempty }

/-- The table that is had back from a program has this program. -/
theorem WellFormed.build_declarations (h : t.WellFormed initial) :
    (t.resolved initial).table.build initial = .ok (t.resolved initial) := by
  have hconfigurations : (t.resolved initial).table.configurations = t.withComplete :=
    h.declarations_resolved
  rw [(h.of_configurations_eq hconfigurations).build_eq]
  exact congrArg _ (resolved_congr rfl (withComplete_of_configurations_eq hconfigurations))

/-- **Nothing that a table declares is lost in its program.**  Two tables that are accepted have
the same program just if they have the same name, start in the same configuration and declare the
same configurations in the same order, `complete` being added without rules at the end of a list
that does not declare it.  For with names for numbers and without the synthetic configuration the
program is such a list, and the same program can be built from it. -/
theorem build_eq_build_iff (h : t.build a = .ok p) (h' : t'.build b = .ok q) :
    (p = q ↔ t.name = t'.name ∧ a = b ∧ t.withComplete = t'.withComplete) ∧
      p.name = t.name ∧ p.configurationName p.initial = a ∧ p.declarations = t.withComplete ∧
      p.table.build a = .ok p := by
  obtain ⟨hw, rfl⟩ := build_eq_ok_iff.mp h
  obtain ⟨hw', rfl⟩ := build_eq_ok_iff.mp h'
  have hinitial : (t.resolved a).configurationName (t.resolved a).initial = a :=
    configurationName_number hw.start
  have hinitial' : (t'.resolved b).configurationName (t'.resolved b).initial = b :=
    configurationName_number hw'.start
  refine ⟨?_, rfl, hinitial, hw.declarations_resolved, hw.build_declarations⟩
  constructor
  · intro heq
    have hname : (t.resolved a).name = (t'.resolved b).name := congrArg Program.name heq
    have hstart : a = b := by rw [← hinitial, heq, hinitial']
    have hdeclarations : t.withComplete = t'.withComplete := by
      rw [← hw.declarations_resolved, heq, hw'.declarations_resolved]
    exact ⟨hname, hstart, hdeclarations⟩
  · rintro ⟨hname, rfl, hdeclarations⟩
    exact resolved_congr hname hdeclarations

/-- A table with a configuration called `begin` has the same program whether `complete` is added
to it or declared at the end, but another one if `complete` is declared in front. -/
theorem build_eq_build_iff_begin :
    let work : Configuration String := ⟨beginName, [⟨.none, [.print "1"], completeName⟩]⟩
    let implicit : Table := { name := "begin", configurations := [work] }
    let atEnd : Table := { name := "begin", configurations := [work, ⟨completeName, []⟩] }
    let inFront : Table := { name := "begin", configurations := [⟨completeName, []⟩, work] }
    ∃ p q r, implicit.build beginName = .ok p ∧ atEnd.build beginName = .ok q ∧
      inFront.build beginName = .ok r ∧ p.declarations = atEnd.configurations ∧ p = q ∧ p ≠ r := by
  intro work implicit atEnd inFront
  have hp : implicit.build beginName = .ok (implicit.resolved beginName) := rfl
  have hq : atEnd.build beginName = .ok (atEnd.resolved beginName) := rfl
  have hr : inFront.build beginName = .ok (inFront.resolved beginName) := rfl
  refine ⟨_, _, _, hp, hq, hr, (build_eq_build_iff hp hq).2.2.2.1,
    (build_eq_build_iff hp hq).1.mpr ⟨rfl, rfl, rfl⟩, ?_⟩
  intro h
  exact absurd ((build_eq_build_iff hp hr).1.mp h).2.2 (by decide)

end Table

end AutomaticMachine
