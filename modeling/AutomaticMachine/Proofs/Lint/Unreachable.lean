/-
Configurations that are reported as unreachable can be left out.

No run comes to a configuration that is reported.  If `complete` has no rules
then only configurations that are reported lead to those that are, so a table
without them is still accepted and runs as before, although its configurations
have other numbers.

* `Table.WellFormed.reportsUnreachable_iff`  — what is reported of a table;
* `Table.WellFormed.withoutUnreachable`      — nothing that stays leads to what is left out;
* `Table.renumbers_withoutUnreachable`       — the two programs differ in their numbers;
* `Table.WellFormed.lint_withoutUnreachable` — what is still reported;
* `Table.run_withoutUnreachable`             — the main statement, on the records of whole runs.
-/
import AutomaticMachine.Proofs.Lint.Reachable
import AutomaticMachine.Proofs.Snapshot.Lockstep

namespace AutomaticMachine

/-- Some finding is that the configuration with this name is unreachable. -/
def reportsUnreachable (findings : List Warning) (name : String) : Bool :=
  findings.any fun
    | .unreachable names => names.contains name
    | .shadowed .. => false

/-- The finding is about a shadowed rule of one of these configurations. -/
def Warning.isShadowedIn (configurations : String → Bool) : Warning → Bool
  | unreachable _ => false
  | shadowed configuration _ _ => configurations configuration

/-- The findings about rules of configurations that are not reported as unreachable. -/
def shadowedElsewhere (findings : List Warning) : List Warning :=
  findings.filter fun finding =>
    finding.isShadowedIn fun name => !reportsUnreachable findings name

/-- What is gathered from a part of a list is what is gathered where the rest gives nothing. -/
theorem flatMap_filter_eq {α β : Type} (l : List α) (keep : α → Bool) (f : α → List β) :
    (l.filter keep).flatMap f = l.flatMap fun x => if keep x then f x else [] := by
  induction l with
  | nil => rfl
  | cons x r ih =>
    rw [List.filter_cons, List.flatMap_cons, ← ih]
    split <;> simp

namespace Program

variable {p : Program}

theorem not_unreachable_mem_shadowed {names : List String} :
    Warning.unreachable names ∉ p.shadowed := by
  intro h
  obtain ⟨c, -, hmem⟩ := List.mem_flatMap.mp h
  obtain ⟨⟨r, i⟩, -, hi⟩ := List.mem_filterMap.mp hmem
  obtain ⟨j, -, hj⟩ := Option.map_eq_some_iff.mp hi
  exact nomatch hj

theorem unreachable_mem_lint_iff {names : List String} :
    Warning.unreachable names ∈ p.lint ↔ names = p.unreachable ∧ p.unreachable ≠ [] := by
  rw [lint, List.mem_append, or_iff_left not_unreachable_mem_shadowed]
  by_cases hempty : p.unreachable = []
  · simp [hempty]
  · simp [hempty]

theorem reportsUnreachable_lint_iff {name : String} :
    reportsUnreachable p.lint name ↔ name ∈ p.unreachable := by
  rw [reportsUnreachable, List.any_eq_true]
  constructor
  · rintro ⟨finding, hmem, h⟩
    cases finding with
    | shadowed configuration rule earlier => exact nomatch h
    | unreachable names =>
      obtain ⟨rfl, -⟩ := unreachable_mem_lint_iff.mp hmem
      simpa using h
  · intro h
    exact ⟨_, unreachable_mem_lint_iff.mpr ⟨rfl, List.ne_nil_of_mem h⟩, by simpa using h⟩

theorem lint_of_unreachable_ne_nil (h : p.unreachable ≠ []) :
    p.lint = .unreachable p.unreachable :: p.shadowed := by
  rw [lint, if_neg (by simpa using h)]
  rfl

theorem lint_of_unreachable_eq_nil (h : p.unreachable = []) : p.lint = p.shadowed := by
  rw [lint, h]
  rfl

/-- How successors are named makes no difference to what is reported of a configuration. -/
theorem shadowedIn_map {ν : Type} (f g : ν → Nat) (c : Configuration ν) :
    shadowedIn (c.map f) = shadowedIn (c.map g) := by
  have hcovering : ∀ h : ν → Nat, ∀ rules : List (Rule ν), ∀ m,
      firstCovering? (rules.map (Rule.map h)) m = rules.findIdx? fun r => r.matcher.covers m := by
    intro h rules m
    rw [firstCovering?, List.findIdx?_map]
    rfl
  simp only [shadowedIn, Configuration.map, List.zipIdx_map, List.filterMap_map, ← List.map_take,
    Function.comp_def, Prod.map, hcovering]
  rfl

theorem filter_shadowedIn (keep : String → Bool) (c : Configuration Nat) :
    (shadowedIn c).filter (·.isShadowedIn keep) = if keep c.name then shadowedIn c else [] := by
  have hname : ∀ w ∈ shadowedIn c, ∃ i j, w = .shadowed c.name i j := by
    intro w hw
    obtain ⟨⟨r, i⟩, -, hi⟩ := List.mem_filterMap.mp hw
    obtain ⟨j, -, rfl⟩ := Option.map_eq_some_iff.mp hi
    exact ⟨i, j, rfl⟩
  split
  · rename_i hkeep
    refine List.filter_eq_self.mpr ?_
    intro w hw
    obtain ⟨i, j, rfl⟩ := hname w hw
    exact hkeep
  · rename_i hkeep
    refine List.filter_eq_nil_iff.mpr ?_
    intro w hw
    obtain ⟨i, j, rfl⟩ := hname w hw
    exact hkeep

theorem filter_lint (p : Program) (keep : String → Bool) :
    p.lint.filter (·.isShadowedIn keep) = p.shadowed.filter (·.isShadowedIn keep) := by
  rw [lint, List.filter_append]
  split <;> rfl

end Program

namespace Table

/-- The table without the configurations that are reported as unreachable. -/
def withoutUnreachable (findings : List Warning) (t : Table) : Table :=
  { name := t.name
    configurations := t.configurations.filter fun c => !reportsUnreachable findings c.name }

variable {t : Table} {initial name : String} {p : Program} {findings : List Warning}

theorem names_withoutUnreachable :
    (t.withoutUnreachable findings).names =
      t.names.filter fun name => !reportsUnreachable findings name := by
  rw [names, names, List.filter_map]
  rfl

theorem rulesOf_withoutUnreachable (h : reportsUnreachable findings name = false) :
    (t.withoutUnreachable findings).rulesOf name = t.rulesOf name := by
  rw [rulesOf, rulesOf, withoutUnreachable, List.find?_filter]
  congr 3
  funext c
  by_cases hc : c.name = name
  · simp [hc, h]
  · simp [hc]

/-! ### Findings that leave `complete` alone -/

theorem declares_withoutUnreachable_iff (h : reportsUnreachable findings completeName = false) :
    (t.withoutUnreachable findings).Declares name ↔
      t.Declares name ∧ reportsUnreachable findings name = false := by
  rw [Declares, Declares, names_withoutUnreachable, List.mem_filter]
  constructor
  · rintro (rfl | ⟨hmem, hkept⟩)
    · exact ⟨Or.inl rfl, h⟩
    · exact ⟨Or.inr hmem, by simpa using hkept⟩
  · rintro ⟨rfl | hmem, hkept⟩
    · exact Or.inl rfl
    · exact Or.inr ⟨hmem, by simpa using hkept⟩

/-! ### What is reported of a table -/

theorem WellFormed.reportsUnreachable_iff (h : t.WellFormed initial) :
    reportsUnreachable (t.resolved initial).lint name ↔
      t.Declares name ∧ name ≠ completeName ∧
        ¬ (t.resolved initial).Reaches (t.number name) := by
  rw [Program.reportsUnreachable_lint_iff, Program.mem_unreachable_iff]
  constructor
  · rintro ⟨i, hlt, hentry, hcomplete, hreach, rfl⟩
    have hlen : (t.resolved initial).configurations.length = t.withComplete.length + 1 :=
      h.closed_resolved.length_eq
    have hlast : i ≠ t.withComplete.length := hentry
    have hi : i < t.withComplete.length := by omega
    obtain ⟨name, hd, rfl⟩ := exists_number_eq h.distinct hi
    rw [configurationName_number hd]
    refine ⟨hd, ?_, hreach⟩
    rintro rfl
    exact hcomplete rfl
  · rintro ⟨hd, hne, hreach⟩
    have hlt := number_lt hd
    refine ⟨t.number name, ?_, Nat.ne_of_lt hlt, ?_, hreach, configurationName_number hd⟩
    · rw [h.closed_resolved.length_eq]
      exact Nat.lt_succ_of_lt hlt
    · exact fun he => hne ((number_inj hd (Or.inl rfl)).mp he)

theorem WellFormed.complete_not_reported (h : t.WellFormed initial) :
    reportsUnreachable (t.resolved initial).lint completeName = false := by
  rw [← Bool.not_eq_true, h.reportsUnreachable_iff]
  exact fun hr => hr.2.1 rfl

theorem WellFormed.not_reported_of_reaches (h : t.WellFormed initial)
    (hr : (t.resolved initial).Reaches (t.number name)) :
    reportsUnreachable (t.resolved initial).lint name = false := by
  rw [← Bool.not_eq_true, h.reportsUnreachable_iff]
  exact fun hn => hn.2.2 hr

theorem WellFormed.reaches_of_kept (h : t.WellFormed initial) (hd : t.Declares name)
    (hne : name ≠ completeName)
    (hkept : reportsUnreachable (t.resolved initial).lint name = false) :
    (t.resolved initial).Reaches (t.number name) := by
  refine Classical.byContradiction ?_
  intro hreach
  rw [h.reportsUnreachable_iff.mpr ⟨hd, hne, hreach⟩] at hkept
  exact nomatch hkept

/-- The rules of a configuration that is reached lead to configurations that are. -/
theorem reaches_next (hd : t.Declares name) (hr : (t.resolved initial).Reaches (t.number name))
    {r : Rule String} (hmem : r ∈ t.rulesOf name) :
    (t.resolved initial).Reaches (t.number r.next) := by
  refine hr.successor ?_
  rw [successors_number hd]
  exact List.mem_map_of_mem hmem

/-! ### Leaving the reported configurations out -/

/-- Of the configurations that stay none but a `complete` without rules is not reached, so nothing
leads to what is left out. -/
theorem WellFormed.withoutUnreachable (h : t.WellFormed initial)
    (hcomplete : t.rulesOf completeName = []) :
    (t.withoutUnreachable (t.resolved initial).lint).WellFormed initial where
  start := (declares_withoutUnreachable_iff h.complete_not_reported).mpr
    ⟨h.start, h.not_reported_of_reaches .refl⟩
  distinct := by
    rw [names_withoutUnreachable]
    exact h.distinct.filter _
  closed c hc r hr := by
    obtain ⟨hc, hkept⟩ := List.mem_filter.mp hc
    rw [← rulesOf_eq_of_mem h.distinct hc] at hr
    have hd : t.Declares c.name := Or.inr (List.mem_map_of_mem hc)
    refine (declares_withoutUnreachable_iff h.complete_not_reported).mpr
      ⟨h.declares_next_of_mem hr, h.not_reported_of_reaches (reaches_next hd ?_ hr)⟩
    refine h.reaches_of_kept hd ?_ (by simpa using hkept)
    intro he
    rw [he, hcomplete] at hr
    exact absurd hr List.not_mem_nil
  nonempty c hc r hr := h.nonempty c (List.mem_filter.mp hc).1 r hr

/-- Numbers in the programs of two tables that stand for the same name, a name that is reached in
the first. -/
def SameName (t t' : Table) (initial : String) (i j : Nat) : Prop :=
  ∃ name, t.Declares name ∧ (t.resolved initial).Reaches (t.number name) ∧
    i = t.number name ∧ j = t'.number name

theorem renumbers_withoutUnreachable (h : t.WellFormed initial) :
    Program.Renumbers (SameName t (t.withoutUnreachable (t.resolved initial).lint) initial)
      (t.resolved initial)
      ((t.withoutUnreachable (t.resolved initial).lint).resolved initial) where
  initial := ⟨initial, h.start, .refl, rfl, rfl⟩
  findRule? := by
    rintro _ _ ⟨name, hd, hreach, rfl, rfl⟩ x
    have hkept := h.not_reported_of_reaches hreach
    have hd' := (declares_withoutUnreachable_iff h.complete_not_reported).mpr ⟨hd, hkept⟩
    rw [findRule?_number hd, findRule?_number hd', ruleFor?_eq_find?, ruleFor?_eq_find?,
      rulesOf_withoutUnreachable hkept]
    cases hfound : (t.rulesOf name).find? fun r => decide (r.matcher.Accepts x) with
    | none => exact .none
    | some r =>
      have hmem := List.mem_of_find?_eq_some hfound
      exact .some ⟨rfl, r.next, h.declares_next_of_mem hmem, reaches_next hd hreach hmem, rfl, rfl⟩

/-- What was reached is still reached. -/
theorem reaches_withoutUnreachable (h : t.WellFormed initial) {i : Nat}
    (hreach : (t.resolved initial).Reaches i) :
    ∃ j, SameName t (t.withoutUnreachable (t.resolved initial).lint) initial i j ∧
      ((t.withoutUnreachable (t.resolved initial).lint).resolved initial).Reaches j := by
  refine hreach.exists_of_successors (renumbers_withoutUnreachable h).initial ?_
  rintro _ _ ⟨name, hd, hreach, rfl, rfl⟩
  have hkept := h.not_reported_of_reaches hreach
  have hd' := (declares_withoutUnreachable_iff h.complete_not_reported).mpr ⟨hd, hkept⟩
  rw [successors_number hd, successors_number hd', rulesOf_withoutUnreachable hkept,
    List.forall₂_map_left_iff, List.forall₂_map_right_iff, List.forall₂_same]
  intro r hr
  exact ⟨r.next, h.declares_next_of_mem hr, reaches_next hd hreach hr, rfl, rfl⟩

theorem WellFormed.unreachable_withoutUnreachable (h : t.WellFormed initial)
    (hcomplete : t.rulesOf completeName = []) :
    ((t.withoutUnreachable (t.resolved initial).lint).resolved initial).unreachable = [] := by
  refine List.eq_nil_iff_forall_not_mem.mpr ?_
  intro name hmem
  rw [← Program.reportsUnreachable_lint_iff,
    (h.withoutUnreachable hcomplete).reportsUnreachable_iff] at hmem
  obtain ⟨hd', hne, hnot⟩ := hmem
  obtain ⟨hd, hkept⟩ := (declares_withoutUnreachable_iff h.complete_not_reported).mp hd'
  obtain ⟨_, ⟨name', hdeclared, -, hnumber, rfl⟩, hreach'⟩ :=
    reaches_withoutUnreachable h (h.reaches_of_kept hd hne hkept)
  obtain rfl := (number_inj hd hdeclared).mp hnumber
  exact hnot hreach'

/-- Neither an added `complete` nor the synthetic configuration has two rules, so shadowed rules
are reported of the declared configurations only. -/
theorem shadowed_resolved :
    (t.resolved initial).shadowed =
      t.configurations.flatMap fun c => Program.shadowedIn (c.map t.number) := by
  have hadded : (t.withComplete.map (·.map t.number)).flatMap Program.shadowedIn =
      t.configurations.flatMap fun c => Program.shadowedIn (c.map t.number) := by
    rw [List.flatMap_map]
    unfold withComplete
    split
    · rfl
    · simp [Program.shadowedIn, Configuration.map]
  rw [Program.shadowed, resolved, List.flatMap_append, hadded]
  simp [Program.shadowedIn, Program.firstCovering?]

/-- Of the findings those stay that are about the rules of what stays. -/
theorem WellFormed.lint_withoutUnreachable (h : t.WellFormed initial)
    (hcomplete : t.rulesOf completeName = []) :
    ((t.withoutUnreachable (t.resolved initial).lint).resolved initial).lint =
      shadowedElsewhere (t.resolved initial).lint := by
  rw [Program.lint_of_unreachable_eq_nil (h.unreachable_withoutUnreachable hcomplete),
    shadowedElsewhere, Program.filter_lint, shadowed_resolved, shadowed_resolved,
    Table.withoutUnreachable, flatMap_filter_eq, List.filter_flatMap]
  refine List.flatMap_congr ?_
  intro c hc
  rw [Program.filter_shadowedIn, Program.shadowedIn_map t.number]
  rfl

/-- **Unreachable configurations are dead.**  No run of a table that is accepted comes to a
configuration that is reported as unreachable.  If `complete` has no rules then the table is still
accepted without the configurations that are reported; of the findings those about the rest stay,
and its run leaves the same records. -/
theorem run_withoutUnreachable (hb : t.build initial = .ok p) :
    (∀ name, reportsUnreachable p.lint name → ∃ i, p.configurationNumber? name = some i ∧
      ∀ n, (p.step^[n] p.start).current ≠ i ∧ (p.step^[n] p.start).next ≠ i) ∧
    ((p.configuration? p.complete).map (·.rules) = some [] →
      ∃ q, (t.withoutUnreachable p.lint).build initial = .ok q ∧
        (∀ names, Warning.unreachable names ∉ q.lint) ∧ q.lint = shadowedElsewhere p.lint ∧
        ∀ n, Record.ofSnapshot q (q.step^[n] q.start) =
          Record.ofSnapshot p (p.step^[n] p.start)) := by
  obtain ⟨hw, rfl⟩ := build_eq_ok_iff.mp hb
  refine ⟨?runs, ?without⟩
  case runs =>
    intro name hname
    obtain ⟨hd, -, hreach⟩ := hw.reportsUnreachable_iff.mp hname
    have hlt := number_lt hd
    refine ⟨t.number name, ?_, ?_⟩
    · rw [Program.configurationNumber?_eq_some_iff hw.closed_resolved.length_eq
        hw.distinct_resolved]
      exact ⟨Nat.ne_of_lt hlt, name_number hd⟩
    · intro n
      obtain ⟨hcurrent, hnext⟩ := Program.onPath_iterate (t.resolved initial) n
      refine ⟨?_, fun he => hreach (he ▸ hnext)⟩
      intro he
      rcases hcurrent with hentry | hcurrent
      · exact Nat.ne_of_lt hlt (he.symm.trans hentry)
      · exact hreach (he ▸ hcurrent)
  case without =>
    intro hrules
    have hcomplete : t.rulesOf completeName = [] := by
      have hnumber : ((t.resolved initial).configuration? (t.resolved initial).complete).map
          (·.rules) = some ((t.rulesOf completeName).map (Rule.map t.number)) :=
        rules_number (Or.inl rfl)
      rw [hrules] at hnumber
      simpa using hnumber
    have hlint := hw.lint_withoutUnreachable hcomplete
    refine ⟨_, (hw.withoutUnreachable hcomplete).build_eq, ?_, hlint, ?_⟩
    · intro names hmem
      rw [hlint] at hmem
      exact nomatch (List.mem_filter.mp hmem).2
    · intro n
      refine (Program.alongside_iterate (renumbers_withoutUnreachable hw) n).record_eq ?_ ?_
      · rw [configurationName_entry, configurationName_entry]
      · rintro _ _ ⟨name, hd, hreach, rfl, rfl⟩
        have hd' := (declares_withoutUnreachable_iff hw.complete_not_reported).mpr
          ⟨hd, hw.not_reported_of_reaches hreach⟩
        rw [configurationName_number hd, configurationName_number hd']

/-- Two configurations, one of them called `begin`, lead to each other and the second one to the
initial one, but nothing leads to them.  One rule of them is shadowed, and one of the initial
configuration. -/
theorem run_withoutUnreachable_begin :
    let t : Table := {
      name := "spares"
      configurations := [
        ⟨"b", [⟨.none, [.print "0", .move .right], "c"⟩, ⟨.none, [], "b"⟩]⟩,
        ⟨"begin", [⟨.nonBlank, [], "spare"⟩, ⟨.symbol "1", [], "b"⟩]⟩,
        ⟨"complete", []⟩,
        ⟨"spare", [⟨.none, [.erase], "begin"⟩, ⟨.nonBlank, [], "b"⟩]⟩,
        ⟨"c", [⟨.none, [.move .left], "b"⟩]⟩] }
    let p := t.resolved "b"
    t.build "b" = .ok p ∧ reportsUnreachable p.lint "begin" ∧ reportsUnreachable p.lint "spare" ∧
      (∃ i, p.configurationNumber? "begin" = some i ∧
        ∀ n, (p.step^[n] p.start).current ≠ i ∧ (p.step^[n] p.start).next ≠ i) ∧
      ∃ q, (t.withoutUnreachable p.lint).build "b" = .ok q ∧
        (∀ names, Warning.unreachable names ∉ q.lint) ∧ q.lint = [.shadowed "b" 1 0] ∧
        ∀ n, Record.ofSnapshot q (q.step^[n] q.start) =
          Record.ofSnapshot p (p.step^[n] p.start) := by
  intro t p
  have hb : t.build "b" = .ok p := rfl
  have hlint : p.lint =
      [.unreachable ["begin", "spare"], .shadowed "b" 1 0, .shadowed "begin" 1 0] := by
    cbv
  have hbegin : reportsUnreachable p.lint "begin" := by
    rw [hlint]
    decide
  have hspare : reportsUnreachable p.lint "spare" := by
    rw [hlint]
    decide
  obtain ⟨hruns, hwithout⟩ := run_withoutUnreachable hb
  obtain ⟨q, hq, hnone, hrest, hrecords⟩ := hwithout rfl
  have hkept : shadowedElsewhere p.lint = [.shadowed "b" 1 0] := by
    rw [hlint]
    decide
  exact ⟨hb, hbegin, hspare, hruns "begin" hbegin, q, hq, hnone, hrest.trans hkept, hrecords⟩

end Table

end AutomaticMachine
