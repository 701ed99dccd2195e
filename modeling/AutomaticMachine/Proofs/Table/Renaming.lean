/-
Neither the order of declaration nor the names of configurations matter.

The program of a table with the same configurations in another order and under
other names has other numbers, but a configuration that is declared has the
same rules under its new name, and so its run goes side by side with the run of
the first program.

* `Table.Renames.rulesOf_eq`   — rules under the new names;
* `Table.Renames.renumbers`    — the programs differ in their numbers;
* `Table.Renames.reaches_iff`  — the same configurations are reached;
* `Table.run_renamed`          — the main statement, on records of whole runs and on findings.
-/
import AutomaticMachine.Proofs.Lint.Shadowed
import AutomaticMachine.Proofs.Lint.Unreachable
import Mathlib.Data.Set.Function

namespace AutomaticMachine

/-- The configuration under another name, and its successors under theirs. -/
def Configuration.rename (g : String → String) (c : Configuration String) :
    Configuration String where
  name := g c.name
  rules := c.rules.map (Rule.map g)

/-- The record with other names of configurations.  The synthetic configuration, which is the
current one before the first step, keeps its name. -/
def Record.rename (g : String → String) (r : Record) : Record :=
  { r with
    configuration := if r.step = 0 then r.configuration else g r.configuration
    nextConfiguration := g r.nextConfiguration }

/-- The finding about configurations under other names. -/
def Warning.rename (g : String → String) : Warning → Warning
  | unreachable names => unreachable (names.map g)
  | shadowed configuration rule earlier => shadowed (g configuration) rule earlier

namespace Table

/-- The second table declares the configurations of the first one under the names that `g` gives
them, in any order.  Different names stay different, and `complete` keeps its name. -/
structure Renames (g : String → String) (t t' : Table) : Prop where
  perm : t'.configurations.Perm (t.configurations.map (Configuration.rename g))
  injOn : Set.InjOn g {name | t.Declares name}
  complete_eq : g completeName = completeName

variable {g : String → String} {t t' : Table} {initial name : String} {p : Program}

namespace Renames

/-! ### Names -/

theorem names_perm (h : Renames g t t') : t'.names.Perm (t.names.map g) := by
  have hnames := h.perm.map (·.name)
  rw [List.map_map] at hnames
  rw [names, names, List.map_map]
  exact hnames

theorem declares_iff (h : Renames g t t') :
    t'.Declares name ↔ ∃ old, t.Declares old ∧ g old = name := by
  rw [Declares, h.names_perm.mem_iff, List.mem_map]
  constructor
  · rintro (rfl | ⟨old, hold, rfl⟩)
    · exact ⟨completeName, Or.inl rfl, h.complete_eq⟩
    · exact ⟨old, Or.inr hold, rfl⟩
  · rintro ⟨old, rfl | hold, rfl⟩
    · exact Or.inl h.complete_eq
    · exact Or.inr ⟨old, hold, rfl⟩

theorem declares (h : Renames g t t') (hd : t.Declares name) : t'.Declares (g name) :=
  h.declares_iff.mpr ⟨name, hd, rfl⟩

theorem eq_complete_iff (h : Renames g t t') (hd : t.Declares name) :
    g name = completeName ↔ name = completeName := by
  constructor
  · intro he
    exact h.injOn hd (Or.inl rfl) (he.trans h.complete_eq.symm)
  · rintro rfl
    exact h.complete_eq

theorem mem_names_iff (h : Renames g t t') (hd : t.Declares name) :
    g name ∈ t'.names ↔ name ∈ t.names := by
  rw [h.names_perm.mem_iff, List.mem_map]
  constructor
  · rintro ⟨old, hold, he⟩
    rwa [← h.injOn (Or.inr hold) hd he]
  · intro hmem
    exact ⟨name, hmem, rfl⟩

theorem nodup_names (h : Renames g t t') (hn : t.names.Nodup) : t'.names.Nodup := by
  rw [h.names_perm.nodup_iff]
  refine hn.map_on ?_
  intro x hx y hy he
  exact h.injOn (Or.inr hx) (Or.inr hy) he

/-- A configuration has the same rules under its new name. -/
theorem rulesOf_eq (h : Renames g t t') (hn : t.names.Nodup) (hd : t.Declares name) :
    t'.rulesOf (g name) = (t.rulesOf name).map (Rule.map g) := by
  by_cases hmem : name ∈ t.names
  · obtain ⟨c, hc, rfl⟩ := List.mem_map.mp hmem
    have hc' : c.rename g ∈ t'.configurations := h.perm.mem_iff.mpr (List.mem_map_of_mem hc)
    rw [rulesOf_eq_of_mem hn hc]
    exact rulesOf_eq_of_mem (h.nodup_names hn) hc'
  · -- Only `complete` has no need to be declared, and it has no rules then.
    rw [rulesOf_of_notMem hmem, rulesOf_of_notMem fun hmem' => hmem ((h.mem_names_iff hd).mp hmem')]
    rfl

theorem wellFormed (h : Renames g t t') (hw : t.WellFormed initial) :
    t'.WellFormed (g initial) where
  start := h.declares hw.start
  distinct := h.nodup_names hw.distinct
  closed c hc r hr := by
    obtain ⟨d, hd, rfl⟩ := List.mem_map.mp (h.perm.mem_iff.mp hc)
    obtain ⟨e, he, rfl⟩ := List.mem_map.mp hr
    exact h.declares (hw.closed d hd e he)
  nonempty c hc r hr := by
    obtain ⟨d, hd, rfl⟩ := List.mem_map.mp (h.perm.mem_iff.mp hc)
    obtain ⟨e, he, rfl⟩ := List.mem_map.mp hr
    exact hw.nonempty d hd e he

/-! ### Runs -/

/-- Numbers in the programs of two tables that stand for a name and for its new name. -/
def SameConfiguration (g : String → String) (t t' : Table) (i j : Nat) : Prop :=
  ∃ name, t.Declares name ∧ i = t.number name ∧ j = t'.number (g name)

theorem renumbers (h : Renames g t t') (hw : t.WellFormed initial) :
    Program.Renumbers (SameConfiguration g t t') (t.resolved initial)
      (t'.resolved (g initial)) where
  initial := ⟨initial, hw.start, rfl, rfl⟩
  findRule? := by
    rintro _ _ ⟨name, hd, rfl, rfl⟩ x
    rw [findRule?_number hd, findRule?_number (h.declares hd), ruleFor?_eq_find?,
      ruleFor?_eq_find?, h.rulesOf_eq hw.distinct hd, List.find?_map]
    show Option.Rel _ _ ((((t.rulesOf name).find? fun r => decide (r.matcher.Accepts x)).map
      (Rule.map g)).map _)
    cases hfound : (t.rulesOf name).find? fun r => decide (r.matcher.Accepts x) with
    | none => exact .none
    | some r =>
      have hmem := List.mem_of_find?_eq_some hfound
      exact .some ⟨rfl, r.next, hw.declares_next_of_mem hmem, rfl, rfl⟩

theorem record_eq (h : Renames g t t') (hw : t.WellFormed initial) (n : Nat) :
    Record.ofSnapshot (t'.resolved (g initial))
        ((t'.resolved (g initial)).step^[n] (t'.resolved (g initial)).start) =
      (Record.ofSnapshot (t.resolved initial)
        ((t.resolved initial).step^[n] (t.resolved initial).start)).rename g := by
  have halong := Program.alongside_iterate (h.renumbers hw) n
  have hconsistent := Program.consistent_iterate hw.closed_resolved n
  generalize (t.resolved initial).step^[n] (t.resolved initial).start = s at halong hconsistent
  generalize (t'.resolved (g initial)).step^[n] (t'.resolved (g initial)).start = s' at halong
  have hname : ∀ i j, SameConfiguration g t t' i j →
      (t'.resolved (g initial)).configurationName j =
        g ((t.resolved initial).configurationName i) := by
    rintro _ _ ⟨name, hd, rfl, rfl⟩
    rw [configurationName_number hd, configurationName_number (h.declares hd)]
  -- The synthetic configuration is the current one before the first step only.
  have hcurrent : (t'.resolved (g initial)).configurationName s'.current =
      if s.steps = 0 then (t.resolved initial).configurationName s.current
      else g ((t.resolved initial).configurationName s.current) := by
    rcases halong.current with ⟨he, he'⟩ | hsame
    · rw [if_pos (hconsistent.entry_iff.mp he), he, he', configurationName_entry,
        configurationName_entry]
    · have hne : s.current ≠ (t.resolved initial).entry := by
        obtain ⟨name, hd, hi, -⟩ := hsame
        rw [hi]
        exact Nat.ne_of_lt (number_lt hd)
      rw [if_neg fun h0 => hne (hconsistent.entry_iff.mpr h0), hname _ _ hsame]
  rw [halong.record_eq_with_names, hcurrent, hname _ _ halong.next]
  rfl

/-! ### Findings -/

theorem successors_forall₂ (h : Renames g t t') (hw : t.WellFormed initial) (i j : Nat)
    (hs : SameConfiguration g t t' i j) :
    List.Forall₂ (SameConfiguration g t t') ((t.resolved initial).successors i)
      ((t'.resolved (g initial)).successors j) := by
  obtain ⟨old, hold, rfl, rfl⟩ := hs
  rw [successors_number hold, successors_number (h.declares hold), h.rulesOf_eq hw.distinct hold,
    List.map_map, List.forall₂_map_left_iff, List.forall₂_map_right_iff, List.forall₂_same]
  intro r hr
  exact ⟨r.next, hw.declares_next_of_mem hr, rfl, rfl⟩

theorem reaches_iff (h : Renames g t t') (hw : t.WellFormed initial) (hd : t.Declares name) :
    (t'.resolved (g initial)).Reaches (t'.number (g name)) ↔
      (t.resolved initial).Reaches (t.number name) := by
  have hinitial := (h.renumbers hw).initial
  have hsuccessors := h.successors_forall₂ hw
  constructor
  · intro hreach
    obtain ⟨_, ⟨old, hold, rfl, he⟩, hreach⟩ :=
      hreach.exists_of_successors (R := flip (SameConfiguration g t t')) hinitial
        fun j i hs => (hsuccessors i j hs).flip
    rw [number_inj (h.declares hd) (h.declares hold)] at he
    rwa [h.injOn hd hold he]
  · intro hreach
    obtain ⟨_, ⟨old, hold, he, rfl⟩, hreach⟩ := hreach.exists_of_successors hinitial hsuccessors
    rw [number_inj hd hold] at he
    rwa [he]

theorem reportsUnreachable_iff (h : Renames g t t') (hw : t.WellFormed initial) :
    reportsUnreachable (t'.resolved (g initial)).lint name ↔
      ∃ old, reportsUnreachable (t.resolved initial).lint old ∧ g old = name := by
  rw [(h.wellFormed hw).reportsUnreachable_iff, h.declares_iff]
  constructor
  · rintro ⟨⟨old, hold, rfl⟩, hne, hreach⟩
    refine ⟨old, hw.reportsUnreachable_iff.mpr ⟨hold, ?_, ?_⟩, rfl⟩
    · exact fun he => hne ((h.eq_complete_iff hold).mpr he)
    · exact fun hr => hreach ((h.reaches_iff hw hold).mpr hr)
  · rintro ⟨old, hreported, rfl⟩
    obtain ⟨hold, hne, hreach⟩ := hw.reportsUnreachable_iff.mp hreported
    refine ⟨⟨old, hold, rfl⟩, ?_, ?_⟩
    · exact fun he => hne ((h.eq_complete_iff hold).mp he)
    · exact fun hr => hreach ((h.reaches_iff hw hold).mp hr)

theorem shadowedIn_rename (f f' : String → Nat) (c : Configuration String) :
    Program.shadowedIn ((c.rename g).map f') =
      (Program.shadowedIn (c.map f)).map (Warning.rename g) := by
  have hrules : ((c.rename g).map f').rules = (c.map (f' ∘ g)).rules := by
    simp [Configuration.rename, Configuration.map, Rule.map, Function.comp_def]
  rw [Program.shadowedIn_map f (f' ∘ g), Program.shadowedIn, Program.shadowedIn, hrules,
    List.map_filterMap]
  simp only [Option.map_map]
  rfl

/-- The findings about shadowed rules are those of the first table under the new names. -/
theorem shadowed_perm (h : Renames g t t') :
    (t'.resolved (g initial)).shadowed.Perm
      ((t.resolved initial).shadowed.map (Warning.rename g)) := by
  have hperm := h.perm.flatMap_right fun c => Program.shadowedIn (c.map t'.number)
  rw [List.flatMap_map] at hperm
  rw [shadowed_resolved, shadowed_resolved, List.map_flatMap]
  refine hperm.trans (List.Perm.of_eq ?_)
  refine List.flatMap_congr ?_
  intro c _
  exact shadowedIn_rename t.number t'.number c

theorem shadowed_mem_iff (h : Renames g t t') {i j : Nat} :
    Warning.shadowed name i j ∈ (t'.resolved (g initial)).lint ↔
      ∃ old, Warning.shadowed old i j ∈ (t.resolved initial).lint ∧ g old = name := by
  rw [Program.shadowed_mem_lint_iff_mem_shadowed, h.shadowed_perm.mem_iff, List.mem_map]
  constructor
  · rintro ⟨w, hw, he⟩
    cases w with
    | unreachable names => exact nomatch he
    | shadowed old i' j' =>
      obtain ⟨rfl, rfl, rfl⟩ := Warning.shadowed.inj he
      exact ⟨old, Program.shadowed_mem_lint_iff_mem_shadowed.mpr hw, rfl⟩
  · rintro ⟨old, hold, rfl⟩
    exact ⟨_, Program.shadowed_mem_lint_iff_mem_shadowed.mp hold, rfl⟩

end Renames

/-- **Runs depend neither on the order of declaration nor on names.**  If a table is accepted, then so
is one that declares its configurations in another order and under other names.  The records of its
run are those of the first table under the new names, apart from the name of the synthetic
configuration, and so are the findings. -/
theorem run_renamed (h : Renames g t t') (hb : t.build initial = .ok p) :
    ∃ q, t'.build (g initial) = .ok q ∧
      (∀ n,
        let r := Record.ofSnapshot p (p.step^[n] p.start)
        Record.ofSnapshot q (q.step^[n] q.start) = r.rename g ∧
          (r.step = 0 → r.configuration = beginName)) ∧
      (∀ name, reportsUnreachable q.lint name ↔
        ∃ old, reportsUnreachable p.lint old ∧ g old = name) ∧
      ∀ name i j, Warning.shadowed name i j ∈ q.lint ↔
        ∃ old, Warning.shadowed old i j ∈ p.lint ∧ g old = name := by
  obtain ⟨hw, rfl⟩ := build_eq_ok_iff.mp hb
  refine ⟨_, (h.wellFormed hw).build_eq, ?records, ?unreachable, ?shadowed⟩
  case records =>
    intro n
    refine ⟨h.record_eq hw n, ?_⟩
    intro hstep
    have hcurrent := (Program.consistent_iterate hw.closed_resolved n).entry_iff.mpr hstep
    rw [Record.ofSnapshot, hcurrent, configurationName_entry]
  case unreachable =>
    intro name
    exact h.reportsUnreachable_iff hw
  case shadowed =>
    intro name i j
    exact h.shadowed_mem_iff

/-- The initial configuration comes to be called `begin`, the one that was called so gets another
name, and `complete` is declared in another place. -/
theorem run_renamed_begin :
    let g : String → String := Equiv.swap "b" beginName
    let t : Table := {
      name := "names"
      configurations := [
        ⟨"b", [⟨.none, [.print "0", .move .right], beginName⟩]⟩,
        ⟨completeName, []⟩,
        ⟨beginName, [⟨.none, [.print "1"], "b"⟩, ⟨.none, [], completeName⟩]⟩,
        ⟨"spare", [⟨.nonBlank, [], completeName⟩]⟩] }
    let t' : Table := {
      name := "names"
      configurations := [
        ⟨"spare", [⟨.nonBlank, [], completeName⟩]⟩,
        ⟨"b", [⟨.none, [.print "1"], beginName⟩, ⟨.none, [], completeName⟩]⟩,
        ⟨beginName, [⟨.none, [.print "0", .move .right], "b"⟩]⟩,
        ⟨completeName, []⟩] }
    let p := t.resolved "b"
    Renames g t t' ∧ t.build "b" = .ok p ∧ reportsUnreachable p.lint "spare" ∧
      .shadowed beginName 1 0 ∈ p.lint ∧
      ∃ q, t'.build beginName = .ok q ∧ reportsUnreachable q.lint "spare" ∧
        .shadowed "b" 1 0 ∈ q.lint ∧
        ∀ n, Record.ofSnapshot q (q.step^[n] q.start) =
          (Record.ofSnapshot p (p.step^[n] p.start)).rename g := by
  intro g t t' p
  have hg : g "b" = beginName := Equiv.swap_apply_left _ _
  have hinjective : Function.Injective g := (Equiv.swap "b" beginName).injective
  have hr : Renames g t t' := {
    perm := by decide
    injOn := hinjective.injOn
    complete_eq := Equiv.swap_apply_of_ne_of_ne (by decide) (by decide) }
  have hb : t.build "b" = .ok p := rfl
  have hlint : p.lint = [.unreachable ["spare"], .shadowed beginName 1 0] := by
    cbv
  have hspare : reportsUnreachable p.lint "spare" := by
    rw [hlint]
    decide
  have hshadowed : .shadowed beginName 1 0 ∈ p.lint := by
    rw [hlint]
    decide
  obtain ⟨q, hq, hrecords, hunreachable, hcovered⟩ := run_renamed hr hb
  rw [hg] at hq
  refine ⟨hr, hb, hspare, hshadowed, q, hq, ?_, ?_, fun n => (hrecords n).1⟩
  · exact (hunreachable "spare").mpr
      ⟨"spare", hspare, Equiv.swap_apply_of_ne_of_ne (by decide) (by decide)⟩
  · exact (hcovered "b" 1 0).mpr ⟨beginName, hshadowed, Equiv.swap_apply_right _ _⟩

end Table

end AutomaticMachine
