/-
The findings about shadowed rules are exact.

A rule is preempted by a rule that stands before it in its configuration and
accepts all that it accepts, whether or not that rule is preempted itself.
The search through all pairs of rules finds just the preempted ones, and names
the first rule that preempts each.

* `Configuration.Preempts.exists_selected`         — no preempted rule is selected;
* `Program.firstCovering?_take_eq_some_iff`        — which rule is named;
* `Table.WellFormed.shadowed_mem_lint_iff_isLeast` — which findings there are;
* `Table.WellFormed.places_lint_pairwise`          — in which order they come;
* `Table.shadowed_findings_exact`                  — the main statement.
-/
import AutomaticMachine.Proofs.Lint.Shadowed
import AutomaticMachine.Proofs.Lint.Unreachable
import Mathlib.Order.Bounds.Basic

namespace AutomaticMachine

namespace Configuration

variable {ν : Type} {c : Configuration ν} {i j : Nat}

/-- Rule `j` stands before rule `i` and accepts every symbol that rule `i` accepts. -/
def Preempts (c : Configuration ν) (j i : Nat) : Prop :=
  j < i ∧ ∃ r r', c.rules[i]? = some r ∧ c.rules[j]? = some r' ∧
    ∀ x, r.matcher.Accepts x → r'.matcher.Accepts x

theorem preempts_iff {r : Rule ν} (hr : c.rules[i]? = some r) :
    c.Preempts j i ↔ ∃ r', (c.rules.take i)[j]? = some r' ∧ r'.matcher.covers r.matcher := by
  constructor
  · rintro ⟨hji, r₀, r', hr₀, hr', haccepts⟩
    obtain rfl : r = r₀ := Option.some.inj (hr.symm.trans hr₀)
    exact ⟨r', by rw [List.getElem?_take_of_lt hji, hr'], Matcher.covers_of_forall_accepts haccepts⟩
  · rintro ⟨r', hr', hcovers⟩
    have hji : j < i := by
      have hlt := (List.getElem?_eq_some_iff.mp hr').1
      rw [List.length_take] at hlt
      omega
    rw [List.getElem?_take_of_lt hji] at hr'
    exact ⟨hji, r, r', hr, hr', fun x => Matcher.accepts_of_covers hcovers⟩

theorem shadowed_iff_exists_preempts : c.Shadowed i ↔ ∃ j, c.Preempts j i := by
  constructor
  · rintro ⟨r, hr, j, r', hji, hr', hcovers⟩
    exact ⟨j, hji, r, r', hr, hr', fun x => Matcher.accepts_of_covers hcovers⟩
  · rintro ⟨j, hji, r, r', hr, hr', haccepts⟩
    exact ⟨r, hr, j, r', hji, hr', Matcher.covers_of_forall_accepts haccepts⟩

/-- A preempted rule is not selected for any symbol, since the rule before it accepts it too. -/
theorem Preempts.exists_selected (h : c.Preempts j i) {x : Symbol} {r : Rule ν}
    (hfound : c.findRule? x = some r) :
    ∃ k, k ≠ i ∧ c.findRuleIndex? x = some k ∧ c.rules[k]? = some r := by
  obtain ⟨hji, r₀, r', hr₀, hr', haccepts⟩ := h
  obtain ⟨hx, k, hk, rfl, hfirst⟩ := List.find?_eq_some_iff_getElem.mp hfound
  have hselected : c.findRuleIndex? x = some k := by
    refine List.findIdx?_eq_some_iff_getElem.mpr ⟨hk, hx, ?_⟩
    intro m hm
    simpa using hfirst m hm
  refine ⟨k, ?_, hselected, List.getElem?_eq_getElem hk⟩
  rintro rfl
  obtain ⟨hj, rfl⟩ := List.getElem?_eq_some_iff.mp hr'
  obtain rfl := Option.some.inj ((List.getElem?_eq_getElem hk).symm.trans hr₀)
  have hnot : ¬ c.rules[j].matcher.Accepts x := by simpa using hfirst j hji
  exact hnot (haccepts x (by simpa using hx))

end Configuration

namespace Program

variable {p : Program}

/-- The rule that is named is the first that preempts. -/
theorem firstCovering?_take_eq_some_iff {c : Configuration Nat} {i j : Nat} {r : Rule Nat}
    (hr : c.rules[i]? = some r) :
    firstCovering? (c.rules.take i) r.matcher = some j ↔ IsLeast {j | c.Preempts j i} j := by
  rw [firstCovering?, List.findIdx?_eq_some_iff_getElem]
  constructor
  · rintro ⟨hlt, hcovers, hfirst⟩
    refine ⟨(Configuration.preempts_iff hr).mpr ⟨_, List.getElem?_eq_getElem hlt, hcovers⟩, ?_⟩
    intro k hk
    refine Nat.le_of_not_lt ?_
    intro hkj
    obtain ⟨r', hr', hcovers'⟩ := (Configuration.preempts_iff hr).mp hk
    obtain ⟨hlt', rfl⟩ := List.getElem?_eq_some_iff.mp hr'
    exact hfirst k hkj hcovers'
  · rintro ⟨hj, hleast⟩
    obtain ⟨r', hr', hcovers⟩ := (Configuration.preempts_iff hr).mp hj
    obtain ⟨hlt, rfl⟩ := List.getElem?_eq_some_iff.mp hr'
    refine ⟨hlt, hcovers, ?_⟩
    intro k hkj hcovers'
    have hk : c.Preempts k i :=
      (Configuration.preempts_iff hr).mpr ⟨_, List.getElem?_eq_getElem _, hcovers'⟩
    have := hleast hk
    omega

/-- Where the rule stands that a finding is about: the number of its configuration and its place
there. -/
def place? (p : Program) : Warning → Option (Nat × Nat)
  | .shadowed name i _ => (p.configurationNumber? name).map (·, i)
  | .unreachable _ => none

theorem filterMap_place?_lint (p : Program) :
    p.lint.filterMap p.place? =
      p.configurations.flatMap fun c => (shadowedIn c).filterMap p.place? := by
  rw [lint, List.filterMap_append, shadowed, List.filterMap_flatMap]
  split <;> rfl

theorem exists_of_mem_shadowedIn {c : Configuration Nat} {finding : Warning}
    (h : finding ∈ shadowedIn c) :
    ∃ i j, finding = .shadowed c.name i j ∧ IsLeast {j | c.Preempts j i} j := by
  obtain ⟨⟨r, i⟩, hr, hfinding⟩ := List.mem_filterMap.mp h
  obtain ⟨j, hj, rfl⟩ := Option.map_eq_some_iff.mp hfinding
  exact ⟨i, j, rfl, (firstCovering?_take_eq_some_iff (List.mk_mem_zipIdx_iff_getElem?.mp hr)).mp hj⟩

theorem exists_of_mem_places {c : Configuration Nat} {place : Nat × Nat}
    (h : place ∈ (shadowedIn c).filterMap p.place?) :
    ∃ k i j, place = (k, i) ∧ p.configurationNumber? c.name = some k ∧ c.Preempts j i := by
  obtain ⟨finding, hmem, hplace⟩ := List.mem_filterMap.mp h
  obtain ⟨i, j, rfl, hj⟩ := exists_of_mem_shadowedIn hmem
  obtain ⟨k, hk, rfl⟩ := Option.map_eq_some_iff.mp hplace
  exact ⟨k, i, j, rfl, hk, hj.1⟩

/-- The findings about one configuration come in the order of its rules. -/
theorem places_shadowedIn_pairwise (p : Program) (c : Configuration Nat) :
    ((shadowedIn c).filterMap p.place?).Pairwise (Prod.Lex (· < ·) (· < ·)) := by
  have hplace : ∀ i place (found : Option Nat),
      (found.map fun j => Warning.shadowed c.name i j).bind p.place? = some place →
        ∃ k, p.configurationNumber? c.name = some k ∧ place = (k, i) := by
    intro i place found h
    obtain ⟨_, hfinding, hplace⟩ := Option.bind_eq_some_iff.mp h
    obtain ⟨j, -, rfl⟩ := Option.map_eq_some_iff.mp hfinding
    obtain ⟨k, hk, rfl⟩ := Option.map_eq_some_iff.mp hplace
    exact ⟨k, hk, rfl⟩
  rw [shadowedIn, List.filterMap_filterMap, List.pairwise_filterMap]
  refine c.zipIdx_rules_pairwise.imp ?_
  rintro ⟨r, i⟩ ⟨r', i'⟩ hlt place h place' h'
  obtain ⟨k, hk, rfl⟩ := hplace _ _ _ h
  obtain ⟨k', hk', rfl⟩ := hplace _ _ _ h'
  obtain rfl := Option.some.inj (hk.symm.trans hk')
  exact Prod.Lex.right k hlt

end Program

namespace Table

variable {t : Table} {initial : String} {p : Program}

/-- The synthetic configuration has one rule only. -/
theorem not_preempts_entry {c : Configuration Nat}
    (hc : (t.resolved initial).configuration? (t.resolved initial).entry = some c) (i j : Nat) :
    ¬ c.Preempts j i := by
  rw [configuration?_entry] at hc
  obtain rfl := Option.some.inj hc
  intro hj
  exact Configuration.not_shadowed_singleton i
    (Configuration.shadowed_iff_exists_preempts.mpr ⟨j, hj⟩)

/-- A configuration with a preempted rule is not the synthetic one, so it is found by its name. -/
theorem WellFormed.configurationNumber?_of_preempts (h : t.WellFormed initial) {k i j : Nat}
    {c : Configuration Nat} (hc : (t.resolved initial).configuration? k = some c)
    (hj : c.Preempts j i) : (t.resolved initial).configurationNumber? c.name = some k := by
  rw [Program.configurationNumber?_eq_some_iff h.closed_resolved.length_eq h.distinct_resolved]
  refine ⟨?_, by rw [hc]; rfl⟩
  rintro rfl
  exact not_preempts_entry hc i j hj

theorem WellFormed.name_eq_of_configurationNumber? (h : t.WellFormed initial) {name : String}
    {k : Nat} {c : Configuration Nat} (hk : (t.resolved initial).configurationNumber? name = some k)
    (hc : (t.resolved initial).configuration? k = some c) : c.name = name := by
  rw [Program.configurationNumber?_eq_some_iff h.closed_resolved.length_eq h.distinct_resolved,
    hc] at hk
  exact Option.some.inj hk.2

theorem WellFormed.shadowed_mem_lint_iff_isLeast (h : t.WellFormed initial) {name : String}
    {i j : Nat} : Warning.shadowed name i j ∈ (t.resolved initial).lint ↔
      ∃ k c, (t.resolved initial).configurationNumber? name = some k ∧
        (t.resolved initial).configuration? k = some c ∧ IsLeast {j | c.Preempts j i} j := by
  rw [Program.shadowed_mem_lint_iff]
  constructor
  · rintro ⟨c, hc, rfl, r, hr, hj⟩
    obtain ⟨k, hk⟩ := List.getElem?_of_mem hc
    have hleast := (Program.firstCovering?_take_eq_some_iff hr).mp hj
    exact ⟨k, c, h.configurationNumber?_of_preempts hk hleast.1, hk, hleast⟩
  · rintro ⟨k, c, hk, hc, hleast⟩
    obtain ⟨-, r, -, hr, -⟩ := hleast.1
    exact ⟨c, List.mem_of_getElem? hc, h.name_eq_of_configurationNumber? hk hc, r, hr,
      (Program.firstCovering?_take_eq_some_iff hr).mpr hleast⟩

/-- The findings come in the order of the configurations, and for one configuration in the order of
its rules. -/
theorem WellFormed.places_lint_pairwise (h : t.WellFormed initial) :
    ((t.resolved initial).lint.filterMap (t.resolved initial).place?).Pairwise
      (Prod.Lex (· < ·) (· < ·)) := by
  rw [Program.filterMap_place?_lint, List.pairwise_flatMap]
  refine ⟨fun c _ => Program.places_shadowedIn_pairwise _ c, ?_⟩
  rw [List.pairwise_iff_getElem]
  intro a b ha hb hab place hplace place' hplace'
  obtain ⟨k, i, j, rfl, hk, hj⟩ := Program.exists_of_mem_places hplace
  obtain ⟨k', i', j', rfl, hk', hj'⟩ := Program.exists_of_mem_places hplace'
  rw [h.configurationNumber?_of_preempts (List.getElem?_eq_getElem ha) hj] at hk
  rw [h.configurationNumber?_of_preempts (List.getElem?_eq_getElem hb) hj'] at hk'
  obtain rfl := Option.some.inj hk
  obtain rfl := Option.some.inj hk'
  exact Prod.Lex.left _ _ hab

/-- No finding is made twice. -/
theorem WellFormed.nodup_lint (h : t.WellFormed initial) : (t.resolved initial).lint.Nodup := by
  have hshadowed : (t.resolved initial).shadowed.Nodup := by
    have hplaces := h.places_lint_pairwise
    rw [Program.lint, List.filterMap_append, List.pairwise_append] at hplaces
    have hordered := List.pairwise_filterMap.mp hplaces.2.1
    refine hordered.imp_of_mem ?_
    rintro finding _ hmem - hlex rfl
    obtain ⟨c, hc, hmem⟩ := List.mem_flatMap.mp hmem
    obtain ⟨i, j, rfl, hj⟩ := Program.exists_of_mem_shadowedIn hmem
    obtain ⟨k, hk⟩ := List.getElem?_of_mem hc
    have hplace : (t.resolved initial).place? (.shadowed c.name i j) = some (k, i) := by
      rw [Program.place?, h.configurationNumber?_of_preempts hk hj.1]
      rfl
    rcases Prod.lex_def.mp (hlex _ hplace _ hplace) with hlt | ⟨-, hlt⟩
    · exact Nat.lt_irrefl _ hlt
    · exact Nat.lt_irrefl _ hlt
  rw [Program.lint]
  split
  · exact hshadowed
  · exact List.nodup_cons.mpr ⟨Program.not_unreachable_mem_shadowed, hshadowed⟩

/-- No finding is about the synthetic configuration. -/
theorem shadowedIn_entry :
    ((t.resolved initial).configuration? (t.resolved initial).entry).map Program.shadowedIn =
      some [] := by
  rw [configuration?_entry]
  rfl

/-- **The findings about shadowed rules are exact.**  A rule is reported if and only if a rule
before it in its configuration accepts all that it accepts, and then the first such rule is named;
the rule itself is not selected for any symbol.  No finding is made twice, they come in the order
of the configurations and of the rules of each, and none is about the synthetic configuration. -/
theorem shadowed_findings_exact (hb : t.build initial = .ok p) :
    (∀ name i, (∃ j, Warning.shadowed name i j ∈ p.lint) ↔
      ∃ k c j, p.configurationNumber? name = some k ∧ p.configuration? k = some c ∧
        c.Preempts j i) ∧
    (∀ name i j, Warning.shadowed name i j ∈ p.lint →
      ∃ k c, p.configurationNumber? name = some k ∧ p.configuration? k = some c ∧
        IsLeast {j | c.Preempts j i} j ∧
        ∀ x r, c.findRule? x = some r →
          ∃ m, m ≠ i ∧ c.findRuleIndex? x = some m ∧ c.rules[m]? = some r) ∧
    p.lint.Nodup ∧ (p.lint.filterMap p.place?).Pairwise (Prod.Lex (· < ·) (· < ·)) ∧
    (p.configuration? p.entry).map Program.shadowedIn = some [] := by
  obtain ⟨hw, rfl⟩ := build_eq_ok_iff.mp hb
  refine ⟨?reported, ?least, hw.nodup_lint, hw.places_lint_pairwise, shadowedIn_entry⟩
  case reported =>
    intro name i
    constructor
    · rintro ⟨j, hmem⟩
      obtain ⟨k, c, hk, hc, hj⟩ := hw.shadowed_mem_lint_iff_isLeast.mp hmem
      exact ⟨k, c, j, hk, hc, hj.1⟩
    · rintro ⟨k, c, j, hk, hc, hj⟩
      exact reportsShadowed_iff.mp (Program.reportsShadowed_lint_iff.mpr
        ⟨c, List.mem_of_getElem? hc, hw.name_eq_of_configurationNumber? hk hc,
          Configuration.shadowed_iff_exists_preempts.mpr ⟨j, hj⟩⟩)
  case least =>
    intro name i j hmem
    obtain ⟨k, c, hk, hc, hj⟩ := hw.shadowed_mem_lint_iff_isLeast.mp hmem
    exact ⟨k, c, hk, hc, hj, fun x r hfound => hj.1.exists_selected hfound⟩

/-- The second rule preempts the third and the fourth, and the third, which is preempted itself,
preempts the fourth as well; the findings name the second for both.  A declared configuration that
is called `begin` has its findings like any other. -/
theorem shadowed_findings_exact_chain :
    let t : Table := {
      name := "chain"
      configurations := [
        ⟨"b", [
          ⟨.none, [.print "0"], "b"⟩,
          ⟨.nonBlank, [.move .right], beginName⟩,
          ⟨.anyOf (.ofList ["0", "1"]), [.erase], "b"⟩,
          ⟨.symbol "1", [], "b"⟩]⟩,
        ⟨beginName, [⟨.anyOf (.ofList ["x"]), [], "b"⟩, ⟨.symbol "x", [], completeName⟩]⟩] }
    let p := t.resolved "b"
    t.build "b" = .ok p ∧
      p.lint = [.shadowed "b" 2 1, .shadowed "b" 3 1, .shadowed beginName 1 0] ∧
      ∃ c, p.configuration? 0 = some c ∧ c.Preempts 2 3 ∧ IsLeast {j | c.Preempts j 3} 1 ∧
        ∀ x r, c.findRule? x = some r → c.findRuleIndex? x ≠ some 3 := by
  intro t p
  have hb : t.build "b" = .ok p := rfl
  have hlint : p.lint = [.shadowed "b" 2 1, .shadowed "b" 3 1, .shadowed beginName 1 0] := by
    cbv
  obtain ⟨-, hleast, -⟩ := shadowed_findings_exact hb
  have hfourth : Warning.shadowed "b" 3 1 ∈ p.lint := by
    rw [hlint]
    exact List.mem_cons_of_mem _ List.mem_cons_self
  obtain ⟨k, c, hk, hc, hj, hselected⟩ := hleast _ _ _ hfourth
  obtain rfl : 0 = k := Option.some.inj hk
  have hthird : c.Preempts 2 3 := by
    obtain rfl := Option.some.inj hc
    exact (Configuration.preempts_iff rfl).mpr ⟨_, rfl, by decide⟩
  refine ⟨hb, hlint, c, hc, hthird, hj, ?_⟩
  intro x r hfound hindex
  obtain ⟨m, hm, hindex', -⟩ := hselected x r hfound
  exact hm (Option.some.inj (hindex'.symm.trans hindex))

end Table

end AutomaticMachine
