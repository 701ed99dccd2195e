/-
Rules that are reported as shadowed can be left out.

A rule is shadowed where one earlier rule of its configuration accepts all
that it accepts.  Such a rule is never found, whichever symbol is scanned, so
a table without it runs as before.

* `Configuration.findRule?_keep`     — leaving out shadowed rules does not change what is found;
* `Program.reportsShadowed_lint_iff` — what is reported of a program;
* `Program.LooksLike.iterate_step`   — programs that select the same rules run alike;
* `Table.run_withoutShadowed`        — the main statement, on the records of whole runs.
-/
import AutomaticMachine.Catalogue
import AutomaticMachine.Program.Lint
import AutomaticMachine.Proofs.Matcher.Covering
import AutomaticMachine.Proofs.Table.Names
import AutomaticMachine.Record
import Mathlib.Logic.Function.Iterate

namespace AutomaticMachine

namespace Configuration

variable {ν μ : Type}

/-- Rule `i` can not apply, because one that comes before it covers it. -/
def Shadowed (c : Configuration ν) (i : Nat) : Prop :=
  ∃ r, c.rules[i]? = some r ∧
    ∃ j r', j < i ∧ c.rules[j]? = some r' ∧ r'.matcher.covers r.matcher

theorem shadowed_map_iff {f : ν → μ} {c : Configuration ν} {i : Nat} :
    (c.map f).Shadowed i ↔ c.Shadowed i := by
  simp [Shadowed, map, Rule.map]

/-- A single rule has no rule before it. -/
theorem not_shadowed_singleton {name : String} {r : Rule ν} (i : Nat) :
    ¬ Shadowed { name := name, rules := [r] } i := by
  rintro ⟨r', hr', j, -, hji, -⟩
  have hi := (List.getElem?_eq_some_iff.mp hr').1
  rw [List.length_singleton] at hi
  omega

/-- The configuration with the rules at some of its places only. -/
def keep (c : Configuration ν) (places : Nat → Bool) : Configuration ν :=
  { name := c.name
    rules := (c.rules.zipIdx.filter fun (_, i) => places i).map Prod.fst }

variable {c : Configuration ν} {places : Nat → Bool}

theorem zipIdx_rules_pairwise (c : Configuration ν) :
    c.rules.zipIdx.Pairwise fun a b => a.2 < b.2 := by
  rw [← List.pairwise_map, List.zipIdx_map_snd]
  exact List.pairwise_lt_range'

theorem mem_rules_keep {r : Rule ν} :
    r ∈ (c.keep places).rules ↔ ∃ i, c.rules[i]? = some r ∧ places i := by
  rw [keep, List.mem_map]
  constructor
  · rintro ⟨⟨r', i⟩, hr, rfl⟩
    obtain ⟨hr, hi⟩ := List.mem_filter.mp hr
    exact ⟨i, List.mk_mem_zipIdx_iff_getElem?.mp hr, hi⟩
  · rintro ⟨i, hr, hi⟩
    exact ⟨(r, i), List.mem_filter.mpr ⟨List.mk_mem_zipIdx_iff_getElem?.mpr hr, hi⟩, rfl⟩

theorem mem_of_mem_keep {r : Rule ν} (h : r ∈ (c.keep places).rules) : r ∈ c.rules := by
  obtain ⟨i, hr, -⟩ := mem_rules_keep.mp h
  exact List.mem_of_getElem? hr

/-- Where only shadowed rules are left out the same rules are found. -/
theorem findRule?_keep (h : ∀ i, places i = false → c.Shadowed i) (s : Symbol) :
    (c.keep places).findRule? s = c.findRule? s := by
  cases hfound : c.findRule? s with
  | none =>
    rw [findRule?_eq_none_iff] at hfound ⊢
    intro r hr
    exact hfound r (mem_of_mem_keep hr)
  | some r =>
    obtain ⟨haccepts, front, rest, hrules, hfront⟩ := List.find?_eq_some_iff_append.mp hfound
    have hfront' : ∀ r' ∈ front, ¬ r'.matcher.Accepts s := by
      intro r' hr'
      simpa using hfront r' hr'
    -- The rule that is found is not shadowed, since no rule before it accepts the symbol.
    have hplace : places front.length = true := by
      refine Bool.of_not_eq_false ?_
      intro hleft
      obtain ⟨r₀, hr₀, j, r', hj, hr', hcovers⟩ := h _ hleft
      rw [hrules, List.getElem?_append_right (Nat.le_refl _), Nat.sub_self] at hr₀
      obtain rfl : r = r₀ := Option.some.inj hr₀
      rw [hrules, List.getElem?_append_left hj] at hr'
      exact hfront' r' (List.mem_of_getElem? hr')
        (Matcher.accepts_of_covers hcovers (of_decide_eq_true haccepts))
    have hkept : (c.keep places).rules =
        (front.zipIdx.filter fun (_, i) => places i).map Prod.fst ++
          r :: ((rest.zipIdx (0 + front.length + 1)).filter fun (_, i) => places i).map Prod.fst := by
      rw [keep, hrules, List.zipIdx_append, List.zipIdx_cons, List.filter_append,
        List.filter_cons_of_pos (by simpa using hplace), List.map_append, List.map_cons]
    refine List.find?_eq_some_iff_append.mpr ⟨haccepts, _, _, hkept, ?_⟩
    intro r' hr'
    obtain ⟨⟨r'', i⟩, hr'', rfl⟩ := List.mem_map.mp hr'
    have hmem := List.mk_mem_zipIdx_iff_getElem?.mp (List.mem_filter.mp hr'').1
    exact hfront _ (List.mem_of_getElem? hmem)

/-- Where all shadowed rules are left out none is left. -/
theorem not_shadowed_keep (h : ∀ i, places i = true → ¬ c.Shadowed i) (i : Nat) :
    ¬ (c.keep places).Shadowed i := by
  -- Of two rules that are kept, the one that comes first has come first before.
  have hkept : ((c.rules.zipIdx.filter fun (_, i) => places i)).Pairwise
      fun a b => a.1.matcher.covers b.1.matcher = false := by
    refine (c.zipIdx_rules_pairwise.filter _).imp_of_mem ?_
    intro a b ha hb hab
    obtain ⟨ha, -⟩ := List.mem_filter.mp ha
    obtain ⟨hb, hplace⟩ := List.mem_filter.mp hb
    refine Bool.of_not_eq_true ?_
    intro hcovers
    exact h b.2 hplace ⟨b.1, List.mem_zipIdx_iff_getElem?.mp hb, a.2, a.1, hab,
      List.mem_zipIdx_iff_getElem?.mp ha, hcovers⟩
  have hrules : (c.keep places).rules.Pairwise fun r r' => r.matcher.covers r'.matcher = false :=
    List.pairwise_map.mpr hkept
  rintro ⟨r, hr, j, r', hj, hr', hcovers⟩
  obtain ⟨hi, rfl⟩ := List.getElem?_eq_some_iff.mp hr
  obtain ⟨hj', rfl⟩ := List.getElem?_eq_some_iff.mp hr'
  rw [List.pairwise_iff_getElem.mp hrules j i hj' hi hj] at hcovers
  exact nomatch hcovers

end Configuration

/-! ### What is reported -/

/-- Some finding is that rule `i` of the configuration with this name is shadowed. -/
def reportsShadowed (findings : List Warning) (name : String) (i : Nat) : Bool :=
  findings.any fun
    | .shadowed configuration rule _ => configuration == name && rule == i
    | .unreachable _ => false

theorem reportsShadowed_iff {findings : List Warning} {name : String} {i : Nat} :
    reportsShadowed findings name i ↔ ∃ j, .shadowed name i j ∈ findings := by
  rw [reportsShadowed, List.any_eq_true]
  constructor
  · rintro ⟨finding, hmem, h⟩
    cases finding with
    | unreachable names => exact nomatch h
    | shadowed configuration rule earlier =>
      obtain ⟨rfl, rfl⟩ : configuration = name ∧ rule = i := by simpa using h
      exact ⟨earlier, hmem⟩
  · rintro ⟨j, hmem⟩
    exact ⟨_, hmem, by simp⟩

namespace Program

variable {p q : Program}

theorem shadowed_mem_lint_iff_mem_shadowed {name : String} {i j : Nat} :
    Warning.shadowed name i j ∈ p.lint ↔ Warning.shadowed name i j ∈ p.shadowed := by
  have hfirst : Warning.shadowed name i j ∉
      (if p.unreachable.isEmpty then [] else [.unreachable p.unreachable] : List Warning) := by
    split <;> simp
  rw [lint, List.mem_append, or_iff_right hfirst]

theorem shadowed_mem_lint_iff {name : String} {i j : Nat} :
    Warning.shadowed name i j ∈ p.lint ↔
      ∃ c ∈ p.configurations, c.name = name ∧ ∃ r, c.rules[i]? = some r ∧
        firstCovering? (c.rules.take i) r.matcher = some j := by
  rw [shadowed_mem_lint_iff_mem_shadowed, shadowed, List.mem_flatMap]
  constructor
  · rintro ⟨c, hc, hmem⟩
    obtain ⟨⟨r, k⟩, hr, hk⟩ := List.mem_filterMap.mp hmem
    obtain ⟨j', hj', hwarning⟩ := Option.map_eq_some_iff.mp hk
    obtain ⟨rfl, rfl, rfl⟩ := Warning.shadowed.inj hwarning
    exact ⟨c, hc, rfl, r, List.mk_mem_zipIdx_iff_getElem?.mp hr, hj'⟩
  · rintro ⟨c, hc, rfl, r, hr, hj⟩
    refine ⟨c, hc, List.mem_filterMap.mpr ⟨(r, i), List.mk_mem_zipIdx_iff_getElem?.mpr hr, ?_⟩⟩
    show (firstCovering? (c.rules.take i) r.matcher).map _ = _
    rw [hj]
    rfl

/-- Just the shadowed rules are reported. -/
theorem reportsShadowed_lint_iff {name : String} {i : Nat} :
    reportsShadowed p.lint name i ↔
      ∃ c ∈ p.configurations, c.name = name ∧ c.Shadowed i := by
  rw [reportsShadowed_iff]
  constructor
  · rintro ⟨j, hmem⟩
    obtain ⟨c, hc, hname, r, hr, hj⟩ := shadowed_mem_lint_iff.mp hmem
    obtain ⟨hlt, hcovers, -⟩ := List.findIdx?_eq_some_iff_getElem.mp hj
    have hji : j < i := by
      rw [List.length_take] at hlt
      omega
    refine ⟨c, hc, hname, r, hr, j, _, hji, ?_, hcovers⟩
    rw [List.getElem_take, List.getElem?_eq_getElem]
  · rintro ⟨c, hc, hname, r, hr, j, r', hj, hr', hcovers⟩
    have hmem : r' ∈ c.rules.take i := List.mem_of_getElem? (List.getElem?_take_of_lt hj ▸ hr')
    cases hfirst : firstCovering? (c.rules.take i) r.matcher with
    | some k => exact ⟨k, shadowed_mem_lint_iff.mpr ⟨c, hc, hname, r, hr, hfirst⟩⟩
    | none =>
      have hnone := List.findIdx?_eq_none_iff.mp hfirst r' hmem
      rw [hnone] at hcovers
      exact nomatch hcovers

/-! ### Programs that look alike -/

/-- The programs select the same rules and call their configurations by the same names. -/
structure LooksLike (p q : Program) : Prop where
  initial_eq : p.initial = q.initial
  entry_eq : p.entry = q.entry
  name_eq : ∀ i, p.configurationName i = q.configurationName i
  findRule?_eq : ∀ i s, p.findRule? i s = q.findRule? i s

theorem LooksLike.step_eq (h : p.LooksLike q) (s : Snapshot) : p.step s = q.step s := by
  have horder : p.order? s = q.order? s := by
    rw [order?, order?, h.findRule?_eq]
  rw [step, step, horder]

theorem LooksLike.iterate_step (h : p.LooksLike q) (n : Nat) :
    p.step^[n] p.start = q.step^[n] q.start := by
  induction n with
  | zero =>
    show p.start = q.start
    rw [start, start, h.initial_eq, h.entry_eq]
  | succ n ih =>
    rw [Function.iterate_succ_apply', Function.iterate_succ_apply', ih, h.step_eq]

theorem LooksLike.record_eq (h : p.LooksLike q) (s : Snapshot) :
    Record.ofSnapshot p s = Record.ofSnapshot q s := by
  rw [Record.ofSnapshot, Record.ofSnapshot, h.name_eq, h.name_eq]

end Program

/-! ### Leaving the shadowed rules out -/

/-- The configuration without the rules that are reported as shadowed. -/
def Configuration.withoutShadowed {ν : Type} (findings : List Warning) (c : Configuration ν) :
    Configuration ν :=
  c.keep fun i => !reportsShadowed findings c.name i

namespace Table

/-- The table without the rules that are reported as shadowed. -/
def withoutShadowed (findings : List Warning) (t : Table) : Table :=
  { name := t.name
    configurations := t.configurations.map (·.withoutShadowed findings) }

variable {t : Table} {initial : String} {p : Program} {findings : List Warning}

theorem names_withoutShadowed : (t.withoutShadowed findings).names = t.names :=
  names_eq_of_map rfl fun _ => rfl

theorem withComplete_withoutShadowed :
    (t.withoutShadowed findings).withComplete =
      t.withComplete.map (·.withoutShadowed findings) :=
  withComplete_eq_of_map rfl (fun _ => rfl) rfl

theorem number_withoutShadowed : (t.withoutShadowed findings).number = t.number :=
  number_eq_of_map (f := (·.withoutShadowed findings)) rfl (fun _ => rfl) rfl

theorem WellFormed.withoutShadowed (h : t.WellFormed initial) (findings : List Warning) :
    (t.withoutShadowed findings).WellFormed initial where
  start := (declares_congr names_withoutShadowed).mpr h.start
  distinct := by
    rw [names_withoutShadowed]
    exact h.distinct
  closed c hc r hr := by
    obtain ⟨d, hd, rfl⟩ := List.mem_map.mp hc
    exact (declares_congr names_withoutShadowed).mpr
      (h.closed d hd r (Configuration.mem_of_mem_keep hr))
  nonempty c hc r hr := by
    obtain ⟨d, hd, rfl⟩ := List.mem_map.mp hc
    exact h.nonempty d hd r (Configuration.mem_of_mem_keep hr)

/-- The synthetic configuration has one rule only, which nothing can shadow. -/
theorem exists_of_shadowed_resolved {c : Configuration Nat} {i : Nat}
    (hc : c ∈ (t.resolved initial).configurations) (hs : c.Shadowed i) :
    ∃ d ∈ t.withComplete, d.map t.number = c ∧ d.Shadowed i := by
  rcases List.mem_append.mp hc with hc | hc
  · obtain ⟨d, hd, rfl⟩ := List.mem_map.mp hc
    exact ⟨d, hd, rfl, Configuration.shadowed_map_iff.mp hs⟩
  · obtain rfl := List.mem_singleton.mp hc
    exact absurd hs (Configuration.not_shadowed_singleton i)

/-- Names are distinct, so a report under the name of a configuration is about its own rules. -/
theorem WellFormed.reportsShadowed_iff (h : t.WellFormed initial) {c : Configuration String}
    (hc : c ∈ t.withComplete) {i : Nat} :
    reportsShadowed (t.resolved initial).lint c.name i ↔ c.Shadowed i := by
  rw [Program.reportsShadowed_lint_iff]
  constructor
  · rintro ⟨c', hc', hname, hs⟩
    obtain ⟨d, hd, rfl, hds⟩ := exists_of_shadowed_resolved hc' hs
    obtain rfl : d = c :=
      List.inj_on_of_nodup_map (nodup_withComplete h.distinct) hd hc hname
    exact hds
  · intro hs
    exact ⟨c.map t.number, List.mem_append_left _ (List.mem_map_of_mem hc), rfl,
      Configuration.shadowed_map_iff.mpr hs⟩

/-- Only the declared configurations change when rules are left out. -/
theorem map_configuration?_withoutShadowed {β : Type} {f : Configuration Nat → β}
    (hf : ∀ c ∈ t.withComplete, f ((c.withoutShadowed findings).map t.number) =
      f (c.map t.number)) (i : Nat) :
    (((t.withoutShadowed findings).resolved initial).configuration? i).map f =
      ((t.resolved initial).configuration? i).map f := by
  rw [Program.configuration?, Program.configuration?, resolved, resolved,
    withComplete_withoutShadowed, number_withoutShadowed, List.map_map, List.getElem?_append,
    List.getElem?_append, List.length_map, List.length_map]
  split
  · rename_i hi
    rw [List.getElem?_map, List.getElem?_map, List.getElem?_eq_getElem hi]
    exact congrArg some (hf _ (List.getElem_mem hi))
  · rfl

/-- Without the rules that are reported of it a program looks the same. -/
theorem WellFormed.looksLike_withoutShadowed (h : t.WellFormed initial) :
    ((t.withoutShadowed (t.resolved initial).lint).resolved initial).LooksLike
      (t.resolved initial) where
  initial_eq := congrFun number_withoutShadowed initial
  entry_eq := by
    rw [resolved, resolved, withComplete_withoutShadowed, List.length_map]
  name_eq i := congrArg (·.getD "") (map_configuration?_withoutShadowed (fun _ _ => rfl) i)
  findRule?_eq i s := by
    have hfound : ∀ c ∈ t.withComplete,
        ((c.withoutShadowed (t.resolved initial).lint).map t.number).findRule? s =
          (c.map t.number).findRule? s := by
      intro c hc
      rw [Configuration.findRule?_map, Configuration.findRule?_map,
        Configuration.withoutShadowed, Configuration.findRule?_keep]
      intro k hk
      exact (h.reportsShadowed_iff hc).mp (by simpa using hk)
    have hmap : (((t.withoutShadowed (t.resolved initial).lint).resolved initial).configuration?
        i).map (·.findRule? s) = ((t.resolved initial).configuration? i).map (·.findRule? s) :=
      map_configuration?_withoutShadowed hfound i
    have hbind := congrArg (·.bind id) hmap
    simp only [Option.bind_map] at hbind
    exact hbind

/-- **Shadowed rules are dead.**  A table that is accepted is still accepted without the rules
that are reported as shadowed; no rule of the rest is reported as shadowed, and its run leaves the
same records. -/
theorem run_withoutShadowed (hb : t.build initial = .ok p) :
    ∃ q, (t.withoutShadowed p.lint).build initial = .ok q ∧
      (∀ name i j, Warning.shadowed name i j ∉ q.lint) ∧
      ∀ n, Record.ofSnapshot q (q.step^[n] q.start) = Record.ofSnapshot p (p.step^[n] p.start) := by
  obtain ⟨hw, rfl⟩ := build_eq_ok_iff.mp hb
  refine ⟨_, (hw.withoutShadowed _).build_eq, ?none, ?records⟩
  case none =>
    intro name i j hmem
    obtain ⟨c, hc, -, hs⟩ := Program.reportsShadowed_lint_iff.mp
      (AutomaticMachine.reportsShadowed_iff.mpr ⟨j, hmem⟩)
    obtain ⟨d, hd, -, hs⟩ := exists_of_shadowed_resolved hc hs
    rw [withComplete_withoutShadowed] at hd
    obtain ⟨c, hc, rfl⟩ := List.mem_map.mp hd
    refine Configuration.not_shadowed_keep ?_ i hs
    intro k hk hs
    rw [(hw.reportsShadowed_iff hc).mpr hs] at hk
    exact nomatch hk
  case records =>
    intro n
    rw [hw.looksLike_withoutShadowed.iterate_step, hw.looksLike_withoutShadowed.record_eq]

/-- Of four rules the second and the third are reported: the first accepts all they accept. -/
theorem run_withoutShadowed_digits :
    let t : Table := {
      name := "digits"
      configurations := [⟨"b", [
        ⟨.nonBlank, [.move .right], "b"⟩,
        ⟨.anyOf (.ofList ["0", "1"]), [.erase], completeName⟩,
        ⟨.symbol "1", [], "b"⟩,
        ⟨.none, [.print "0"], "b"⟩]⟩] }
    let p := t.resolved "b"
    t.build "b" = .ok p ∧ .shadowed "b" 1 0 ∈ p.lint ∧ .shadowed "b" 2 0 ∈ p.lint ∧
      ∃ q, (t.withoutShadowed p.lint).build "b" = .ok q ∧
        (∀ name i j, Warning.shadowed name i j ∉ q.lint) ∧
        ∀ n, Record.ofSnapshot q (q.step^[n] q.start) =
          Record.ofSnapshot p (p.step^[n] p.start) := by
  intro t p
  have hb : t.build "b" = .ok p := rfl
  have hsecond : .shadowed "b" 1 0 ∈ p.lint :=
    Program.shadowed_mem_lint_iff.mpr ⟨_, List.mem_cons_self, rfl, _, rfl, by decide⟩
  have hthird : .shadowed "b" 2 0 ∈ p.lint :=
    Program.shadowed_mem_lint_iff.mpr ⟨_, List.mem_cons_self, rfl, _, rfl, by decide⟩
  exact ⟨hb, hsecond, hthird, run_withoutShadowed hb⟩

end Table

end AutomaticMachine
