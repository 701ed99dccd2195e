/-
Names and numbers stand for each other in a program.

A program knows its configurations by number, its table knew them by name.
`Program.Names` says that a number and a name stand for the same one.  A
declared `begin` has the name of the synthetic configuration, which can not be
asked for: that one is always left out.

* `Table.WellFormed.distinct_resolved`       — no two numbers stand for the same name;
* `Program.configurationNumber?_eq_some_iff` — what a look-up by name finds;
* `Table.build_resolves_names`               — the main statement: nothing but the check can fail,
  and a program has the declared configurations, with numbers for names.
-/
import AutomaticMachine.Proofs.Table.Resolution
import Mathlib.Data.List.Forall2
import Mathlib.Data.List.Nodup

namespace AutomaticMachine

namespace Program

variable {p : Program}

/-- Of the configurations that are not synthetic, number `i` is the only one with this name. -/
structure Names (p : Program) (i : Nat) (name : String) : Prop where
  ne_entry : i ≠ p.entry
  name_eq : (p.configuration? i).map (·.name) = some name
  unique : ∀ j, j ≠ p.entry → (p.configuration? j).map (·.name) = some name → j = i

/-- The rule is the declared one, with the number of its successor. -/
structure ResolvesRule (p : Program) (declared : Rule String) (r : Rule Nat) : Prop where
  matcher_eq : r.matcher = declared.matcher
  operations_eq : r.operations = declared.operations
  next_names : p.Names r.next declared.next

/-- The configuration is the declared one, rule for rule. -/
structure Resolves (p : Program) (declared : Configuration String) (c : Configuration Nat) :
    Prop where
  name_eq : c.name = declared.name
  rules : List.Forall₂ p.ResolvesRule declared.rules c.rules

/-- No two configurations have the same name, the synthetic one apart. -/
def Distinct (p : Program) : Prop :=
  ∀ i j name, i ≠ p.entry → j ≠ p.entry → (p.configuration? i).map (·.name) = some name →
    (p.configuration? j).map (·.name) = some name → i = j

theorem map_name_eq_some_iff {i : Nat} {name : String} :
    (p.configuration? i).map (·.name) = some name ↔
      ∃ h : i < p.configurations.length, p.configurations[i].name = name := by
  rw [configuration?, Option.map_eq_some_iff]
  constructor
  · rintro ⟨c, hc, rfl⟩
    obtain ⟨h, rfl⟩ := List.getElem?_eq_some_iff.mp hc
    exact ⟨h, rfl⟩
  · rintro ⟨h, rfl⟩
    exact ⟨_, List.getElem?_eq_getElem h, rfl⟩

/-- A look-up by name finds the configuration that has it, but never the synthetic one. -/
theorem configurationNumber?_eq_some_iff (hlen : p.configurations.length = p.entry + 1)
    (hp : p.Distinct) {name : String} {i : Nat} :
    p.configurationNumber? name = some i ↔
      i ≠ p.entry ∧ (p.configuration? i).map (·.name) = some name := by
  rw [configurationNumber?, Option.filter_eq_some_iff]
  constructor
  · rintro ⟨hfound, hi⟩
    obtain ⟨h, hname, -⟩ := List.findIdx?_eq_some_iff_getElem.mp hfound
    exact ⟨by simpa using hi, map_name_eq_some_iff.mpr ⟨h, by simpa using hname⟩⟩
  · rintro ⟨hi, hname⟩
    obtain ⟨h, hname'⟩ := map_name_eq_some_iff.mp hname
    -- Something is found, and it is not behind `i`; the synthetic one is.
    cases hfound : p.configurations.findIdx? fun c => c.name == name with
    | none =>
      have hne := List.findIdx?_eq_none_iff.mp hfound _ (List.getElem_mem h)
      exact absurd hname' (by simpa using hne)
    | some j =>
      obtain ⟨hj, hjname, hfirst⟩ := List.findIdx?_eq_some_iff_getElem.mp hfound
      have hji : j ≤ i := by
        refine Nat.le_of_not_lt ?_
        intro hij
        exact hfirst i hij (by simpa using hname')
      have hjentry : j ≠ p.entry := by omega
      have heq : j = i := hp j i name hjentry hi
        (map_name_eq_some_iff.mpr ⟨hj, by simpa using hjname⟩) hname
      exact ⟨congrArg some heq, by simpa using hi⟩

end Program

namespace Table

variable {t : Table} {initial name : String} {p : Program}

theorem nodup_withComplete (h : t.names.Nodup) : (t.withComplete.map (·.name)).Nodup := by
  unfold withComplete
  split
  · exact h
  · rename_i hcomplete
    rw [List.map_append]
    refine h.append (List.nodup_singleton _) ?_
    rw [List.map_singleton, List.disjoint_singleton]
    exact hcomplete

/-- The names that stand for configurations are those of the configurations. -/
theorem declares_iff_mem : t.Declares name ↔ name ∈ t.withComplete.map (·.name) := by
  constructor
  · intro h
    obtain ⟨c, hc, rfl⟩ := exists_of_declares h
    exact List.mem_map_of_mem hc
  · intro h
    obtain ⟨c, hc, rfl⟩ := List.mem_map.mp h
    unfold withComplete at hc
    split at hc
    · exact Or.inr (List.mem_map_of_mem hc)
    · rcases List.mem_append.mp hc with hc | hc
      · exact Or.inr (List.mem_map_of_mem hc)
      · rw [List.mem_singleton.mp hc]
        exact Or.inl rfl

/-- Every number in front of the synthetic configuration is that of a name. -/
theorem exists_number_eq (h : t.names.Nodup) {i : Nat} (hi : i < t.withComplete.length) :
    ∃ name, t.Declares name ∧ t.number name = i := by
  have hi' : i < (t.withComplete.map (·.name)).length := by simpa using hi
  exact ⟨_, declares_iff_mem.mpr (List.getElem_mem hi'), (nodup_withComplete h).idxOf_getElem i hi'⟩

theorem configurationName_number (h : t.Declares name) :
    (t.resolved initial).configurationName (t.number name) = name := by
  rw [Program.configurationName, name_number h]
  rfl

theorem configurationName_entry :
    (t.resolved initial).configurationName (t.resolved initial).entry = beginName := by
  rw [Program.configurationName, name_entry]
  rfl

theorem number_inj {name' : String} (h : t.Declares name) (h' : t.Declares name') :
    t.number name = t.number name' ↔ name = name' := by
  constructor
  · intro he
    -- The program of the table gives either name back; where it starts does not matter.
    have hname : (t.resolved name).configurationName (t.number name) = name :=
      configurationName_number h
    rw [← hname, he, configurationName_number h']
  · rintro rfl
    rfl

/-- Every configuration but the synthetic one selects the rule that is declared for its name. -/
theorem WellFormed.findRule?_eq (h : t.WellFormed initial) {i : Nat}
    (hi : i < (t.resolved initial).entry) (x : Symbol) :
    (t.resolved initial).findRule? i x =
      (t.ruleFor? ((t.resolved initial).configurationName i) x).map (Rule.map t.number) := by
  obtain ⟨name, hd, rfl⟩ := exists_number_eq h.distinct hi
  rw [configurationName_number hd, findRule?_number hd]

/-- In front of the synthetic configuration stand the declared ones. -/
theorem map_name_resolved {i : Nat} (hi : i ≠ (t.resolved initial).entry) :
    ((t.resolved initial).configuration? i).map (·.name) =
      (t.withComplete.map (·.name))[i]? := by
  have hentry : (t.resolved initial).entry = t.withComplete.length := rfl
  rw [Program.configuration?, resolved, List.getElem?_map]
  rcases Nat.lt_or_ge i t.withComplete.length with hlt | hge
  · have hlt' : i < (t.withComplete.map (·.map t.number)).length := by simpa using hlt
    rw [List.getElem?_append_left hlt', List.getElem?_map, Option.map_map]
    rfl
  · have hlast : i ≥ (t.withComplete.map (·.map t.number) ++
        [({ name := beginName
            rules := [{ matcher := .none, operations := [], next := t.number initial }] } :
          Configuration Nat)]).length := by
      rw [List.length_append, List.length_map, List.length_singleton]
      omega
    rw [List.getElem?_eq_none hlast, List.getElem?_eq_none hge]
    rfl

theorem WellFormed.distinct_resolved (h : t.WellFormed initial) :
    (t.resolved initial).Distinct := by
  intro i j name hi hj hiname hjname
  rw [map_name_resolved hi] at hiname
  rw [map_name_resolved hj] at hjname
  have hlt : i < (t.withComplete.map (·.name)).length :=
    (List.getElem?_eq_some_iff.mp hiname).1
  exact (List.getElem?_inj hlt (nodup_withComplete h.distinct)).mp (hiname.trans hjname.symm)

/-- The number of a name stands for it. -/
theorem WellFormed.names_number (h : t.WellFormed initial) (hd : t.Declares name) :
    (t.resolved initial).Names (t.number name) name where
  ne_entry := Nat.ne_of_lt (number_lt hd)
  name_eq := name_number hd
  unique j hj hname :=
    h.distinct_resolved j _ name hj (Nat.ne_of_lt (number_lt hd)) hname (name_number hd)

/-- Numbering the successors of a declared configuration resolves it. -/
theorem WellFormed.resolves_map (h : t.WellFormed initial) {c : Configuration String}
    (hc : c ∈ t.configurations) : (t.resolved initial).Resolves c (c.map t.number) where
  name_eq := rfl
  rules := by
    rw [Configuration.map, List.forall₂_map_right_iff, List.forall₂_same]
    intro r hr
    exact ⟨rfl, rfl, h.names_number (h.closed c hc r hr)⟩

/-- The program is that of the table, with a number wherever the table has a name. -/
structure ResolvesTo (t : Table) (initial : String) (p : Program) : Prop where
  name_eq : p.name = t.name
  /-- The declared configurations come first, then `complete` if it is not declared, and last the
  synthetic one. -/
  configurations : ∃ declared, List.Forall₂ p.Resolves t.configurations declared ∧
    p.configurations = declared ++
      (if completeName ∈ t.names then [] else [{ name := completeName, rules := [] }]) ++
      [{ name := beginName
         rules := [{ matcher := .none, operations := [], next := p.initial }] }]
  length_eq : p.configurations.length = p.entry + 1
  initial_names : p.Names p.initial initial
  complete_names : p.Names p.complete completeName
  /-- Nothing leads to the synthetic configuration, whatever names are declared. -/
  next_ne_entry : ∀ c ∈ p.configurations, ∀ r ∈ c.rules, r.next ≠ p.entry
  number_iff : ∀ name i, p.configurationNumber? name = some i ↔
    i ≠ p.entry ∧ (p.configuration? i).map (·.name) = some name

theorem WellFormed.resolvesTo (h : t.WellFormed initial) :
    t.ResolvesTo initial (t.resolved initial) where
  name_eq := rfl
  configurations := by
    refine ⟨t.configurations.map (·.map t.number), ?_, ?_⟩
    · rw [List.forall₂_map_right_iff, List.forall₂_same]
      intro c hc
      exact h.resolves_map hc
    · rw [resolved, withComplete]
      split
      · simp
      · simp [Configuration.map]
  length_eq := h.closed_resolved.length_eq
  initial_names := h.names_number h.start
  complete_names := h.names_number (Or.inl rfl)
  next_ne_entry c hc r hr := Nat.ne_of_lt (h.closed_resolved.next_lt c hc r hr)
  number_iff name i :=
    Program.configurationNumber?_eq_some_iff h.closed_resolved.length_eq h.distinct_resolved

/-- **Names are resolved exactly.**  A table has a program unless its check fails, and then the
fault is that of the check; in the program every number stands for the name in its place. -/
theorem build_resolves_names (t : Table) (initial : String) :
    ((∃ p, t.build initial = .ok p) ↔ t.check initial = .ok ()) ∧
    (∀ fault, t.build initial = .error fault ↔ t.check initial = .error fault) ∧
    ∀ p, t.build initial = .ok p → t.ResolvesTo initial p := by
  refine ⟨?program, fun fault => build_eq_error_iff, ?resolved⟩
  case program =>
    rw [check_eq_ok_iff]
    constructor
    · rintro ⟨p, hp⟩
      exact (build_eq_ok_iff.mp hp).1
    · intro hw
      exact ⟨_, hw.build_eq⟩
  case resolved =>
    intro p hp
    obtain ⟨hw, rfl⟩ := build_eq_ok_iff.mp hp
    exact hw.resolvesTo

/-- A table that declares a configuration called `begin`, starts in it and leads back to it: it is
found by its name, and the synthetic one comes after the added `complete`. -/
theorem build_resolves_names_begin :
    let t : Table := {
      name := "begin"
      configurations := [⟨beginName, [⟨.nonBlank, [.erase], beginName⟩]⟩] }
    let p := t.resolved beginName
    t.build beginName = .ok p ∧ p.initial = 0 ∧ p.complete = 1 ∧ p.entry = 2 ∧
      p.Names 0 beginName ∧ p.configurationNumber? beginName = some 0 := by
  intro t p
  have hb : t.build beginName = .ok p := rfl
  obtain ⟨-, -, hresolves⟩ := build_resolves_names t beginName
  have hp : t.ResolvesTo beginName p := hresolves p hb
  exact ⟨hb, rfl, rfl, rfl, hp.initial_names, (hp.number_iff beginName 0).mpr ⟨by decide, rfl⟩⟩

end Table

end AutomaticMachine
