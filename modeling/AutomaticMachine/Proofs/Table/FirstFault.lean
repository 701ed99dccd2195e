/-
The fault that the check of a table reports.

A table can have faults of all four kinds, and several of each.
`Table.FirstFault` says which of them is to be reported: one of the first kind
that occurs, and of its kind the first, except that references to undeclared
successors are reported together, in the order of their bytes.

* `firstRepeated?_eq_some_iff`       — which name is the first to be repeated;
* `Table.elements_dangling_eq_iff`   — which references are dangling;
* `Table.firstEmptySet?_eq_some_iff` — which configuration is the first with an empty set;
* `Table.check_reports_first_fault`  — the main statement: the check accepts just the tables without
  faults and reports the first fault of all others.
-/
import AutomaticMachine.Proofs.Table.WellFormed
import AutomaticMachine.Proofs.Text.ByteOrder

namespace AutomaticMachine

/-- What is found is the first text that has been seen or stands before itself in the list. -/
theorem firstRepeated?_eq_some_iff {l seen : List String} {x : String} :
    firstRepeated? seen l = some x ↔ ∃ front rest, l = front ++ x :: rest ∧ front.Nodup ∧
      (∀ y ∈ front, y ∉ seen) ∧ (x ∈ front ∨ x ∈ seen) := by
  induction l generalizing seen with
  | nil => simp [firstRepeated?]
  | cons y l ih =>
    rw [firstRepeated?]
    by_cases hy : y ∈ seen
    · rw [if_pos hy]
      constructor
      · intro h
        obtain rfl := Option.some.inj h
        exact ⟨[], l, rfl, List.nodup_nil, by simp, Or.inr hy⟩
      · rintro ⟨front, rest, hl, -, hfront, -⟩
        -- What has been seen can not stand in front.
        cases front with
        | nil => rw [(List.cons.inj hl).1]
        | cons z front =>
          obtain ⟨rfl, -⟩ := List.cons.inj hl
          exact absurd hy (hfront y List.mem_cons_self)
    · rw [if_neg hy, ih]
      constructor
      · rintro ⟨front, rest, rfl, hnodup, hfront, hx⟩
        have hyfront : y ∉ front := fun hmem => hfront y hmem List.mem_cons_self
        refine ⟨y :: front, rest, rfl, List.nodup_cons.mpr ⟨hyfront, hnodup⟩, ?_, ?_⟩
        · intro z hz
          rcases List.mem_cons.mp hz with rfl | hz
          · exact hy
          · exact fun hseen => hfront z hz (List.mem_cons_of_mem y hseen)
        · rcases hx with hx | hx
          · exact Or.inl (List.mem_cons_of_mem y hx)
          · rcases List.mem_cons.mp hx with rfl | hx
            · exact Or.inl List.mem_cons_self
            · exact Or.inr hx
      · rintro ⟨front, rest, hl, hnodup, hfront, hx⟩
        cases front with
        | nil =>
          obtain ⟨rfl, -⟩ := List.cons.inj hl
          exact absurd hx (by simp [hy])
        | cons z front =>
          obtain ⟨rfl, rfl⟩ := List.cons.inj hl
          obtain ⟨hyfront, hnodup⟩ := List.nodup_cons.mp hnodup
          refine ⟨front, rest, rfl, hnodup, ?_, ?_⟩
          · intro z hz hseen
            rcases List.mem_cons.mp hseen with rfl | hseen
            · exact hyfront hz
            · exact hfront z (List.mem_cons_of_mem y hz) hseen
          · rcases hx with hx | hx
            · rcases List.mem_cons.mp hx with rfl | hx
              · exact Or.inr List.mem_cons_self
              · exact Or.inl hx
            · exact Or.inr (List.mem_cons_of_mem y hx)

/-- A rule of the configuration is about a set of symbols, and there are none in it. -/
def Configuration.HasEmptySet (c : Configuration String) : Prop :=
  ∃ r ∈ c.rules, ∃ symbols, r.matcher = .anyOf symbols ∧ ∀ x, x ∉ symbols

theorem Matcher.isEmptySet_iff {m : Matcher} :
    m.isEmptySet ↔ ∃ symbols, m = .anyOf symbols ∧ ∀ x, x ∉ symbols := by
  cases m with
  | symbol s => simp [isEmptySet]
  | nonBlank => simp [isEmptySet]
  | anyOf symbols => simp [isEmptySet, TextSet.isEmpty_iff]

theorem Configuration.any_isEmptySet_iff {c : Configuration String} :
    (c.rules.any fun r => r.matcher.isEmptySet) ↔ c.HasEmptySet := by
  simp only [List.any_eq_true, HasEmptySet, Matcher.isEmptySet_iff]

namespace Table

/-- All successors of rules are declared. -/
def Closed (t : Table) : Prop := ∀ c ∈ t.configurations, ∀ r ∈ c.rules, t.Declares r.next

/-- The fault is to be reported of a table that is to start in the configuration named
`initial`: of the four kinds of faults it belongs to the first that the table has. -/
inductive FirstFault (t : Table) (initial : String) : Fault → Prop
  | invalidStart (hstart : ¬ t.Declares initial) : FirstFault t initial (.invalidStart initial)
  /-- No name before this one is repeated, and it is one of them. -/
  | duplicate (hstart : t.Declares initial) {front rest : List String} {name : String}
      (hnames : t.names = front ++ name :: rest) (hfront : front.Nodup) (hname : name ∈ front) :
      FirstFault t initial (.duplicate name)
  /-- The references increase byte by byte, and they are those to successors that are not
  declared. -/
  | undefined (hstart : t.Declares initial) (hdistinct : t.names.Nodup) (hopen : ¬ t.Closed)
      {references : List String}
      (hincreasing : references.Pairwise fun x y => Text.bytes x < Text.bytes y)
      (hmem : ∀ x, x ∈ references ↔ ∃ c ∈ t.configurations, ∃ r ∈ c.rules,
        ¬ t.Declares r.next ∧ x = c.name ++ " -> " ++ r.next) :
      FirstFault t initial (.undefined references)
  | emptySymbolSet (hstart : t.Declares initial) (hdistinct : t.names.Nodup) (hclosed : t.Closed)
      {front rest : List (Configuration String)} {c : Configuration String}
      (hconfigurations : t.configurations = front ++ c :: rest)
      (hfront : ∀ d ∈ front, ¬ d.HasEmptySet) (hc : c.HasEmptySet) :
      FirstFault t initial (.emptySymbolSet c.name)

variable {t : Table} {initial : String} {fault : Fault}

/-! ### Faults of one kind -/

theorem firstRepeated?_names_eq_some_iff {name : String} :
    firstRepeated? [] t.names = some name ↔
      ∃ front rest, t.names = front ++ name :: rest ∧ front.Nodup ∧ name ∈ front := by
  simp [firstRepeated?_eq_some_iff]

theorem firstRepeated?_names_eq_none_iff : firstRepeated? [] t.names = none ↔ t.names.Nodup := by
  simp [firstRepeated?_eq_none_iff]

/-- An increasing list with the dangling references as its members is the list of them. -/
theorem elements_dangling_eq_iff {references : List String} :
    t.dangling.elements = references ↔
      references.Pairwise (fun x y => Text.bytes x < Text.bytes y) ∧
        ∀ x, x ∈ references ↔ ∃ c ∈ t.configurations, ∃ r ∈ c.rules,
          ¬ t.Declares r.next ∧ x = c.name ++ " -> " ++ r.next := by
  have hdangling : ∀ x, x ∈ t.dangling ↔ ∃ c ∈ t.configurations, ∃ r ∈ c.rules,
      ¬ t.Declares r.next ∧ x = c.name ++ " -> " ++ r.next := by
    intro x
    simp only [mem_dangling_iff, eq_comm (a := x)]
    rfl
  simp only [Text.bytes_lt_bytes_iff]
  constructor
  · rintro rfl
    exact ⟨t.dangling.increasing, hdangling⟩
  · rintro ⟨hincreasing, hmem⟩
    have heq : t.dangling = ⟨references, hincreasing⟩ := by
      refine TextSet.ext_mem ?_
      intro x
      rw [hdangling, ← hmem]
      rfl
    rw [heq]

theorem firstEmptySet?_eq_some_iff {c : Configuration String} :
    t.firstEmptySet? = some c ↔ ∃ front rest, t.configurations = front ++ c :: rest ∧
      (∀ d ∈ front, ¬ d.HasEmptySet) ∧ c.HasEmptySet := by
  have hnone : ∀ d : Configuration String,
      (!d.rules.any fun r => r.matcher.isEmptySet) = true ↔ ¬ d.HasEmptySet := by
    intro d
    rw [← Configuration.any_isEmptySet_iff, Bool.not_eq_true', Bool.not_eq_true]
  rw [firstEmptySet?, List.find?_eq_some_iff_append, Configuration.any_isEmptySet_iff]
  simp only [hnone]
  constructor
  · rintro ⟨hc, front, rest, hconfigurations, hfront⟩
    exact ⟨front, rest, hconfigurations, hfront, hc⟩
  · rintro ⟨front, rest, hconfigurations, hfront, hc⟩
    exact ⟨hc, front, rest, hconfigurations, hfront⟩

theorem wellFormed_iff : t.WellFormed initial ↔
    t.Declares initial ∧ t.names.Nodup ∧ t.Closed ∧ ∀ c ∈ t.configurations, ¬ c.HasEmptySet := by
  have hnonempty : (∀ c ∈ t.configurations, ∀ r ∈ c.rules, r.matcher.isEmptySet = false) ↔
      ∀ c ∈ t.configurations, ¬ c.HasEmptySet := by
    simp [← Configuration.any_isEmptySet_iff]
  constructor
  · intro h
    exact ⟨h.start, h.distinct, h.closed, hnonempty.mp h.nonempty⟩
  · rintro ⟨hstart, hdistinct, hclosed, hsets⟩
    exact ⟨hstart, hdistinct, hclosed, hnonempty.mpr hsets⟩

/-! ### The first fault of a table -/

theorem fault?_of_not_declares (hstart : ¬ t.Declares initial) :
    t.fault? initial = some (.invalidStart initial) := by
  rw [fault?, if_pos hstart]

theorem fault?_of_repeated {name : String} (hstart : t.Declares initial)
    (hname : firstRepeated? [] t.names = some name) :
    t.fault? initial = some (.duplicate name) := by
  rw [fault?, if_neg (not_not_intro hstart), hname]

theorem fault?_of_not_closed (hstart : t.Declares initial) (hdistinct : t.names.Nodup)
    (hopen : ¬ t.Closed) : t.fault? initial = some (.undefined t.dangling.elements) := by
  have hdangling : ¬ t.dangling.isEmpty := fun he => hopen (dangling_isEmpty_iff.mp he)
  rw [fault?, if_neg (not_not_intro hstart), firstRepeated?_names_eq_none_iff.mpr hdistinct]
  exact if_pos hdangling

theorem fault?_of_closed (hstart : t.Declares initial) (hdistinct : t.names.Nodup)
    (hclosed : t.Closed) :
    t.fault? initial = t.firstEmptySet?.map fun c => .emptySymbolSet c.name := by
  rw [fault?, if_neg (not_not_intro hstart), firstRepeated?_names_eq_none_iff.mpr hdistinct]
  exact if_neg (not_not_intro (dangling_isEmpty_iff.mpr hclosed))

/-- The fault that is found is the first one. -/
theorem firstFault_of_fault? (h : t.fault? initial = some fault) :
    t.FirstFault initial fault := by
  by_cases hstart : t.Declares initial
  · cases hrepeated : firstRepeated? [] t.names with
    | some name =>
      rw [fault?_of_repeated hstart hrepeated] at h
      obtain rfl := Option.some.inj h
      obtain ⟨front, rest, hnames, hfront, hname⟩ := firstRepeated?_names_eq_some_iff.mp hrepeated
      exact .duplicate hstart hnames hfront hname
    | none =>
      have hdistinct := firstRepeated?_names_eq_none_iff.mp hrepeated
      by_cases hclosed : t.Closed
      · rw [fault?_of_closed hstart hdistinct hclosed] at h
        obtain ⟨c, hc, rfl⟩ := Option.map_eq_some_iff.mp h
        obtain ⟨front, rest, hconfigurations, hfront, hempty⟩ := firstEmptySet?_eq_some_iff.mp hc
        exact .emptySymbolSet hstart hdistinct hclosed hconfigurations hfront hempty
      · rw [fault?_of_not_closed hstart hdistinct hclosed] at h
        obtain rfl := Option.some.inj h
        obtain ⟨hincreasing, hmem⟩ := elements_dangling_eq_iff.mp rfl
        exact .undefined hstart hdistinct hclosed hincreasing hmem
  · rw [fault?_of_not_declares hstart] at h
    obtain rfl := Option.some.inj h
    exact .invalidStart hstart

/-- The first fault is the one that is found. -/
theorem FirstFault.fault?_eq (h : t.FirstFault initial fault) : t.fault? initial = some fault := by
  cases h with
  | invalidStart hstart => exact fault?_of_not_declares hstart
  | duplicate hstart hnames hfront hname =>
    exact fault?_of_repeated hstart
      (firstRepeated?_names_eq_some_iff.mpr ⟨_, _, hnames, hfront, hname⟩)
  | undefined hstart hdistinct hopen hincreasing hmem =>
    rw [fault?_of_not_closed hstart hdistinct hopen,
      elements_dangling_eq_iff.mpr ⟨hincreasing, hmem⟩]
  | emptySymbolSet hstart hdistinct hclosed hconfigurations hfront hc =>
    rw [fault?_of_closed hstart hdistinct hclosed,
      firstEmptySet?_eq_some_iff.mpr ⟨_, _, hconfigurations, hfront, hc⟩]
    rfl

theorem check_eq_error_iff_fault? :
    t.check initial = .error fault ↔ t.fault? initial = some fault := by
  rw [check]
  cases t.fault? initial <;> simp

/-- **The check reports the first fault.**  It accepts just the tables that start in a declared
configuration, declare no name twice, lead to declared configurations only and have no rule about
an empty set; of any other table it reports the first fault. -/
theorem check_reports_first_fault (t : Table) (initial : String) :
    (t.check initial = .ok () ↔ t.Declares initial ∧ t.names.Nodup ∧ t.Closed ∧
      ∀ c ∈ t.configurations, ¬ c.HasEmptySet) ∧
    ∀ fault, t.check initial = .error fault ↔ t.FirstFault initial fault := by
  refine ⟨check_eq_ok_iff.trans wellFormed_iff, ?_⟩
  intro fault
  rw [check_eq_error_iff_fault?]
  constructor
  · exact firstFault_of_fault?
  · exact FirstFault.fault?_eq

/-- Of a repeated name, a dangling reference and an empty set the name is reported. -/
example :
    check { name := "faults",
            configurations := [⟨"b", [⟨.anyOf .empty, [], "x"⟩]⟩, ⟨"c", []⟩, ⟨"b", []⟩] } "b" =
      .error (.duplicate "b") := rfl

end Table

end AutomaticMachine
