/-
What the search for unreachable configurations finds.

`Program.Reaches` says by paths of rules what the search computes with a queue
and a list of unvisited numbers.

* `mem_unreached_iff`              — the search leaves just the numbers that no path leads to;
* `mem_unreachable_iff`            — whose names are reported;
* `onPath_iterate`                 — a run stays where paths lead;
* `Table.successors_number`        — a path goes from name to name by the declared rules.
-/
import AutomaticMachine.Program.Lint
import AutomaticMachine.Proofs.Snapshot.Invariant
import AutomaticMachine.Proofs.Table.Rules
import Mathlib.Logic.Relation

namespace AutomaticMachine

namespace Program

variable {p : Program}

/-- A path of rules, be it empty, leads from the first number to the second. -/
def Path (p : Program) : Nat → Nat → Prop :=
  Relation.ReflTransGen fun i j => j ∈ p.successors i

/-- A path of rules leads from the initial configuration to number `i`. -/
def Reaches (p : Program) (i : Nat) : Prop := p.Path p.initial i

theorem mem_successors_iff {i j : Nat} :
    j ∈ p.successors i ↔ ∃ c, p.configuration? i = some c ∧ ∃ r ∈ c.rules, r.next = j := by
  rw [successors]
  cases p.configuration? i with
  | none => simp
  | some c => simp

theorem Reaches.successor {i j : Nat} (h : p.Reaches i) (hj : j ∈ p.successors i) : p.Reaches j :=
  Relation.ReflTransGen.tail h hj

/-- What is reached in one program corresponds to something that is reached in another, if successors
correspond to successors. -/
theorem Reaches.exists_of_successors {q : Program} {R : Nat → Nat → Prop}
    (hinitial : R p.initial q.initial)
    (hsuccessors : ∀ i j, R i j → List.Forall₂ R (p.successors i) (q.successors j))
    {i : Nat} (h : p.Reaches i) : ∃ j, R i j ∧ q.Reaches j := by
  induction h with
  | refl => exact ⟨q.initial, hinitial, .refl⟩
  | tail _ hsuccessor ih =>
    obtain ⟨j, hj, hreach⟩ := ih
    obtain ⟨j', hj', hrelated⟩ := exists_of_forall₂ (hsuccessors _ j hj) hsuccessor
    exact ⟨j', hrelated, hreach.successor hj'⟩

/-! ### The search -/

theorem unvisitedFrom_sublist (p : Program) (unvisited queue : List Nat) :
    (p.unvisitedFrom unvisited queue).Sublist unvisited := by
  fun_induction p.unvisitedFrom unvisited queue with
  | case1 unvisited => exact List.Sublist.refl _
  | case2 unvisited i rest hi ih => exact ih.trans List.erase_sublist
  | case3 unvisited i rest hi ih => exact ih

/-- The search knows a program by the successors in it. -/
theorem unvisitedFrom_congr {q : Program} (h : ∀ i, q.successors i = p.successors i)
    (unvisited queue : List Nat) :
    q.unvisitedFrom unvisited queue = p.unvisitedFrom unvisited queue := by
  fun_induction p.unvisitedFrom unvisited queue with
  | case1 unvisited => rw [unvisitedFrom]
  | case2 unvisited i rest hi ih => rw [unvisitedFrom, if_pos hi, h, ih]
  | case3 unvisited i rest hi ih => rw [unvisitedFrom, if_neg hi, ih]

/-- To what the search visits a path leads from the queue. -/
theorem exists_path_of_visited {unvisited queue : List Nat} {j : Nat} (hj : j ∈ unvisited)
    (hvisited : j ∉ p.unvisitedFrom unvisited queue) : ∃ i ∈ queue, p.Path i j := by
  fun_induction p.unvisitedFrom unvisited queue with
  | case1 unvisited => exact absurd hj hvisited
  | case2 unvisited i rest hi ih =>
    by_cases hij : j = i
    · subst hij
      exact ⟨j, List.mem_cons_self, .refl⟩
    · obtain ⟨k, hk, hpath⟩ := ih ((List.mem_erase_of_ne hij).mpr hj) hvisited
      rcases List.mem_append.mp hk with hk | hk
      · exact ⟨k, List.mem_cons_of_mem i hk, hpath⟩
      · exact ⟨i, List.mem_cons_self, .head hk hpath⟩
  | case3 unvisited i rest hi ih =>
    obtain ⟨k, hk, hpath⟩ := ih hj hvisited
    exact ⟨k, List.mem_cons_of_mem i hk, hpath⟩

/-- The search visits its queue, and with a number the successors of it.  The invariant is that
what has been visited leads to what has been visited or is in the queue. -/
theorem visited_closed {unvisited queue : List Nat} (hnodup : unvisited.Nodup)
    (hqueue : ∀ i, i ∉ unvisited → ∀ j ∈ p.successors i, j ∈ unvisited → j ∈ queue) :
    (∀ i ∈ queue, i ∉ p.unvisitedFrom unvisited queue) ∧
      ∀ i, i ∉ p.unvisitedFrom unvisited queue →
        ∀ j ∈ p.successors i, j ∉ p.unvisitedFrom unvisited queue := by
  fun_induction p.unvisitedFrom unvisited queue with
  | case1 unvisited =>
    refine ⟨by simp, ?_⟩
    intro i hi j hj hju
    exact absurd (hqueue i hi j hj hju) List.not_mem_nil
  | case2 unvisited i rest hi ih =>
    have hstep : ∀ k, k ∉ unvisited.erase i → ∀ j ∈ p.successors k, j ∈ unvisited.erase i →
        j ∈ rest ++ p.successors i := by
      intro k hk j hj hju
      obtain ⟨hne, hju⟩ := hnodup.mem_erase_iff.mp hju
      by_cases hki : k = i
      · subst hki
        exact List.mem_append_right _ hj
      · have hku : k ∉ unvisited := fun hku => hk ((List.mem_erase_of_ne hki).mpr hku)
        rcases List.mem_cons.mp (hqueue k hku j hj hju) with rfl | hrest
        · exact absurd rfl hne
        · exact List.mem_append_left _ hrest
    obtain ⟨hvisited, hclosed⟩ := ih (hnodup.erase i) hstep
    refine ⟨?_, hclosed⟩
    intro k hk
    rcases List.mem_cons.mp hk with rfl | hk
    · exact fun hmem =>
        hnodup.not_mem_erase ((p.unvisitedFrom_sublist _ _).subset hmem)
    · exact hvisited k (List.mem_append_left _ hk)
  | case3 unvisited i rest hi ih =>
    have hstep : ∀ k, k ∉ unvisited → ∀ j ∈ p.successors k, j ∈ unvisited → j ∈ rest := by
      intro k hk j hj hju
      rcases List.mem_cons.mp (hqueue k hk j hj hju) with rfl | hrest
      · exact absurd hju hi
      · exact hrest
    obtain ⟨hvisited, hclosed⟩ := ih hnodup hstep
    refine ⟨?_, hclosed⟩
    intro k hk
    rcases List.mem_cons.mp hk with rfl | hk
    · exact fun hmem => hi ((p.unvisitedFrom_sublist _ _).subset hmem)
    · exact hvisited k hk

/-- The search leaves just the numbers of configurations that no path leads to. -/
theorem mem_unreached_iff {i : Nat} :
    i ∈ p.unreached ↔ i < p.configurations.length ∧ ¬ p.Reaches i := by
  have hqueue : ∀ i, i ∉ List.range p.configurations.length → ∀ j ∈ p.successors i,
      j ∈ List.range p.configurations.length → j ∈ [p.initial] := by
    intro i hi j hj _
    obtain ⟨c, hc, -⟩ := mem_successors_iff.mp hj
    exact absurd (List.mem_range.mpr (List.getElem?_eq_some_iff.mp hc).1) hi
  obtain ⟨hinitial, hclosed⟩ := visited_closed List.nodup_range hqueue
  constructor
  · intro hi
    refine ⟨List.mem_range.mp ((p.unvisitedFrom_sublist _ _).subset hi), ?_⟩
    intro hreach
    have hvisited : i ∉ p.unreached := by
      clear hi
      induction hreach with
      | refl => exact hinitial _ (List.mem_singleton_self _)
      | tail _ hj ih => exact hclosed _ ih _ hj
    exact hvisited hi
  · rintro ⟨hlt, hreach⟩
    refine Decidable.byContradiction ?_
    intro hvisited
    obtain ⟨j, hj, hpath⟩ := exists_path_of_visited (List.mem_range.mpr hlt) hvisited
    obtain rfl := List.mem_singleton.mp hj
    exact hreach hpath

/-- Reported are the names of the configurations that no path leads to, the synthetic one and
`complete` apart. -/
theorem mem_unreachable_iff {name : String} :
    name ∈ p.unreachable ↔ ∃ i, i < p.configurations.length ∧ i ≠ p.entry ∧ i ≠ p.complete ∧
      ¬ p.Reaches i ∧ p.configurationName i = name := by
  rw [unreachable, List.mem_map]
  constructor
  · rintro ⟨i, hi, hname⟩
    obtain ⟨hi, hne⟩ := List.mem_filter.mp hi
    obtain ⟨hlt, hreach⟩ := mem_unreached_iff.mp hi
    obtain ⟨hentry, hcomplete⟩ : i ≠ p.entry ∧ i ≠ p.complete := by simpa using hne
    exact ⟨i, hlt, hentry, hcomplete, hreach, hname⟩
  · rintro ⟨i, hlt, hentry, hcomplete, hreach, hname⟩
    exact ⟨i, List.mem_filter.mpr ⟨mem_unreached_iff.mpr ⟨hlt, hreach⟩,
      by simpa using ⟨hentry, hcomplete⟩⟩, hname⟩

/-! ### Runs -/

/-- A rule that is found leads to a successor. -/
theorem mem_successors_of_findRule? {i : Nat} {x : Symbol} {r : Rule Nat}
    (h : p.findRule? i x = some r) : r.next ∈ p.successors i := by
  obtain ⟨c, hc, hr, -⟩ := exists_of_findRule? h
  exact mem_successors_iff.mpr ⟨c, hc, r, hr, rfl⟩

/-- The configurations that a snapshot names are reached, the synthetic one apart. -/
structure OnPath (p : Program) (s : Snapshot) : Prop where
  current : s.current = p.entry ∨ p.Reaches s.current
  next : p.Reaches s.next

theorem Step.onPath {s s' : Snapshot} (hs : Step p s s') (h : p.OnPath s) : p.OnPath s' := by
  cases hs with
  | stay _ => exact h
  | stop _ _ _ => exact ⟨h.current, h.next⟩
  | start _ _ r hr => exact ⟨Or.inr h.next, h.next.successor (mem_successors_of_findRule? hr)⟩
  | resume _ op rest _ => exact ⟨h.current, h.next⟩

theorem onPath_iterate (p : Program) (n : Nat) : p.OnPath (p.step^[n] p.start) := by
  induction n with
  | zero => exact ⟨Or.inl rfl, .refl⟩
  | succ n ih =>
    rw [Function.iterate_succ_apply']
    exact (step_cases p _).onPath ih

end Program

namespace Table

variable {t : Table} {initial name : String}

theorem successors_number (h : t.Declares name) :
    (t.resolved initial).successors (t.number name) =
      (t.rulesOf name).map fun r => t.number r.next := by
  obtain ⟨c, hc, hrules⟩ := Option.map_eq_some_iff.mp (@rules_number t initial name h)
  rw [Program.successors, hc]
  show c.rules.map _ = _
  rw [hrules, List.map_map]
  rfl

end Table

end AutomaticMachine
