/-
The search for unreachable configurations, round by round.

The search keeps the numbers it has visited and a queue, which may hold a
number more than once.  `Program.round` takes one number out of the queue.
Every rule of a visited configuration puts one number into the queue, so the
rounds can be counted (`length_queue_iterate`) and there are only so many of
them.

* `unvisitedFrom_round`               — a round is one call of `Program.unvisitedFrom`;
* `Closed.exists_endsAfter`           — the search ends, and has visited what is reached;
* `Table.unreachable_sublist_names`   — the names that are reported, in the order of declaration;
* `Table.unreachable_finding_exact`   — the main statement, on the findings about a program.
-/
import AutomaticMachine.Proofs.Lint.Unreachable
import Mathlib.Algebra.BigOperators.Group.Finset.Basic
import Mathlib.Algebra.Order.BigOperators.Group.Finset

namespace AutomaticMachine

namespace Program

/-- What the search keeps between two rounds. -/
structure Search where
  visited : Finset Nat
  queue : List Nat

/-- Nothing has been visited, and the initial configuration is to be. -/
def searchStart (p : Program) : Search := { visited := ∅, queue := [p.initial] }

/-- Take the first number out of the queue.  If it has not been visited, visit it and queue the
numbers that its rules lead to. -/
def round (p : Program) (s : Search) : Search :=
  match s.queue with
  | [] => s
  | i :: rest =>
    if i ∈ s.visited then { s with queue := rest }
    else { visited := insert i s.visited, queue := rest ++ p.successors i }

/-- The numbers that have not been visited. -/
def Search.unvisited (p : Program) (s : Search) : List Nat :=
  (List.range p.configurations.length).filter fun i => decide (i ∉ s.visited)

variable {p : Program} {s : Search}

theorem round_of_mem {i : Nat} {rest : List Nat} (hqueue : s.queue = i :: rest)
    (hi : i ∈ s.visited) : p.round s = { s with queue := rest } := by
  rw [round, hqueue]
  exact if_pos hi

theorem round_of_notMem {i : Nat} {rest : List Nat} (hqueue : s.queue = i :: rest)
    (hi : i ∉ s.visited) :
    p.round s = { visited := insert i s.visited, queue := rest ++ p.successors i } := by
  rw [round, hqueue]
  exact if_neg hi

theorem round_of_nil (hqueue : s.queue = []) : p.round s = s := by
  rw [round, hqueue]

/-! ### What a round keeps -/

/-- All numbers that the search knows are reached. -/
structure Search.Sound (p : Program) (s : Search) : Prop where
  visited : ∀ i ∈ s.visited, p.Reaches i
  queue : ∀ i ∈ s.queue, p.Reaches i

theorem sound_searchStart (p : Program) : p.searchStart.Sound p where
  visited i hi := absurd hi (Finset.notMem_empty i)
  queue i hi := by
    obtain rfl := List.mem_singleton.mp hi
    exact .refl

theorem Search.Sound.round (h : s.Sound p) : (p.round s).Sound p := by
  cases hqueue : s.queue with
  | nil =>
    rw [round_of_nil hqueue]
    exact h
  | cons i rest =>
    have hi : p.Reaches i := h.queue i (by rw [hqueue]; exact List.mem_cons_self)
    have hrest : ∀ j ∈ rest, p.Reaches j := by
      intro j hj
      exact h.queue j (by rw [hqueue]; exact List.mem_cons_of_mem i hj)
    by_cases hvisited : i ∈ s.visited
    · rw [round_of_mem hqueue hvisited]
      exact ⟨h.visited, hrest⟩
    · rw [round_of_notMem hqueue hvisited]
      refine ⟨?_, ?_⟩
      · intro j hj
        rcases Finset.mem_insert.mp hj with rfl | hj
        · exact hi
        · exact h.visited j hj
      · intro j hj
        rcases List.mem_append.mp hj with hj | hj
        · exact hrest j hj
        · exact hi.successor hj

theorem sound_iterate (p : Program) (n : Nat) : (p.round^[n] p.searchStart).Sound p := by
  induction n with
  | zero => exact sound_searchStart p
  | succ n ih =>
    rw [Function.iterate_succ_apply']
    exact ih.round

/-- A round takes one number out of the queue and puts one in for every rule that it comes to. -/
theorem length_queue_round (hqueue : s.queue ≠ []) :
    (p.round s).queue.length + 1 + ∑ i ∈ s.visited, (p.successors i).length =
      s.queue.length + ∑ i ∈ (p.round s).visited, (p.successors i).length := by
  obtain ⟨i, rest, hqueue⟩ := List.exists_cons_of_ne_nil hqueue
  by_cases hvisited : i ∈ s.visited
  · rw [round_of_mem hqueue hvisited, hqueue, List.length_cons]
  · rw [round_of_notMem hqueue hvisited, hqueue, List.length_cons, List.length_append,
      Finset.sum_insert hvisited]
    omega

/-- As long as the queue has not been empty, every number that was ever in it is either still
there or has had its round. -/
theorem length_queue_iterate {n : Nat} (h : ∀ k < n, (p.round^[k] p.searchStart).queue ≠ []) :
    n + (p.round^[n] p.searchStart).queue.length =
      1 + ∑ i ∈ (p.round^[n] p.searchStart).visited, (p.successors i).length := by
  induction n with
  | zero => simp [searchStart]
  | succ n ih =>
    have hn := ih fun k hk => h k (Nat.lt_succ_of_lt hk)
    have hround := length_queue_round (p := p) (h n (Nat.lt_succ_self n))
    rw [Function.iterate_succ_apply']
    omega

/-! ### The end of the search -/

theorem Closed.lt_entry_of_reaches (hp : p.Closed) {i : Nat} (h : p.Reaches i) : i < p.entry := by
  induction h with
  | refl => exact hp.initial_lt
  | tail _ hj _ =>
    obtain ⟨c, hc, r, hr, rfl⟩ := mem_successors_iff.mp hj
    exact hp.next_lt c (List.mem_of_getElem? hc) r hr

theorem Closed.lt_length_of_reaches (hp : p.Closed) {i : Nat} (h : p.Reaches i) :
    i < p.configurations.length := by
  have := hp.lt_entry_of_reaches h
  have := hp.length_eq
  omega

/-- One round is one call of the recursion: what is left unvisited in the end is the same. -/
theorem unvisitedFrom_round (hp : p.Closed) (h : s.Sound p) :
    p.unvisitedFrom ((p.round s).unvisited p) (p.round s).queue =
      p.unvisitedFrom (s.unvisited p) s.queue := by
  cases hqueue : s.queue with
  | nil => rw [round_of_nil hqueue, hqueue]
  | cons i rest =>
    have hlt : i < p.configurations.length :=
      hp.lt_length_of_reaches (h.queue i (by rw [hqueue]; exact List.mem_cons_self))
    by_cases hvisited : i ∈ s.visited
    · have hi : i ∉ s.unvisited p := by simp [Search.unvisited, hvisited]
      rw [round_of_mem hqueue hvisited, unvisitedFrom.eq_2, if_neg hi]
      rfl
    · have hi : i ∈ s.unvisited p := by simp [Search.unvisited, hvisited, hlt]
      have herase : (s.unvisited p).erase i = Search.unvisited p
          { visited := insert i s.visited, queue := rest ++ p.successors i } := by
        rw [Search.unvisited, (List.nodup_range.filter _).erase_eq_filter, List.filter_filter]
        refine List.filter_congr ?_
        intro j _
        rw [Bool.eq_iff_iff]
        simp [Finset.mem_insert]
      rw [round_of_notMem hqueue hvisited, unvisitedFrom.eq_2, if_pos hi, herase]

theorem unvisitedFrom_iterate (hp : p.Closed) (n : Nat) :
    p.unvisitedFrom ((p.round^[n] p.searchStart).unvisited p) (p.round^[n] p.searchStart).queue =
      p.unreached := by
  induction n with
  | zero => simp [searchStart, Search.unvisited, unreached]
  | succ n ih =>
    rw [Function.iterate_succ_apply', unvisitedFrom_round hp (sound_iterate p n), ih]

/-- The search comes to an empty queue in round `n`, and not before.  There is a round for the
initial configuration and one for every rule of a configuration that is visited. -/
structure EndsAfter (p : Program) (n : Nat) : Prop where
  queue_eq : (p.round^[n] p.searchStart).queue = []
  queue_ne : ∀ k < n, (p.round^[k] p.searchStart).queue ≠ []
  rounds_eq : n = 1 + ∑ i ∈ (p.round^[n] p.searchStart).visited, (p.successors i).length
  visited_iff : ∀ i, i ∈ (p.round^[n] p.searchStart).visited ↔ p.Reaches i
  unreached_eq : p.unreached = (p.round^[n] p.searchStart).unvisited p

theorem Closed.endsAfter (hp : p.Closed) {n : Nat}
    (hend : (p.round^[n] p.searchStart).queue = [])
    (hbefore : ∀ k < n, (p.round^[k] p.searchStart).queue ≠ []) : p.EndsAfter n := by
  have hunreached : p.unreached = (p.round^[n] p.searchStart).unvisited p := by
    rw [← unvisitedFrom_iterate hp n, hend, unvisitedFrom]
  refine ⟨hend, hbefore, ?_, ?_, hunreached⟩
  · have hlength := length_queue_iterate hbefore
    rwa [hend] at hlength
  · intro i
    constructor
    · exact (sound_iterate p n).visited i
    · intro hreach
      -- Otherwise it would be left unvisited, which only what is not reached is.
      refine Decidable.byContradiction ?_
      intro hi
      have hmem : i ∈ p.unreached := by
        rw [hunreached]
        simp [Search.unvisited, hi, hp.lt_length_of_reaches hreach]
      exact (mem_unreached_iff.mp hmem).2 hreach

/-- The search ends, since there are only so many rules. -/
theorem Closed.exists_endsAfter (hp : p.Closed) : ∃ n, p.EndsAfter n := by
  have hbound : ∀ n, ∑ i ∈ (p.round^[n] p.searchStart).visited, (p.successors i).length ≤
      ∑ i ∈ Finset.range p.entry, (p.successors i).length := by
    intro n
    refine Finset.sum_le_sum_of_subset ?_
    intro i hi
    exact Finset.mem_range.mpr (hp.lt_entry_of_reaches ((sound_iterate p n).visited i hi))
  have hend : ∃ n, (p.round^[n] p.searchStart).queue = [] := by
    refine Classical.byContradiction ?_
    intro hnever
    have hcount := length_queue_iterate (p := p)
      (n := ∑ i ∈ Finset.range p.entry, (p.successors i).length + 2)
      fun k _ hk => hnever ⟨k, hk⟩
    have := hbound (∑ i ∈ Finset.range p.entry, (p.successors i).length + 2)
    omega
  classical
  exact ⟨Nat.find hend, hp.endsAfter (Nat.find_spec hend) fun k hk => Nat.find_min hend hk⟩

/-! ### The finding -/

/-- No path leads to configuration `i`, and it is neither `complete` nor the synthetic one. -/
structure Stranded (p : Program) (i : Nat) : Prop where
  lt : i < p.configurations.length
  ne_complete : i ≠ p.complete
  ne_entry : i ≠ p.entry
  not_reaches : ¬ p.Reaches i

theorem unreachable_ne_nil_iff : p.unreachable ≠ [] ↔ ∃ i, p.Stranded i := by
  constructor
  · intro h
    obtain ⟨name, hname⟩ := List.exists_mem_of_ne_nil _ h
    obtain ⟨i, hlt, hentry, hcomplete, hreach, -⟩ := mem_unreachable_iff.mp hname
    exact ⟨i, hlt, hcomplete, hentry, hreach⟩
  · rintro ⟨i, h⟩
    exact List.ne_nil_of_mem (mem_unreachable_iff.mpr
      ⟨i, h.lt, h.ne_entry, h.ne_complete, h.not_reaches, rfl⟩)

/-- Reported are the names by which the stranded configurations are found. -/
theorem mem_unreachable_iff_stranded (hlen : p.configurations.length = p.entry + 1)
    (hp : p.Distinct) {name : String} :
    name ∈ p.unreachable ↔ ∃ i, p.Stranded i ∧ p.configurationNumber? name = some i := by
  rw [mem_unreachable_iff]
  constructor
  · rintro ⟨i, hlt, hentry, hcomplete, hreach, rfl⟩
    refine ⟨i, ⟨hlt, hcomplete, hentry, hreach⟩, ?_⟩
    rw [configurationNumber?_eq_some_iff hlen hp]
    refine ⟨hentry, ?_⟩
    rw [configurationName, configuration?, List.getElem?_eq_getElem hlt]
    rfl
  · rintro ⟨i, h, hi⟩
    obtain ⟨-, hname⟩ := (configurationNumber?_eq_some_iff hlen hp).mp hi
    exact ⟨i, h.lt, h.ne_entry, h.ne_complete, h.not_reaches, by rw [configurationName, hname]; rfl⟩

end Program

namespace Table

variable {t : Table} {initial : String} {p : Program}

theorem map_name_withComplete :
    t.withComplete.map (·.name) =
      t.names ++ if completeName ∈ t.names then [] else [completeName] := by
  unfold withComplete
  split
  · rw [List.append_nil]
    rfl
  · rw [List.map_append]
    rfl

/-- Behind the declared configurations come `complete`, if it is not declared, and the synthetic
one, which are not reported. -/
theorem lt_length_of_ne {i : Nat} (hlt : i < (t.resolved initial).configurations.length)
    (hcomplete : i ≠ (t.resolved initial).complete) (hentry : i ≠ (t.resolved initial).entry) :
    i < t.names.length := by
  have hcomplete' : i ≠ (t.withComplete.map (·.name)).idxOf completeName := hcomplete
  have hentry' : i ≠ (t.withComplete.map (·.name)).length := by
    rw [List.length_map]
    exact hentry
  have hlt' : i < (t.withComplete.map (·.name)).length + 1 := by
    simpa [resolved] using hlt
  rw [map_name_withComplete] at hcomplete' hentry' hlt'
  by_cases hdeclared : completeName ∈ t.names
  · rw [if_pos hdeclared, List.append_nil] at hentry' hlt'
    omega
  · rw [if_neg hdeclared, List.idxOf_append_of_notMem hdeclared, List.idxOf_cons_self] at hcomplete'
    rw [if_neg hdeclared, List.length_append, List.length_singleton] at hentry' hlt'
    omega

theorem length_names_le : t.names.length ≤ t.withComplete.length := by
  have hlength := congrArg List.length (map_name_withComplete (t := t))
  rw [List.length_map, List.length_append] at hlength
  omega

/-- The first numbers are those of the declared configurations. -/
theorem map_configurationName_range (t : Table) (initial : String) :
    (List.range t.names.length).map (t.resolved initial).configurationName = t.names := by
  refine List.ext_getElem (by simp) ?_
  intro i hi hi'
  have hentry : i ≠ (t.resolved initial).entry :=
    Nat.ne_of_lt (Nat.lt_of_lt_of_le hi' length_names_le)
  rw [List.getElem_map, List.getElem_range, Program.configurationName, map_name_resolved hentry,
    map_name_withComplete, List.getElem?_append_left hi', List.getElem?_eq_getElem hi']
  rfl

/-- What is reported are names that are declared, in the order of their declaration. -/
theorem unreachable_sublist_names : (t.resolved initial).unreachable.Sublist t.names := by
  have hlength : (t.resolved initial).configurations.length = t.withComplete.length + 1 := by
    simp [resolved]
  obtain ⟨k, hk⟩ : ∃ k, (t.resolved initial).configurations.length = t.names.length + k := by
    refine Nat.exists_eq_add_of_le ?_
    rw [hlength]
    exact Nat.le_succ_of_le length_names_le
  have hnone : ((List.range k).map (t.names.length + ·)).filter
      (fun i => i != (t.resolved initial).entry && i != (t.resolved initial).complete) = [] := by
    rw [List.filter_eq_nil_iff]
    intro i hi hreported
    obtain ⟨j, hj, rfl⟩ := List.mem_map.mp hi
    have hlt : t.names.length + j < (t.resolved initial).configurations.length := by
      rw [hk]
      exact Nat.add_lt_add_left (List.mem_range.mp hj) _
    obtain ⟨hentry, hcomplete⟩ : t.names.length + j ≠ (t.resolved initial).entry ∧
        t.names.length + j ≠ (t.resolved initial).complete := by simpa using hreported
    have := lt_length_of_ne hlt hcomplete hentry
    omega
  rw [← map_configurationName_range t initial]
  refine List.Sublist.map _ ?_
  refine ((Program.unvisitedFrom_sublist _ _ _).filter _).trans ?_
  rw [hk, List.range_add, List.filter_append, hnone, List.append_nil]
  exact List.filter_sublist

/-- **The finding about unreachable configurations is exact.**  The search for them ends.  There is
a finding if and only if a configuration is stranded; it comes first, there is no other, and it
lists the names of the stranded configurations, each once and in the order of declaration. -/
theorem unreachable_finding_exact (hb : t.build initial = .ok p) :
    (∃ n, p.EndsAfter n) ∧
    ((∃ names, Warning.unreachable names ∈ p.lint) ↔ ∃ i, p.Stranded i) ∧
    ∀ names, Warning.unreachable names ∈ p.lint →
      p.lint.head? = some (.unreachable names) ∧
      (∀ names', Warning.unreachable names' ∉ p.lint.tail) ∧
      names.Nodup ∧ names.Sublist t.names ∧
      ∀ name, name ∈ names ↔ ∃ i, p.Stranded i ∧ p.configurationNumber? name = some i := by
  have hp := closed_of_build hb
  obtain ⟨hw, rfl⟩ := build_eq_ok_iff.mp hb
  refine ⟨hp.exists_endsAfter, ?iff, ?listed⟩
  case iff =>
    simp only [Program.unreachable_mem_lint_iff, exists_eq_left]
    exact Program.unreachable_ne_nil_iff
  case listed =>
    intro names hmem
    obtain ⟨rfl, hne⟩ := Program.unreachable_mem_lint_iff.mp hmem
    rw [Program.lint_of_unreachable_ne_nil hne]
    refine ⟨rfl, fun names' => Program.not_unreachable_mem_shadowed,
      unreachable_sublist_names.nodup hw.distinct, unreachable_sublist_names, ?_⟩
    intro name
    exact Program.mem_unreachable_iff_stranded hp.length_eq hw.distinct_resolved

/-- Two configurations, one of them called `begin`, lead to each other and the second one to the
initial one, but nothing leads to them; nor is there a way to `complete`, which is not declared and
not reported.  The search has a round for the initial configuration and one for each of the three
rules that it comes to. -/
theorem unreachable_finding_exact_begin :
    let t : Table := {
      name := "loops"
      configurations := [
        ⟨"b", [⟨.none, [.print "0"], "c"⟩, ⟨.nonBlank, [], "b"⟩]⟩,
        ⟨"begin", [⟨.nonBlank, [], "spare"⟩]⟩,
        ⟨"c", [⟨.nonBlank, [.move .right], "b"⟩]⟩,
        ⟨"spare", [⟨.none, [], "begin"⟩, ⟨.nonBlank, [], "b"⟩]⟩] }
    let p := t.resolved "b"
    t.build "b" = .ok p ∧ p.EndsAfter 4 ∧ p.lint = [.unreachable ["begin", "spare"]] ∧
      (∃ i, p.Stranded i ∧ p.configurationNumber? "begin" = some i) ∧
      ∀ i, p.Stranded i → p.configurationNumber? completeName ≠ some i := by
  intro t p
  have hb : t.build "b" = .ok p := rfl
  have hlint : p.lint = [.unreachable ["begin", "spare"]] := by
    cbv
  obtain ⟨⟨n, hn⟩, -, hlisted⟩ := unreachable_finding_exact hb
  have hmem : Warning.unreachable ["begin", "spare"] ∈ p.lint := by
    rw [hlint]
    exact List.mem_singleton_self _
  obtain ⟨-, -, -, -, hnames⟩ := hlisted _ hmem
  have hend : (p.round^[4] p.searchStart).queue = [] := rfl
  have hbefore : ∀ k < 4, (p.round^[k] p.searchStart).queue ≠ [] := by decide
  obtain rfl : n = 4 := by
    rcases Nat.lt_trichotomy n 4 with hlt | heq | hlt
    · exact absurd hn.queue_eq (hbefore n hlt)
    · exact heq
    · exact absurd hend (hn.queue_ne 4 hlt)
  refine ⟨hb, hn, hlint, (hnames "begin").mp List.mem_cons_self, ?_⟩
  intro i hi hnumber
  exact absurd ((hnames completeName).mpr ⟨i, hi, hnumber⟩) (by decide)

end Table

end AutomaticMachine
