/-
The ways to run a program agree.

All of them hand out the snapshots `s`, `step s`, `step (step s)`, …, and
differ only in where they stop.  `Program.CompletesAfter` names the place where
a run from `s` is over: the first completed snapshot after at least one step.

* `snapshots_run`, `runSteps_run` — so many snapshots;
* `seekCompletion_eq_some_iff`    — a search finds the place if it is within the limit;
* `runToCompletionFrom_run`, `runWithLimitFrom_run` — the loops stop at the place that it finds;
* `runWithLimit_eq_ok_iff`, `runToCompletion_eq_some_iff` — the snapshots up to that place;
* `drivers_agree`                 — the main statement.
-/
import AutomaticMachine.Catalogue
import AutomaticMachine.Proofs.Run.Completion
import AutomaticMachine.Run
import Mathlib.Data.List.Iterate

namespace AutomaticMachine

namespace Program

variable {p : Program} {s : Snapshot} {log : Array Entry}

/-! ### Where a run is over -/

/-- The run from `s` is over after `k` steps.  One step is taken in any case. -/
structure CompletesAfter (p : Program) (s : Snapshot) (k : Nat) : Prop where
  pos : 1 ≤ k
  completed : (p.step^[k] s).state = .completed
  least : ∀ j, 1 ≤ j → j < k → (p.step^[j] s).state ≠ .completed

theorem completesAfter_iff {k : Nat} : p.CompletesAfter s k ↔ 1 ≤ k ∧
    (p.step^[k] s).state = .completed ∧ ∀ j < k, 1 ≤ j → (p.step^[j] s).state ≠ .completed :=
  ⟨fun h => ⟨h.pos, h.completed, fun j hj hpos => h.least j hpos hj⟩,
    fun ⟨hpos, hc, hleast⟩ => ⟨hpos, hc, fun j hpos hj => hleast j hj hpos⟩⟩

instance (k : Nat) : Decidable (p.CompletesAfter s k) := decidable_of_iff _ completesAfter_iff.symm

theorem CompletesAfter.unique {k k' : Nat} (h : p.CompletesAfter s k)
    (h' : p.CompletesAfter s k') : k = k' := by
  rcases Nat.lt_trichotomy k k' with hlt | heq | hlt
  · exact absurd h.completed (h'.least k h.pos hlt)
  · exact heq
  · exact absurd h'.completed (h.least k' h'.pos hlt)

/-- A run that is over at some time is over for a first time. -/
theorem exists_completesAfter {n : Nat} (hn : 1 ≤ n) (hc : (p.step^[n] s).state = .completed) :
    ∃ k, k ≤ n ∧ p.CompletesAfter s k := by
  induction n using Nat.strong_induction_on with
  | _ n ih =>
    by_cases h : ∃ j, 1 ≤ j ∧ j < n ∧ (p.step^[j] s).state = .completed
    · obtain ⟨j, hj, hjn, hcj⟩ := h
      obtain ⟨k, hk, hck⟩ := ih j hjn hj hcj
      exact ⟨k, Nat.le_trans hk (Nat.le_of_lt hjn), hck⟩
    · exact ⟨n, Nat.le_refl n, hn, hc, fun j hj hjn hcj => h ⟨j, hj, hjn, hcj⟩⟩

theorem completesAfter_one_iff : p.CompletesAfter s 1 ↔ (p.step s).state = .completed :=
  ⟨CompletesAfter.completed, fun h => ⟨Nat.le_refl 1, h, fun j hj hj' => by omega⟩⟩

/-- Where the first step does not end the run, the place is one step nearer from there. -/
theorem completesAfter_succ_iff (hs : (p.step s).state ≠ .completed) {k : Nat} :
    p.CompletesAfter s (k + 1) ↔ p.CompletesAfter (p.step s) k := by
  constructor
  · intro h
    have hk : k ≠ 0 := by
      rintro rfl
      exact hs h.completed
    refine ⟨Nat.pos_of_ne_zero hk, h.completed, ?_⟩
    intro j hj hjk
    exact h.least (j + 1) (by omega) (by omega)
  · intro h
    refine ⟨by omega, h.completed, ?_⟩
    intro j hj hjk
    obtain ⟨i, rfl⟩ : ∃ i, j = i + 1 := ⟨j - 1, by omega⟩
    rcases Nat.eq_zero_or_pos i with rfl | hi
    · exact hs
    · exact h.least i hi (by omega)

/-- All steps up to the end of a run are counted but the one that ends it. -/
theorem CompletesAfter.steps_eq {k : Nat} (h : p.CompletesAfter s k) :
    (p.step^[k] s).steps + 1 = s.steps + k := by
  obtain ⟨j, rfl⟩ := Nat.exists_eq_add_of_le' h.pos
  have hcount : (p.step^[j] s).steps = s.steps + j := by
    rcases Nat.eq_zero_or_pos j with rfl | hj
    · rfl
    · exact steps_iterate_of_not_completed (h.least j hj (Nat.lt_succ_self j))
  have hc := h.completed
  rw [Function.iterate_succ_apply'] at hc ⊢
  rw [steps_step_of_completed hc, hcount]
  rfl

/-! ### The drivers -/

theorem advance_run (p : Program) (s : Snapshot) (log : Array Entry) :
    (p.advance s).run log =
      (p.step s, log ++ ((p.event? s).map (Entry.mk p.name)).toList.toArray) := by
  rw [advance]
  cases p.event? s <;> rfl

/-- The snapshot that a round of a loop pushes is the first of those that are still to come. -/
theorem append_iterate_succ (p : Program) (seen : Array Snapshot) (n : Nat) (s : Snapshot) :
    seen ++ (List.iterate p.step s (n + 1)).toArray =
      seen.push s ++ (List.iterate p.step (p.step s) n).toArray := by
  simp [List.iterate]

theorem snapshotsFrom_run (p : Program) (seen : Array Snapshot) (n : Nat) (s : Snapshot)
    (log : Array Entry) :
    ((p.snapshotsFrom seen n s).run log).1 = seen ++ (List.iterate p.step s n).toArray := by
  induction n generalizing seen s log with
  | zero =>
    show seen = seen ++ #[]
    simp
  | succ n ih =>
    show (((p.advance s) >>= p.snapshotsFrom (seen.push s) n).run log).1 = _
    rw [StateT.run_bind, advance_run]
    show ((p.snapshotsFrom (seen.push s) n (p.step s)).run _).1 = _
    rw [ih, append_iterate_succ]

theorem snapshots_run (p : Program) (n : Nat) (s : Snapshot) (log : Array Entry) :
    ((p.snapshots n s).run log).1 = (List.iterate p.step s n).toArray := by
  rw [snapshots, snapshotsFrom_run]
  simp

theorem runSteps_run (p : Program) (n : Nat) (s : Snapshot) (log : Array Entry) :
    ((p.runSteps n s).run log).1 = (List.iterate p.step s (n + 1)).toArray :=
  snapshots_run p (n + 1) s log

/-! ### The loops that stop at the end of a run -/

/-- After how many steps, at least one and at most `limit`, the run from `s` is over; `taken`
steps have been taken before.  Nothing is kept of the snapshots on the way. -/
def seekCompletion (p : Program) (taken : Nat) : Nat → Snapshot → Logged (Option Nat)
  | 0, _ => return none
  | limit + 1, s => do
    let t ← p.advance s
    if t.isCompleted then return some (taken + 1)
    else p.seekCompletion (taken + 1) limit t

/-- The round that the loops have in common: a step, and the question whether it ends the run. -/
theorem advance_ite_run {α : Type} (p : Program) (s : Snapshot) (log : Array Entry)
    (found : Snapshot → α) (next : Snapshot → Logged α) :
    (do let t ← p.advance s; if t.isCompleted then return found t else next t : Logged α).run log =
      if (p.step s).isCompleted then (found (p.step s), ((p.advance s).run log).2)
      else (next (p.step s)).run ((p.advance s).run log).2 := by
  rw [StateT.run_bind, advance_run]
  show StateT.run (if (p.step s).isCompleted then pure (found (p.step s))
    else next (p.step s)) _ = _
  split <;> rfl

theorem seekCompletion_succ_run (p : Program) (taken n : Nat) (s : Snapshot) (log : Array Entry) :
    (p.seekCompletion taken (n + 1) s).run log =
      if (p.step s).isCompleted then (some (taken + 1), ((p.advance s).run log).2)
      else (p.seekCompletion (taken + 1) n (p.step s)).run ((p.advance s).run log).2 :=
  advance_ite_run p s log _ _

theorem runToCompletionFrom_succ_run (p : Program) (seen : Array Snapshot) (n : Nat) (s : Snapshot)
    (log : Array Entry) :
    (p.runToCompletionFrom seen (n + 1) s).run log =
      if (p.step s).isCompleted then
        (some ((seen.push s).push (p.step s)), ((p.advance s).run log).2)
      else (p.runToCompletionFrom (seen.push s) n (p.step s)).run ((p.advance s).run log).2 :=
  advance_ite_run p s log _ _

theorem runWithLimitFrom_succ_run (p : Program) (limit : Nat) (seen : Array Snapshot) (n : Nat)
    (s : Snapshot) (log : Array Entry) :
    (p.runWithLimitFrom limit seen (n + 1) s).run log =
      if (p.step s).isCompleted then
        (.ok ((seen.push s).push (p.step s)), ((p.advance s).run log).2)
      else (p.runWithLimitFrom limit (seen.push s) n (p.step s)).run ((p.advance s).run log).2 :=
  advance_ite_run p s log _ _

/-- The search counts the steps from where it begins. -/
theorem seekCompletion_run (p : Program) (taken n : Nat) (s : Snapshot) (log : Array Entry) :
    (p.seekCompletion taken n s).run log =
      Prod.map (Option.map (taken + ·)) id ((p.seekCompletion 0 n s).run log) := by
  induction n generalizing taken s log with
  | zero => rfl
  | succ n ih =>
    rw [seekCompletion_succ_run, seekCompletion_succ_run]
    by_cases hc : (p.step s).isCompleted
    · rw [if_pos hc, if_pos hc]
      rfl
    · rw [if_neg hc, if_neg hc, ih (taken + 1), ih (0 + 1), Prod.map_map, Option.map_comp_map]
      -- Both sides go on from the same snapshot, with counts that differ by `taken`.
      have hadd : (taken + ·) ∘ (0 + 1 + ·) = (taken + 1 + ·) := by
        funext k
        simp only [Function.comp_apply]
        omega
      rw [hadd]
      rfl

/-- The search finds the place where the run is over, if it is within the limit. -/
theorem seekCompletion_eq_some_iff {n k : Nat} :
    ((p.seekCompletion 0 n s).run log).1 = some k ↔ k ≤ n ∧ p.CompletesAfter s k := by
  induction n generalizing s log k with
  | zero =>
    constructor
    · exact (nomatch ·)
    · rintro ⟨hk, h⟩
      have := h.pos
      omega
  | succ n ih =>
    rw [seekCompletion_succ_run]
    -- Either the first step ends the run, or the place is looked for from the next snapshot.
    by_cases hc : (p.step s).isCompleted
    · have hone : p.CompletesAfter s 1 :=
        completesAfter_one_iff.mpr (Snapshot.isCompleted_iff.mp hc)
      rw [if_pos hc]
      constructor
      · intro h
        obtain rfl : 1 = k := by simpa using h
        exact ⟨by omega, hone⟩
      · rintro ⟨-, h⟩
        rw [h.unique hone]
    · have hne : (p.step s).state ≠ .completed := fun h => hc (Snapshot.isCompleted_iff.mpr h)
      rw [if_neg hc, seekCompletion_run]
      show Option.map _ _ = _ ↔ _
      rw [Option.map_eq_some_iff]
      constructor
      · rintro ⟨j, hj, rfl⟩
        obtain ⟨hjn, h⟩ := ih.mp hj
        rw [Nat.zero_add, Nat.add_comm 1 j]
        exact ⟨by omega, (completesAfter_succ_iff hne).mpr h⟩
      · rintro ⟨hk, h⟩
        obtain ⟨j, rfl⟩ := Nat.exists_eq_add_of_le' h.pos
        exact ⟨j, ih.mpr ⟨by omega, (completesAfter_succ_iff hne).mp h⟩, by omega⟩

/-- A run to the end hands out the snapshots up to the place that the search finds. -/
theorem runToCompletionFrom_run (p : Program) (seen : Array Snapshot) (n : Nat) (s : Snapshot)
    (log : Array Entry) :
    (p.runToCompletionFrom seen n s).run log =
      Prod.map (Option.map fun k => seen ++ (List.iterate p.step s (k + 1)).toArray) id
        ((p.seekCompletion 0 n s).run log) := by
  induction n generalizing seen s log with
  | zero => rfl
  | succ n ih =>
    rw [seekCompletion_succ_run, runToCompletionFrom_succ_run]
    by_cases hc : (p.step s).isCompleted
    · have htwo : (seen.push s).push (p.step s) = seen ++ (List.iterate p.step s 2).toArray := by
        rw [append_iterate_succ]
        exact Array.append_singleton.symm
      rw [if_pos hc, if_pos hc, htwo]
      rfl
    · rw [if_neg hc, if_neg hc, ih, seekCompletion_run p (0 + 1), Prod.map_map,
        Option.map_comp_map]
      have hseen : (fun k => seen ++ (List.iterate p.step s (k + 1)).toArray) ∘ (0 + 1 + ·) =
          fun k => seen.push s ++ (List.iterate p.step (p.step s) (k + 1)).toArray := by
        funext k
        rw [Function.comp_apply, Nat.zero_add, Nat.add_comm 1 k, append_iterate_succ]
      rw [hseen]
      rfl

theorem runToCompletion_run (p : Program) (fuel : Nat) (s : Snapshot) (log : Array Entry) :
    (p.runToCompletion fuel s).run log =
      Prod.map (Option.map fun k => (List.iterate p.step s (k + 1)).toArray) id
        ((p.seekCompletion 0 fuel s).run log) := by
  rw [runToCompletion, runToCompletionFrom_run]
  simp only [Array.empty_append]

/-- The two runs to the end step alike, and differ in what they make of having no step left. -/
theorem runWithLimitFrom_run (p : Program) (limit : Nat) (seen : Array Snapshot) (n : Nat)
    (s : Snapshot) (log : Array Entry) :
    (p.runWithLimitFrom limit seen n s).run log =
      Prod.map (Option.elim · (.error (.stepLimitExceeded limit)) .ok) id
        ((p.runToCompletionFrom seen n s).run log) := by
  induction n generalizing seen s log with
  | zero => rfl
  | succ n ih =>
    rw [runWithLimitFrom_succ_run, runToCompletionFrom_succ_run]
    by_cases hc : (p.step s).isCompleted
    · rw [if_pos hc, if_pos hc]
      rfl
    · rw [if_neg hc, if_neg hc, ih]

/-- What a run with a limit makes of the place where it is over. -/
def outcome (p : Program) (limit : Nat) (s : Snapshot) : Option Nat → Except Fault (Array Snapshot)
  | some k => .ok (List.iterate p.step s (k + 1)).toArray
  | none => .error (.stepLimitExceeded limit)

/-- A run with a limit is a search for the place where it is over, and the snapshots up to
there. -/
theorem runWithLimit_run (p : Program) (limit : Nat) (s : Snapshot) (log : Array Entry) :
    (p.runWithLimit limit s).run log =
      Prod.map (p.outcome limit s) id ((p.seekCompletion 0 limit s).run log) := by
  rw [runWithLimit, runWithLimitFrom_run, ← runToCompletion, runToCompletion_run]
  rcases (p.seekCompletion 0 limit s).run log with ⟨k | k, log'⟩ <;> rfl

/-! ### Their agreement -/

theorem snapshots_toList (p : Program) (n : Nat) (s : Snapshot) (log : Array Entry) :
    ((p.snapshots n s).run log).1.toList = (List.range n).map fun k => p.step^[k] s := by
  rw [snapshots_run, List.range_map_iterate]

theorem runSteps_toList (p : Program) (n : Nat) (s : Snapshot) (log : Array Entry) :
    ((p.runSteps n s).run log).1.toList = (List.range (n + 1)).map fun k => p.step^[k] s :=
  snapshots_toList p (n + 1) s log

/-- A run with a limit that is not over in time reports the limit, whatever was found. -/
theorem runWithLimit_eq_error_iff {n : Nat} {fault : Fault} :
    ((p.runWithLimit n s).run log).1 = .error fault ↔
      fault = .stepLimitExceeded n ∧ ((p.seekCompletion 0 n s).run log).1 = none := by
  rw [runWithLimit_run]
  show p.outcome n s ((p.seekCompletion 0 n s).run log).1 = _ ↔ _
  rcases ((p.seekCompletion 0 n s).run log).1 with _ | k
  · simp [outcome, eq_comm]
  · simp [outcome]

theorem runWithLimit_eq_ok_iff {n : Nat} {run : Array Snapshot} :
    ((p.runWithLimit n s).run log).1 = .ok run ↔
      ∃ k ≤ n, p.CompletesAfter s k ∧ run = ((p.runSteps k s).run log).1 := by
  simp only [← and_assoc, ← @seekCompletion_eq_some_iff p s log, runSteps_run]
  rw [runWithLimit_run]
  show p.outcome n s ((p.seekCompletion 0 n s).run log).1 = _ ↔ _
  rcases ((p.seekCompletion 0 n s).run log).1 with _ | k
  · simp [outcome]
  · simp [outcome, eq_comm]

theorem runToCompletion_eq_some_iff {fuel : Nat} {run : Array Snapshot} :
    ((p.runToCompletion fuel s).run log).1 = some run ↔
      ∃ k ≤ fuel, p.CompletesAfter s k ∧ run = ((p.runSteps k s).run log).1 := by
  simp only [← and_assoc, ← @seekCompletion_eq_some_iff p s log, runSteps_run]
  rw [runToCompletion_run]
  show Option.map _ ((p.seekCompletion 0 fuel s).run log).1 = _ ↔ _
  rw [Option.map_eq_some_iff]
  simp only [eq_comm]

/-- A run with a limit succeeds if the program completes within it, counting from the first
step. -/
theorem exists_runWithLimit_eq_ok_iff {n : Nat} :
    (∃ run, ((p.runWithLimit n s).run log).1 = .ok run) ↔
      ∃ k, 1 ≤ k ∧ k ≤ n ∧ (p.step^[k] s).state = .completed := by
  constructor
  · rintro ⟨run, hrun⟩
    obtain ⟨k, hk, h, -⟩ := runWithLimit_eq_ok_iff.mp hrun
    exact ⟨k, h.pos, hk, h.completed⟩
  · rintro ⟨k, hpos, hk, hc⟩
    obtain ⟨j, hj, h⟩ := exists_completesAfter hpos hc
    exact ⟨_, runWithLimit_eq_ok_iff.mpr ⟨j, Nat.le_trans hj hk, h, rfl⟩⟩

theorem runWithLimit_eq_error {n : Nat}
    (h : ∀ k, 1 ≤ k → k ≤ n → (p.step^[k] s).state ≠ .completed) :
    ((p.runWithLimit n s).run log).1 = .error (.stepLimitExceeded n) := by
  refine runWithLimit_eq_error_iff.mpr ⟨rfl, Option.eq_none_iff_forall_not_mem.mpr ?_⟩
  intro k hk
  obtain ⟨hkn, hcomp⟩ := seekCompletion_eq_some_iff.mp hk
  exact h k hcomp.pos hkn hcomp.completed

theorem runWithLimit_mono {n m : Nat} {run : Array Snapshot} (hnm : n ≤ m)
    (h : ((p.runWithLimit n s).run log).1 = .ok run) :
    ((p.runWithLimit m s).run log).1 = .ok run := by
  obtain ⟨k, hk, hcomp, hrun⟩ := runWithLimit_eq_ok_iff.mp h
  exact runWithLimit_eq_ok_iff.mpr ⟨k, Nat.le_trans hk hnm, hcomp, hrun⟩

/-- With as much fuel as limit the two runs to the end hand out the same. -/
theorem runToCompletion_eq_some_iff_runWithLimit {n : Nat} {run : Array Snapshot} :
    ((p.runToCompletion n s).run log).1 = some run ↔
      ((p.runWithLimit n s).run log).1 = .ok run := by
  rw [runToCompletion_eq_some_iff, runWithLimit_eq_ok_iff]

theorem runSteps_back? (p : Program) (n : Nat) (s : Snapshot) (log : Array Entry) :
    ((p.runSteps n s).run log).1.back? = some (p.step^[n] s) := by
  rw [← Array.getLast?_toList, runSteps_toList, List.range_succ]
  simp

theorem runSteps_size (p : Program) (n : Nat) (s : Snapshot) (log : Array Entry) :
    ((p.runSteps n s).run log).1.size = n + 1 := by
  rw [← Array.length_toList, runSteps_toList]
  simp

/-- The step that ends a run is handed out but not counted. -/
theorem CompletesAfter.size_runSteps {k : Nat} (h : p.CompletesAfter s k) :
    ((p.runSteps k s).run log).1.size + s.steps = (p.step^[k] s).steps + 2 := by
  have hsteps := h.steps_eq
  rw [runSteps_size]
  omega

/-- A completed snapshot is handed out twice: at the start, and as what its one step gives. -/
theorem CompletesAfter.runSteps_of_completed {k : Nat} (h : p.CompletesAfter s k)
    (hs : s.state = .completed) : ((p.runSteps k s).run log).1 = #[s, s] := by
  have hstep : p.step s = s := step_of_completed hs
  have hone : p.CompletesAfter s 1 := completesAfter_one_iff.mpr (hstep.symm ▸ hs)
  rw [h.unique hone, runSteps_run]
  simp [List.iterate, hstep]

/-- The ways to run a program from any snapshot hand out parts of one sequence of snapshots.  The
two runs to the end stop at the first completed snapshot after the start and differ only where
there is none in time. -/
theorem drivers_agree (p : Program) (s : Snapshot) (log : Array Entry) :
    (∀ n, ((p.snapshots n s).run log).1.toList = (List.range n).map fun k => p.step^[k] s) ∧
    (∀ n, ((p.runSteps n s).run log).1.toList =
      (List.range (n + 1)).map fun k => p.step^[k] s) ∧
    -- Where a run with a limit stops, and that it fails otherwise.
    (∀ n run, ((p.runWithLimit n s).run log).1 = .ok run ↔
      ∃ k ≤ n, p.CompletesAfter s k ∧ run = ((p.runSteps k s).run log).1) ∧
    (∀ n, (∃ run, ((p.runWithLimit n s).run log).1 = .ok run) ↔
      ∃ k, 1 ≤ k ∧ k ≤ n ∧ (p.step^[k] s).state = .completed) ∧
    (∀ n, (∀ k, 1 ≤ k → k ≤ n → (p.step^[k] s).state ≠ .completed) →
      ((p.runWithLimit n s).run log).1 = .error (.stepLimitExceeded n)) ∧
    ((p.runWithLimit 0 s).run log).1 = .error (.stepLimitExceeded 0) ∧
    (∀ n m run, n ≤ m → ((p.runWithLimit n s).run log).1 = .ok run →
      ((p.runWithLimit m s).run log).1 = .ok run) ∧
    -- A run without a limit, in the fuel that makes it total.
    (∀ fuel run, ((p.runToCompletion fuel s).run log).1 = some run ↔
      ((p.runWithLimit fuel s).run log).1 = .ok run) ∧
    (∀ run, (∃ fuel, ((p.runToCompletion fuel s).run log).1 = some run) ↔
      ∃ n, ((p.runWithLimit n s).run log).1 = .ok run) ∧
    ((∃ fuel run, ((p.runToCompletion fuel s).run log).1 = some run) ↔
      ∃ k, 1 ≤ k ∧ (p.step^[k] s).state = .completed) ∧
    -- How many snapshots there are in a run that is over.
    ∀ n run, ((p.runWithLimit n s).run log).1 = .ok run →
      (∃ final, run.back? = some final ∧ final.state = .completed ∧
        run.size + s.steps = final.steps + 2) ∧
      (s.state = .completed → run = #[s, s]) := by
  refine ⟨fun n => snapshots_toList p n s log, fun n => runSteps_toList p n s log,
    fun n run => runWithLimit_eq_ok_iff, fun n => exists_runWithLimit_eq_ok_iff,
    fun n => runWithLimit_eq_error, ?zero, fun n m run => runWithLimit_mono,
    fun fuel run => runToCompletion_eq_some_iff_runWithLimit, ?same, ?ends, ?size⟩
  case zero =>
    exact runWithLimit_eq_error fun k hpos hk => absurd hpos (by omega)
  case same =>
    intro run
    exact exists_congr fun n => runToCompletion_eq_some_iff_runWithLimit
  case ends =>
    constructor
    · rintro ⟨fuel, run, h⟩
      obtain ⟨k, -, hcomp, -⟩ := runToCompletion_eq_some_iff.mp h
      exact ⟨k, hcomp.pos, hcomp.completed⟩
    · rintro ⟨k, hpos, hc⟩
      obtain ⟨j, -, hcomp⟩ := exists_completesAfter hpos hc
      exact ⟨j, _, runToCompletion_eq_some_iff.mpr ⟨j, Nat.le_refl j, hcomp, rfl⟩⟩
  case size =>
    intro n run h
    obtain ⟨k, -, hcomp, rfl⟩ := runWithLimit_eq_ok_iff.mp h
    exact ⟨⟨_, runSteps_back? p k s log, hcomp.completed, hcomp.size_runSteps⟩,
      hcomp.runSteps_of_completed⟩

/-- Six operations are carried out, and the seventh step finds no rule. -/
theorem drivers_agree_eraseCells :
    let p := Catalogue.eraseCells.resolved "e"
    p.CompletesAfter p.start 7 ∧
      ((p.runWithLimit 6 p.start).run #[]).1 = .error (.stepLimitExceeded 6) ∧
      ((p.runWithLimit 7 p.start).run #[]).1 = .ok ((p.runSteps 7 p.start).run #[]).1 := by
  intro p
  have hnot : ∀ j < 7, 1 ≤ j → (p.step^[j] p.start).state ≠ .completed := by
    decide +kernel
  have hover : (p.step^[7] p.start).state = .completed := by
    decide +kernel
  have hcomp : p.CompletesAfter p.start 7 :=
    ⟨by omega, hover, fun j hj hj7 => hnot j hj7 hj⟩
  obtain ⟨-, -, hok, -, herror, -⟩ := drivers_agree p p.start #[]
  exact ⟨hcomp, herror 6 fun k hk hk6 => hnot k (by omega) hk,
    (hok 7 _).mpr ⟨7, Nat.le_refl 7, hcomp, rfl⟩⟩

end Program

end AutomaticMachine
