/-
The lines that a run leaves in the log.

A step is reported from the snapshot before it, a record is made of the
snapshot after it.  `Record.line?` is the line that two records, one step after
the other, call for, and `Program.linesBetween` are the lines for a list of
snapshots.  Whichever way a program is run, these lines are written for the
steps that are taken and no others.

* `Logged.Gives`            — what a computation gives, and the lines it appends;
* `Program.Step.line?_eq`   — a step is reported as its records tell;
* `Program.advance_gives`, `Program.runSteps_gives`, … — so is a run;
* `Program.CompletesAfter.linesBetween_eq` — the lines of a run that is over;
* `Table.log_agrees_with_records` — the main statement.
-/
import AutomaticMachine.Proofs.Run.Drivers
import AutomaticMachine.Proofs.Snapshot.Invariant
import AutomaticMachine.Record

namespace AutomaticMachine

/-! ### What a computation appends -/

namespace Logged

variable {α β : Type} {m : Logged α} {a : α} {lines : List String}

/-- Whatever is in the log before, the computation gives `a` and appends entries with these
lines. -/
def Gives (m : Logged α) (a : α) (lines : List String) : Prop :=
  ∀ log, ∃ entries : List Entry,
    m.run log = (a, log ++ entries.toArray) ∧ entries.map Entry.line = lines

theorem Gives.pure (a : α) : Gives (Pure.pure a) a [] := by
  intro log
  refine ⟨[], ?_, rfl⟩
  show (a, log) = (a, log ++ #[])
  rw [Array.append_empty]

theorem Gives.bind {f : α → Logged β} {b : β} {lines' : List String} (h : m.Gives a lines)
    (h' : (f a).Gives b lines') : Gives (m >>= f) b (lines ++ lines') := by
  intro log
  obtain ⟨entries, hrun, hlines⟩ := h log
  obtain ⟨entries', hrun', hlines'⟩ := h' (log ++ entries.toArray)
  refine ⟨entries ++ entries', ?_, ?_⟩
  · rw [StateT.run_bind, hrun]
    show (f a).run (log ++ entries.toArray) = _
    rw [hrun']
    simp
  · rw [List.map_append, hlines, hlines']

/-- A computation gives one value only. -/
theorem Gives.eq_of_run {log : Array Entry} (h : m.Gives a lines) : (m.run log).1 = a := by
  obtain ⟨entries, hrun, -⟩ := h log
  rw [hrun]

theorem Gives.of_run_eq {m' : Logged β} {f : α → β} (h : m.Gives a lines)
    (hrun : ∀ log, m'.run log = Prod.map f id (m.run log)) : m'.Gives (f a) lines := by
  intro log
  obtain ⟨entries, hm, hlines⟩ := h log
  refine ⟨entries, ?_, hlines⟩
  rw [hrun, hm]
  rfl

end Logged

/-! ### The line of a step -/

namespace Record

/-- The line for an operation that is carried out. -/
def executedLine (program : String) (step : Nat) (configuration operation : String) : String :=
  s!"TRACE {program}: step {step} in '{configuration}': {operation}"

/-- The line for a symbol that there is no rule for. -/
def stoppedLine (program configuration : String) (scanned : Symbol) (steps : Nat) : String :=
  s!"DEBUG {program}: no rule in '{configuration}' for {Text.quote scanned}, completed after {steps} steps"

theorem trace_prefix_executedLine (program : String) (step : Nat)
    (configuration operation : String) :
    "TRACE ".toList <+: (executedLine program step configuration operation).toList := by
  show _ <+: ("TRACE " ++ program ++ ": step " ++ toString step ++ " in '" ++ configuration ++
    "': " ++ operation).toList
  simp only [String.append_assoc]
  rw [String.toList_append]
  exact List.prefix_append _ _

theorem debug_prefix_stoppedLine (program configuration : String) (scanned : Symbol)
    (steps : Nat) :
    "DEBUG ".toList <+: (stoppedLine program configuration scanned steps).toList := by
  show _ <+: ("DEBUG " ++ program ++ ": no rule in '" ++ configuration ++ "' for " ++
    Text.quote scanned ++ ", completed after " ++ toString steps ++ " steps").toList
  simp only [String.append_assoc]
  rw [String.toList_append]
  exact List.prefix_append _ _

/-- The line for the step of a program between two records, where `scanned` is the symbol under
the head before it. -/
def line? (program : String) (scanned : Symbol) (r r' : Record) : Option String :=
  match r.runningState, r'.runningState with
  | .completed, _ => none
  | _, .completed => some (stoppedLine program r'.nextConfiguration scanned r'.step)
  | _, .running => r'.operation.map (executedLine program r'.step r'.configuration)
  | _, .paused => none

end Record

namespace Program

open Logged

variable {p : Program} {s s' : Snapshot}

/-- The line for the step between two snapshots. -/
def line? (p : Program) (s s' : Snapshot) : Option String :=
  Record.line? p.name s.symbol (Record.ofSnapshot p s) (Record.ofSnapshot p s')

/-- The lines for the steps between snapshots that follow each other. -/
def linesBetween (p : Program) : List Snapshot → List String
  | s :: s' :: rest => (p.line? s s').toList ++ p.linesBetween (s' :: rest)
  | _ => []

theorem line?_of_running (hs : s.state ≠ .completed) (hs' : s'.state = .running) :
    p.line? s s' = s'.last.map fun op =>
      Record.executedLine p.name s'.steps (p.configurationName s'.current) op.name := by
  have hr : (Record.ofSnapshot p s).runningState = s.state := rfl
  have hr' : (Record.ofSnapshot p s').runningState = .running := hs'
  rw [line?, Record.line?, hr, hr']
  cases hstate : s.state with
  | completed => exact absurd hstate hs
  | paused => exact Option.map_map _ Operation.name s'.last
  | running => exact Option.map_map _ Operation.name s'.last

theorem line?_of_stopped (hs : s.state ≠ .completed) (hs' : s'.state = .completed) :
    p.line? s s' =
      some (Record.stoppedLine p.name (p.configurationName s'.next) s.symbol s'.steps) := by
  have hr : (Record.ofSnapshot p s).runningState = s.state := rfl
  have hr' : (Record.ofSnapshot p s').runningState = .completed := hs'
  rw [line?, Record.line?, hr, hr']
  cases hstate : s.state with
  | completed => exact absurd hstate hs
  | paused => rfl
  | running => rfl

theorem line?_of_completed (hs : s.state = .completed) : p.line? s s' = none := by
  have hr : (Record.ofSnapshot p s).runningState = .completed := hs
  rw [line?, Record.line?, hr]

theorem line_executed (program : String) (step : Nat) (configuration : String) (op : Operation) :
    Entry.line ⟨program, .executed step configuration op⟩ =
      Record.executedLine program step configuration op.name := by
  have hlevel : "TRACE" ++ " " = "TRACE " := rfl
  have htext : ": " ++ "step " = ": step " := rfl
  show "TRACE" ++ " " ++ program ++ ": " ++
      ("step " ++ toString step ++ " in '" ++ configuration ++ "': " ++ op.name) =
    "TRACE " ++ program ++ ": step " ++ toString step ++ " in '" ++ configuration ++ "': " ++ op.name
  rw [hlevel, ← htext]
  simp only [String.append_assoc]

theorem line_noRule (program configuration : String) (symbol : Symbol) (steps : Nat) :
    Entry.line ⟨program, .noRule configuration symbol steps⟩ =
      Record.stoppedLine program configuration symbol steps := by
  have hlevel : "DEBUG" ++ " " = "DEBUG " := rfl
  have htext : ": " ++ "no rule in '" = ": no rule in '" := rfl
  show "DEBUG" ++ " " ++ program ++ ": " ++ ("no rule in '" ++ configuration ++ "' for " ++
      Text.quote symbol ++ ", completed after " ++ toString steps ++ " steps") =
    "DEBUG " ++ program ++ ": no rule in '" ++ configuration ++ "' for " ++
      Text.quote symbol ++ ", completed after " ++ toString steps ++ " steps"
  rw [hlevel, ← htext]
  simp only [String.append_assoc]

/-- What a step reports is the line that its records call for. -/
theorem Step.line?_eq (h : Step p s s') :
    (p.event? s).map (fun event => Entry.line ⟨p.name, event⟩) = p.line? s s' := by
  cases h with
  | stay hs =>
    rw [line?_of_completed hs, event?, if_pos (Snapshot.isCompleted_iff.mpr hs)]
    rfl
  | stop hs hpend hr =>
    have hevent : p.event? s =
        some (.noRule (p.configurationName s.next) s.symbol s.steps) := by
      simp [event?, Snapshot.isCompleted_iff, hs, order?, hpend, hr]
    rw [line?_of_stopped hs rfl, hevent, Option.map_some, line_noRule]
  | start hs hpend r hr =>
    have hevent : p.event? s = r.operations.head?.map
        (.executed (s.steps + 1) (p.configurationName s.next)) := by
      simp [event?, Snapshot.isCompleted_iff, hs, order?, hpend, hr]
    rw [line?_of_running hs rfl, hevent, Option.map_map]
    exact congrArg₂ Option.map (funext fun op => line_executed _ _ _ op) rfl
  | resume hs op rest hpend =>
    have hevent : p.event? s =
        some (.executed (s.steps + 1) (p.configurationName s.current) op) := by
      simp [event?, Snapshot.isCompleted_iff, hs, order?, hpend]
    rw [line?_of_running hs rfl, hevent, Option.map_some, line_executed]
    rfl

theorem advance_gives (p : Program) (s : Snapshot) :
    (p.advance s).Gives (p.step s) (p.line? s (p.step s)).toList := by
  intro log
  refine ⟨((p.event? s).map (Entry.mk p.name)).toList, advance_run p s log, ?_⟩
  rw [← (step_cases p s).line?_eq]
  cases p.event? s <;> rfl

/-- A rule without operations is begun in silence. -/
theorem advance_gives_of_redirect {r : Rule Nat} (hs : s.state ≠ .completed)
    (hpend : s.pending = []) (hr : p.findRule? s.next s.symbol = some r)
    (hnil : r.operations = []) : (p.advance s).Gives (p.step s) [] := by
  have hline : p.line? s (p.step s) = none := by
    rw [← (Step.start hs hpend r hr).eq_step, line?_of_running hs rfl, follow_last, hnil]
    rfl
  have h := advance_gives p s
  rwa [hline] at h

/-! ### The lines of a run -/

theorem linesBetween_iterate (p : Program) (s : Snapshot) (n : Nat) :
    p.linesBetween (List.iterate p.step s (n + 1)) =
      (List.range n).filterMap fun k => p.line? (p.step^[k] s) (p.step (p.step^[k] s)) := by
  induction n generalizing s with
  | zero => rfl
  | succ n ih =>
    show p.linesBetween (s :: p.step s :: List.iterate p.step (p.step (p.step s)) n) = _
    rw [linesBetween, List.range_succ_eq_map, List.filterMap_cons, List.filterMap_map]
    show (p.line? s (p.step s)).toList ++
      p.linesBetween (List.iterate p.step (p.step s) (n + 1)) = _
    rw [ih]
    cases hline : p.line? s (p.step s) <;> simp [hline, Function.comp_def]

theorem snapshotsFrom_gives (p : Program) (seen : Array Snapshot) (n : Nat) (s : Snapshot) :
    (p.snapshotsFrom seen n s).Gives (seen ++ (List.iterate p.step s n).toArray)
      (p.linesBetween (List.iterate p.step s (n + 1))) := by
  induction n generalizing seen s with
  | zero =>
    have hseen : seen ++ (List.iterate p.step s 0).toArray = seen := Array.append_empty
    rw [hseen]
    exact Gives.pure seen
  | succ n ih =>
    have hseen : seen.push s ++ (List.iterate p.step (p.step s) n).toArray =
        seen ++ (List.iterate p.step s (n + 1)).toArray := by
      simp [List.iterate]
    rw [← hseen]
    exact (advance_gives p s).bind (ih _ _)

/-- The step after the last snapshot that is handed out is taken and reported too. -/
theorem runSteps_gives (p : Program) (n : Nat) (s : Snapshot) :
    (p.runSteps n s).Gives (List.iterate p.step s (n + 1)).toArray
      (p.linesBetween (List.iterate p.step s (n + 2))) := by
  have h := snapshotsFrom_gives p #[] (n + 1) s
  rwa [Array.empty_append] at h

/-- A search reports the steps up to what it finds, or as many as it may take. -/
theorem exists_seekCompletion_gives (p : Program) (taken n : Nat) (s : Snapshot) :
    ∃ found : Option Nat, (p.seekCompletion taken n s).Gives (found.map (taken + ·))
      (p.linesBetween (List.iterate p.step s (found.getD n + 1))) := by
  induction n generalizing taken s with
  | zero => exact ⟨none, Gives.pure none⟩
  | succ n ih =>
    by_cases hc : (p.step s).isCompleted
    · refine ⟨some 1, ?_⟩
      show Gives _ _ (p.linesBetween [s, p.step s])
      rw [linesBetween, seekCompletion]
      refine (advance_gives p s).bind ?_
      rw [if_pos hc]
      exact Gives.pure (some (taken + 1))
    · obtain ⟨found, hfound⟩ := ih (taken + 1) (p.step s)
      have hvalue : (found.map (· + 1)).map (taken + ·) = found.map (taken + 1 + ·) := by
        rw [Option.map_map]
        congr 1
        funext k
        simp only [Function.comp_apply]
        omega
      have hsteps : (found.map (· + 1)).getD (n + 1) = found.getD n + 1 := by
        cases found <;> rfl
      refine ⟨found.map (· + 1), ?_⟩
      rw [hvalue, hsteps, seekCompletion]
      show Gives _ _ (p.linesBetween
        (s :: p.step s :: List.iterate p.step (p.step (p.step s)) (found.getD n)))
      rw [linesBetween]
      refine (advance_gives p s).bind ?_
      rw [if_neg hc]
      exact hfound

theorem CompletesAfter.seekCompletion_gives {n k : Nat} (hk : k ≤ n) (h : p.CompletesAfter s k) :
    (p.seekCompletion 0 n s).Gives (some k) (p.linesBetween (List.iterate p.step s (k + 1))) := by
  obtain ⟨found, hfound⟩ := exists_seekCompletion_gives p 0 n s
  have hvalue : found = some k := by
    have hrun : ((p.seekCompletion 0 n s).run #[]).1 = some k :=
      seekCompletion_eq_some_iff.mpr ⟨hk, h⟩
    rw [hfound.eq_of_run] at hrun
    simpa using hrun
  rw [hvalue] at hfound
  simpa using hfound

theorem seekCompletion_gives_none {n : Nat} (h : ∀ k ≤ n, ¬ p.CompletesAfter s k) :
    (p.seekCompletion 0 n s).Gives none (p.linesBetween (List.iterate p.step s (n + 1))) := by
  obtain ⟨found, hfound⟩ := exists_seekCompletion_gives p 0 n s
  cases found with
  | none => exact hfound
  | some k =>
    have hrun : ((p.seekCompletion 0 n s).run #[]).1 = some (0 + k) := hfound.eq_of_run
    obtain ⟨hk, hcomp⟩ := seekCompletion_eq_some_iff.mp hrun
    exact absurd hcomp (h _ hk)

/-! ### Where the run is over -/

/-- A step that does not end the run leaves no line but that of its operation. -/
theorem trace_prefix_of_line? {line : String} (h : (p.step s).state ≠ .completed)
    (hline : p.line? s (p.step s) = some line) : "TRACE ".toList <+: line.toList := by
  have hs : s.state ≠ .completed := by
    intro hs
    rw [step_of_completed hs] at h
    exact h hs
  rw [line?_of_running hs (state_step_of_not_completed h)] at hline
  obtain ⟨op, -, rfl⟩ := Option.map_eq_some_iff.mp hline
  exact Record.trace_prefix_executedLine _ _ _ _

theorem debug_prefix_of_line? {line : String} (hs : s.state ≠ .completed)
    (h : (p.step s).state = .completed) (hline : p.line? s (p.step s) = some line) :
    "DEBUG ".toList <+: line.toList := by
  rw [line?_of_stopped hs h] at hline
  obtain rfl := Option.some.inj hline
  exact Record.debug_prefix_stoppedLine _ _ _ _

/-- The lines of a run that was not over before: the last one, and no other, tells that it is. -/
theorem CompletesAfter.linesBetween_eq {k : Nat} (hs : s.state ≠ .completed)
    (h : p.CompletesAfter s k) :
    ∃ front last, p.linesBetween (List.iterate p.step s (k + 1)) = front ++ [last] ∧
      (∀ line ∈ front, "TRACE ".toList <+: line.toList) ∧ "DEBUG ".toList <+: last.toList := by
  obtain ⟨j, rfl⟩ := Nat.exists_eq_add_of_le' h.pos
  -- The run is not over before its last step.
  have hbefore : (p.step^[j] s).state ≠ .completed := by
    rcases Nat.eq_zero_or_pos j with rfl | hj
    · exact hs
    · exact h.least j hj (Nat.lt_succ_self j)
  have hover : (p.step (p.step^[j] s)).state = .completed := by
    rw [← Function.iterate_succ_apply' p.step j s]
    exact h.completed
  obtain ⟨last, hlast⟩ : ∃ last, p.line? (p.step^[j] s) (p.step (p.step^[j] s)) = some last :=
    ⟨_, line?_of_stopped hbefore hover⟩
  refine ⟨p.linesBetween (List.iterate p.step s (j + 1)), last, ?_, ?_,
    debug_prefix_of_line? hbefore hover hlast⟩
  · rw [linesBetween_iterate, List.range_succ, List.filterMap_append, ← linesBetween_iterate]
    congr 1
    simp [hlast]
  · intro line hline
    rw [linesBetween_iterate] at hline
    obtain ⟨i, hi, hline⟩ := List.mem_filterMap.mp hline
    have hij : i < j := List.mem_range.mp hi
    have hnot := h.least (i + 1) (by omega) (by omega)
    rw [Function.iterate_succ_apply' p.step i s] at hnot
    exact trace_prefix_of_line? hnot hline

end Program

/-- **The log and the trace agree.**  Along every run of a table that is accepted a step writes
the line that its records call for, with the symbol that is on the tape; and whichever way the
program is run from there, the lines are those of the steps it takes. -/
theorem Table.log_agrees_with_records {t : Table} {initial : String} {p : Program}
    (hb : t.build initial = .ok p) (n : Nat) :
    let s := p.step^[n] p.start
    (∃ scanned, s.tape.read s.head = .ok scanned ∧
      (p.advance s).Gives (p.step s) (Record.line? p.name scanned (Record.ofSnapshot p s)
        (Record.ofSnapshot p (p.step s))).toList) ∧
    (∀ r, s.state ≠ .completed → s.pending = [] → p.findRule? s.next s.symbol = some r →
      r.operations = [] → (p.advance s).Gives (p.step s) []) ∧
    -- So many steps are reported with the one that is taken too early.
    (∀ k, (p.runSteps k s).Gives (List.iterate p.step s (k + 1)).toArray
      (p.linesBetween (List.iterate p.step s (k + 2)))) ∧
    -- A run to the end, when it comes in time and when it does not.
    (∀ limit k, k ≤ limit → p.CompletesAfter s k →
      (p.runWithLimit limit s).Gives (.ok (List.iterate p.step s (k + 1)).toArray)
        (p.linesBetween (List.iterate p.step s (k + 1)))) ∧
    (∀ limit, (∀ k ≤ limit, ¬ p.CompletesAfter s k) →
      (p.runWithLimit limit s).Gives (.error (.stepLimitExceeded limit))
        (p.linesBetween (List.iterate p.step s (limit + 1)))) ∧
    (∀ fuel k, k ≤ fuel → p.CompletesAfter s k →
      (p.runToCompletion fuel s).Gives (some (List.iterate p.step s (k + 1)).toArray)
        (p.linesBetween (List.iterate p.step s (k + 1)))) ∧
    (∀ fuel, (∀ k ≤ fuel, ¬ p.CompletesAfter s k) →
      (p.runToCompletion fuel s).Gives none
        (p.linesBetween (List.iterate p.step s (fuel + 1)))) ∧
    -- The end of a run is told once, in its last line.
    ∀ k, s.state ≠ .completed → p.CompletesAfter s k →
      ∃ front last, p.linesBetween (List.iterate p.step s (k + 1)) = front ++ [last] ∧
        (∀ line ∈ front, "TRACE ".toList <+: line.toList) ∧
        "DEBUG ".toList <+: last.toList := by
  intro s
  obtain ⟨hw, rfl⟩ := Table.build_eq_ok_iff.mp hb
  have hhead : s.head < s.tape.size := (Program.consistent_iterate hw.closed_resolved n).head_lt
  refine ⟨⟨s.symbol, Snapshot.read_eq hhead, Program.advance_gives _ s⟩,
    fun r hs hpend hr hnil => Program.advance_gives_of_redirect hs hpend hr hnil,
    fun k => Program.runSteps_gives _ k s, ?limit, ?limitError, ?completion, ?fuel,
    fun k hs h => h.linesBetween_eq hs⟩
  case limit =>
    intro limit k hk h
    exact (h.seekCompletion_gives hk).of_run_eq (Program.runWithLimit_run _ limit s)
  case limitError =>
    intro limit h
    exact (Program.seekCompletion_gives_none h).of_run_eq (Program.runWithLimit_run _ limit s)
  case completion =>
    intro fuel k hk h
    exact (h.seekCompletion_gives hk).of_run_eq (Program.runToCompletion_run _ fuel s)
  case fuel =>
    intro fuel h
    exact (Program.seekCompletion_gives_none h).of_run_eq (Program.runToCompletion_run _ fuel s)

/-- The third step, which only goes on to another configuration, leaves no line. -/
theorem Table.log_agrees_with_records_redirect :
    let t : Table := {
      name := "redirect"
      configurations := [
        ⟨"b", [⟨.none, [.print "0", .move .right], "c"⟩]⟩,
        ⟨"c", [⟨.none, [], "d"⟩]⟩,
        ⟨"d", [⟨.none, [.print "\""], completeName⟩]⟩] }
    let p := t.resolved "b"
    let lines := [
      "TRACE redirect: step 1 in 'b': print 0",
      "TRACE redirect: step 2 in 'b': right",
      "TRACE redirect: step 4 in 'd': print \"",
      "DEBUG redirect: no rule in 'complete' for \"\\\"\", completed after 4 steps"]
    t.build "b" = .ok p ∧ p.CompletesAfter p.start 5 ∧
      (p.runWithLimit 6 p.start).Gives (.ok (List.iterate p.step p.start 6).toArray) lines := by
  intro t p lines
  have hb : t.build "b" = .ok p := rfl
  have hcomp : p.CompletesAfter p.start 5 := by
    decide +kernel
  have hlines : p.linesBetween (List.iterate p.step p.start 6) = lines := by
    decide +kernel
  rw [← hlines]
  obtain ⟨-, -, -, hlimit, -⟩ := Table.log_agrees_with_records hb 0
  exact ⟨hb, hcomp, hlimit 6 5 (by omega) hcomp⟩

end AutomaticMachine
