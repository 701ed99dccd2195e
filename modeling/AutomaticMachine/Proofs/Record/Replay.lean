/-
A trace tells the tape of a run without the program.

The records of two snapshots, one step after the other, follow each other as
`Record.Succeeds` says: only a rule that is begun needs the table.  What was
done between them is named in the second one, if it counts a step more, and an
operation can be told from its name.  So the tape can be had from the records
alone, by doing again on a new tape what they name (`Record.replay`).

* `Operation.ofName?_name`      — a name determines the operation;
* `Program.Step.succeeds`       — how the record of a step follows the record before it;
* `Program.Step.executes`       — a step does to the tape what its record names;
* `Program.executes_iterate`    — so does a run;
* `Table.trace_replayable`      — the main statement, on the traces of all ways to run a program.
-/
import AutomaticMachine.Proofs.Run.Drivers
import AutomaticMachine.Proofs.Snapshot.Invariant
import AutomaticMachine.Proofs.Table.Names
import AutomaticMachine.Record

namespace AutomaticMachine

/-! ### Names of operations -/

namespace Operation

/-- The operation with a name. -/
def ofName? (name : String) : Option Operation :=
  match name.toList with
  | 'p' :: 'r' :: 'i' :: 'n' :: 't' :: ' ' :: s => some (print (String.ofList s))
  | _ =>
    if name = "erase" then some erase
    else if name = "left" then some (move .left)
    else if name = "right" then some (move .right)
    else none

theorem ofName?_name (op : Operation) : ofName? op.name = some op := by
  cases op with
  | print s =>
    have hname : (print s).name.toList = 'p' :: 'r' :: 'i' :: 'n' :: 't' :: ' ' :: s.toList := by
      rw [name, String.toList_append]
      rfl
    rw [ofName?, hname]
    show some (print (String.ofList s.toList)) = _
    rw [String.ofList_toList]
  | erase => rfl
  | move d => cases d <;> rfl

theorem name_injective : Function.Injective name := by
  intro op op' h
  have hsome : some op = some op' := by
    rw [← ofName?_name op, h, ofName?_name]
  exact Option.some.inj hsome

theorem mapM_ofName?_map_name (operations : List Operation) :
    (operations.map name).mapM ofName? = some operations :=
  mapM_map_eq_some fun op _ => ofName?_name op

end Operation

/-- The tape as one text with square `i` in brackets. -/
def Tape.textWithCursor (t : Tape) (i : Nat) : Except StaleCell String := do
  return String.join <| (← t.squares i).map fun (k, symbol) =>
    if k = i then "[" ++ Symbol.display symbol ++ "]" else Symbol.display symbol

theorem Tape.Chain.textWithCursor_eq {s : Snapshot} {l : List Nat} (h : s.tape.Chain l)
    (hh : s.head < s.tape.size) : s.tape.textWithCursor s.head = .ok s.tapeTextWithCursor := by
  rw [textWithCursor, Snapshot.tapeTextWithCursor, Snapshot.squares, h.squares_eq hh]
  rfl

namespace Record

/-! ### Doing again what a trace names -/

/-- The operation that was carried out between two records.  Where no step is counted there was
none, and the second record only repeats what the first one names. -/
def performed? (r r' : Record) : Option String :=
  if r.step < r'.step then r'.operation else none

/-- The names of the operations that were carried out in a trace, in order. -/
def performed : List Record → List String
  | r :: r' :: rest => (r.performed? r').toList ++ performed (r' :: rest)
  | _ => []

/-- The text of the tape on which the operations named in a trace have been carried out.  The
trace is all there is to know. -/
def replay (records : List Record) : Option String := do
  let operations ← (performed records).mapM Operation.ofName?
  let (t, i) ← (Operation.executeAll operations Tape.new Tape.origin).toOption
  (t.textWithCursor i).toOption

/-- Every record of a trace shows the tape that a replay of the trace up to it leaves. -/
def Replayable (records : List Record) : Prop :=
  ∀ k (hk : k < records.length), replay (records.take (k + 1)) = some records[k].tape

/-! ### One record after another -/

/-- What the record `r'` after the record `r` is, its tape apart, given the table and the symbol
that is scanned before. -/
structure Succeeds (t : Table) (scanned : Symbol) (r r' : Record) : Prop where
  /-- After the end nothing changes. -/
  stays : r.runningState = .completed → r' = r
  /-- Of the operations that are owed the first is done, whatever is scanned. -/
  owed : ∀ op rest, r.pendingOperations = op :: rest →
    r' = { r with
      runningState := .running
      step := r.step + 1
      operation := some op
      pendingOperations := rest
      tape := r'.tape }
  /-- Where there is no rule for the scanned symbol only the running state changes. -/
  stops : r.runningState ≠ .completed → r.pendingOperations = [] →
    t.ruleFor? r.nextConfiguration scanned = none → r' = { r with runningState := .completed }
  /-- Where there is one it is begun. -/
  begins : r.runningState ≠ .completed → r.pendingOperations = [] →
    ∀ rule, t.ruleFor? r.nextConfiguration scanned = some rule →
      r' = {
        step := r.step + 1
        runningState := .running
        configuration := r.nextConfiguration
        nextConfiguration := rule.next
        operation := (rule.operations.map Operation.name).head?
        pendingOperations := (rule.operations.map Operation.name).tail
        tape := r'.tape }

end Record

namespace Program

open Record

variable {t : Table} {initial : String} {p : Program} {s s' : Snapshot}

theorem Step.succeeds (hw : t.WellFormed initial) (hc : (t.resolved initial).Consistent s)
    (hs : Step (t.resolved initial) s s') :
    Succeeds t s.symbol (ofSnapshot (t.resolved initial) s) (ofSnapshot (t.resolved initial) s') := by
  have hrule : (t.resolved initial).findRule? s.next s.symbol =
      (t.ruleFor? (ofSnapshot (t.resolved initial) s).nextConfiguration s.symbol).map
        (Rule.map t.number) :=
    hw.findRule?_eq hc.next_lt s.symbol
  cases hs with
  | stay hs =>
    exact {
      stays := fun _ => rfl
      owed := fun op rest hpend => absurd hpend (by simp [ofSnapshot, (hc.stopped hs).1])
      stops := fun hne => absurd hs hne
      begins := fun hne => absurd hs hne }
  | stop hs hpend hr =>
    rw [hr] at hrule
    exact {
      stays := fun hover => absurd hover hs
      owed := fun op rest hpend' => absurd hpend' (by simp [ofSnapshot, hpend])
      stops := fun _ _ _ => rfl
      begins := fun _ _ rule hsome => by
        rw [hsome] at hrule
        exact nomatch hrule }
  | start hs hpend r hr =>
    rw [hr] at hrule
    exact {
      stays := fun hover => absurd hover hs
      owed := fun op rest hpend' => absurd hpend' (by simp [ofSnapshot, hpend])
      stops := fun _ _ hnone => by
        rw [hnone] at hrule
        exact nomatch hrule
      begins := fun _ _ rule hsome => by
        rw [hsome] at hrule
        obtain rfl : r = rule.map t.number := Option.some.inj hrule
        have hnext : (t.resolved initial).configurationName (t.number rule.next) = rule.next :=
          Table.configurationName_number (hw.declares_next hsome)
        simp [ofSnapshot, Rule.map, hnext] }
  | resume hs op rest hpend =>
    exact {
      stays := fun hover => absurd hover hs
      owed := fun op' rest' hpend' => by
        have hcons : op.name :: rest.map Operation.name = op' :: rest' := by
          rw [← hpend', ofSnapshot, hpend]
          rfl
        obtain ⟨rfl, rfl⟩ := List.cons.inj hcons
        rfl
      stops := fun _ hnil => absurd hnil (by simp [ofSnapshot, hpend])
      begins := fun _ hnil => absurd hnil (by simp [ofSnapshot, hpend]) }

/-! ### What a step does to the tape -/

theorem performed?_follow (p : Program) (s : Snapshot) (o : Order) :
    (ofSnapshot p s).performed? (ofSnapshot p (follow s o)) =
      o.operations.head?.map Operation.name :=
  if_pos (Nat.lt_succ_self s.steps)

/-- What the record of a step names, if it counts, is what the step does to the tape. -/
theorem Step.executes (hc : p.Consistent s) (hs : Step p s s') :
    ∃ op? : Option Operation,
      (ofSnapshot p s).performed? (ofSnapshot p s') = op?.map Operation.name ∧
        Operation.executeAll op?.toList s.tape s.head = .ok (s'.tape, s'.head) := by
  obtain ⟨l, hl⟩ := hc.chained
  cases hs with
  | stay _ => exact ⟨none, if_neg (Nat.lt_irrefl _), rfl⟩
  | stop _ _ _ => exact ⟨none, if_neg (Nat.lt_irrefl _), rfl⟩
  | start _ _ r _ => exact ⟨_, performed?_follow p s _, executeAll_follow hl hc.head_lt _⟩
  | resume _ op rest _ => exact ⟨_, performed?_follow p s _, executeAll_follow hl hc.head_lt _⟩

theorem executes_iterate (hp : p.Closed) (hc : p.Consistent s) (n : Nat) :
    ∃ operations, performed (trace p (List.iterate p.step s (n + 1))) =
        operations.map Operation.name ∧
      Operation.executeAll operations s.tape s.head =
        .ok ((p.step^[n] s).tape, (p.step^[n] s).head) := by
  induction n generalizing s with
  | zero => exact ⟨[], rfl, rfl⟩
  | succ n ih =>
    obtain ⟨op?, hname, hop⟩ := (step_cases p s).executes hc
    obtain ⟨rest, hnames, hrest⟩ := ih ((step_cases p s).consistent hp hc)
    refine ⟨op?.toList ++ rest, ?_, ?_⟩
    · show ((ofSnapshot p s).performed? (ofSnapshot p (p.step s))).toList ++
        performed (trace p (List.iterate p.step (p.step s) (n + 1))) = _
      rw [hname, hnames, List.map_append]
      cases op? <;> rfl
    · rw [Operation.executeAll_append hop, hrest]
      rfl

theorem replay_iterate (hp : p.Closed) (n : Nat) :
    replay (trace p (List.iterate p.step p.start (n + 1))) =
      some (ofSnapshot p (p.step^[n] p.start)).tape := by
  have hc := consistent_iterate hp n
  obtain ⟨l, hl⟩ := hc.chained
  obtain ⟨operations, hnames, hops⟩ := executes_iterate hp (consistent_start hp) n
  have hops' : Operation.executeAll operations Tape.new Tape.origin =
      .ok ((p.step^[n] p.start).tape, (p.step^[n] p.start).head) := hops
  rw [replay, hnames, Operation.mapM_ofName?_map_name]
  show (do
    let (t, i) ← (Operation.executeAll operations Tape.new Tape.origin).toOption
    (t.textWithCursor i).toOption) = _
  rw [hops']
  show ((p.step^[n] p.start).tape.textWithCursor (p.step^[n] p.start).head).toOption = _
  rw [hl.textWithCursor_eq hc.head_lt]
  rfl

theorem replayable_iterate (hp : p.Closed) (n : Nat) :
    Replayable (trace p (List.iterate p.step p.start n)) := by
  intro k hk
  have hkn : k < n := by simpa [trace] using hk
  have htake : (trace p (List.iterate p.step p.start n)).take (k + 1) =
      trace p (List.iterate p.step p.start (k + 1)) := by
    rw [trace, trace, ← List.map_take, List.take_iterate, Nat.min_eq_left hkn]
  rw [htake, replay_iterate hp k]
  simp [trace, List.getElem_iterate]

end Program

/-- **A trace is coherent and can be replayed.**  Along every run of a table that is accepted the
record of a snapshot determines the one after it up to the tape, by the table where a rule is
begun and alone elsewhere; operations are known by their names; and whichever way the program is
run, every record of the trace shows the tape that comes of doing again on a new tape what the
records up to it name. -/
theorem Table.trace_replayable {t : Table} {initial : String} {p : Program}
    (hb : t.build initial = .ok p) (log : Array Entry) :
    (∀ n, ∃ scanned, (p.step^[n] p.start).tape.read (p.step^[n] p.start).head = .ok scanned ∧
      Record.Succeeds t scanned (Record.ofSnapshot p (p.step^[n] p.start))
        (Record.ofSnapshot p (p.step (p.step^[n] p.start)))) ∧
    Function.Injective Operation.name ∧
    (∀ n, Record.Replayable (Record.trace p ((p.snapshots n p.start).run log).1.toList)) ∧
    (∀ n, Record.Replayable (Record.trace p ((p.runSteps n p.start).run log).1.toList)) ∧
    (∀ limit run, ((p.runWithLimit limit p.start).run log).1 = .ok run →
      Record.Replayable (Record.trace p run.toList)) ∧
    ∀ fuel run, ((p.runToCompletion fuel p.start).run log).1 = some run →
      Record.Replayable (Record.trace p run.toList) := by
  obtain ⟨hw, rfl⟩ := Table.build_eq_ok_iff.mp hb
  have hsnapshots : ∀ n, Record.Replayable (Record.trace (t.resolved initial)
      (((t.resolved initial).snapshots n (t.resolved initial).start).run log).1.toList) := by
    intro n
    rw [Program.snapshots_run]
    exact Program.replayable_iterate hw.closed_resolved n
  refine ⟨?succeeds, Operation.name_injective, hsnapshots, fun n => hsnapshots (n + 1), ?limit,
    ?completion⟩
  case succeeds =>
    intro n
    have hc := Program.consistent_iterate hw.closed_resolved n
    exact ⟨_, Snapshot.read_eq hc.head_lt, (Program.step_cases _ _).succeeds hw hc⟩
  case limit =>
    intro limit run hrun
    obtain ⟨k, -, -, rfl⟩ := Program.runWithLimit_eq_ok_iff.mp hrun
    exact hsnapshots (k + 1)
  case completion =>
    intro fuel run hrun
    obtain ⟨k, -, -, rfl⟩ := Program.runToCompletion_eq_some_iff.mp hrun
    exact hsnapshots (k + 1)

/-- The third step only goes on to another configuration, and the fifth finds no rule: neither
names an operation that is to be done again. -/
theorem Table.trace_replayable_redirect :
    let t : Table := {
      name := "redirect"
      configurations := [
        ⟨"b", [⟨.none, [.print "0", .move .right], "c"⟩]⟩,
        ⟨"c", [⟨.none, [], "d"⟩]⟩,
        ⟨"d", [⟨.none, [.print "print 1"], completeName⟩]⟩] }
    let p := t.resolved "b"
    let run := ((p.runSteps 5 p.start).run #[]).1
    t.build "b" = .ok p ∧ ((p.runWithLimit 6 p.start).run #[]).1 = .ok run ∧
      Record.performed (Record.trace p run.toList) = ["print 0", "right", "print print 1"] ∧
      Record.Replayable (Record.trace p run.toList) := by
  intro t p run
  have hb : t.build "b" = .ok p := rfl
  have hrun : ((p.runWithLimit 6 p.start).run #[]).1 = .ok run := by
    decide +kernel
  have hperformed : Record.performed (Record.trace p run.toList) =
      ["print 0", "right", "print print 1"] := by
    decide +kernel
  obtain ⟨-, -, -, -, hlimit, -⟩ := Table.trace_replayable hb #[]
  exact ⟨hb, hrun, hperformed, hlimit 6 run hrun⟩

end AutomaticMachine
