/-
Runs of a program as runs over rows.

What the next steps of a run do depends on the row of symbols on the tape, on
what is owed and on the configuration that follows; these make up a
`Situation`.  `Program.proceed` goes from one situation to the next without
squares, links and numbers of squares, and a run does the same (`IsIn.step`).

`Program.Leads` says that a program comes from one situation to another over
rows that all have a property: what is proved of the situations between is
true of all snapshots between (`Leads.iterate`).
-/
import AutomaticMachine.Proofs.Snapshot.Step
import AutomaticMachine.Proofs.Tape.Row
import AutomaticMachine.Snapshot.Rendering
import Mathlib.Logic.Function.Iterate

namespace AutomaticMachine

/-- What the next steps of a run depend on. -/
structure Situation where
  row : Row
  /-- The operations that are owed. -/
  owed : List Operation
  /-- The number of the configuration that follows when nothing is owed. -/
  next : Nat

/-- Do the first of some operations, if there is one, and owe the others. -/
def Situation.carryOut (m : Situation) (operations : List Operation) (next : Nat) : Situation where
  row := operations.head?.elim m.row fun op => op.onRow m.row
  owed := operations.tail
  next := next

/-- The snapshot of a run that goes on is in a situation. -/
structure Snapshot.IsIn (s : Snapshot) (m : Situation) : Prop where
  not_completed : s.state ≠ .completed
  bears : ∃ l, s.tape.Bears l s.head m.row
  pending_eq : s.pending = m.owed
  next_eq : s.next = m.next

namespace Program

variable {p : Program} {s : Snapshot} {m m' m'' : Situation} {P : Row → Prop}

/-- The operations that are to be done, with the successor: those that are owed, or else those of
the rule for the scanned symbol. -/
def ordered? (p : Program) (m : Situation) : Option (List Operation × Nat) :=
  match m.owed with
  | [] => (p.findRule? m.next m.row.scanned).map fun r => (r.operations, r.next)
  | op :: rest => some (op :: rest, m.next)

/-- Where nothing is owed, the rule for the scanned symbol says what is to be done. -/
theorem ordered?_of_rule {row : Row} {i : Nat} {x : Symbol} {r : Rule Nat}
    (hx : row.scanned = x) (hr : p.findRule? i x = some r) :
    p.ordered? ⟨row, [], i⟩ = some (r.operations, r.next) := by
  rw [ordered?, hx, hr]
  rfl

/-- The next situation.  There is none where no rule applies. -/
def proceed (p : Program) (m : Situation) : Option Situation :=
  (p.ordered? m).map fun (operations, next) => m.carryOut operations next

theorem proceed_of_ordered? {operations : List Operation} {next : Nat}
    (ho : p.ordered? m = some (operations, next)) :
    p.proceed m = some (m.carryOut operations next) := by
  rw [proceed, ho]
  rfl

end Program

namespace Snapshot

namespace IsIn

variable {p : Program} {s : Snapshot} {m m' : Situation}

theorem symbol_eq (h : s.IsIn m) : s.symbol = m.row.scanned := by
  obtain ⟨l, hl⟩ := h.bears
  rw [Snapshot.symbol_eq hl.head_lt, hl.scanned_eq]

theorem tapeSymbols_eq (h : s.IsIn m) : s.tapeSymbols = m.row.symbols := by
  obtain ⟨l, hl⟩ := h.bears
  have hlen : m.row.symbols.length ≤ l.length := Nat.le_of_eq hl.length_eq
  rw [tapeSymbols, squares, hl.squares_eq]
  exact List.map_snd_zip hlen

/-- Where operations are to be done, the next step follows an order for them. -/
theorem exists_order (h : s.IsIn m) {operations : List Operation} {next : Nat}
    (ho : p.ordered? m = some (operations, next)) :
    ∃ i, p.step s = Program.follow s ⟨i, operations, next⟩ := by
  rw [Program.ordered?] at ho
  split at ho
  · rename_i howed
    obtain ⟨r, hr, hnext⟩ := Option.map_eq_some_iff.mp ho
    obtain ⟨rfl, rfl⟩ := Prod.mk.inj hnext
    rw [← h.next_eq, ← h.symbol_eq] at hr
    exact ⟨s.next, (Program.Step.start h.not_completed (h.pending_eq.trans howed) r hr).eq_step.symm⟩
  · rename_i op rest howed
    obtain ⟨rfl, rfl⟩ := Prod.mk.inj (Option.some.inj ho)
    rw [← h.next_eq]
    exact ⟨s.current,
      (Program.Step.resume h.not_completed op rest (h.pending_eq.trans howed)).eq_step.symm⟩

/-- Following an order does to the situation what it does to the snapshot. -/
theorem follow (h : s.IsIn m) (i : Nat) (operations : List Operation) (next : Nat) :
    (Program.follow s ⟨i, operations, next⟩).IsIn (m.carryOut operations next) where
  not_completed := by simp
  bears := by
    obtain ⟨l, hl⟩ := h.bears
    cases operations with
    | nil =>
      obtain ⟨ht, hh⟩ := Program.follow_tape_of_nil (s := s) (o := ⟨i, [], next⟩) rfl
      rw [ht, hh]
      exact ⟨l, hl⟩
    | cons op rest =>
      obtain ⟨t', j, l', hop, hl'⟩ := hl.execute op
      obtain ⟨ht, hh⟩ := Program.follow_tape_of_cons (o := ⟨i, op :: rest, next⟩) rfl hop
      rw [ht, hh]
      exact ⟨l', hl'⟩
  pending_eq := rfl
  next_eq := rfl

/-- A step of a run goes on to the next situation. -/
theorem step (h : s.IsIn m) (hm : p.proceed m = some m') : (p.step s).IsIn m' := by
  obtain ⟨⟨operations, next⟩, ho, rfl⟩ := Option.map_eq_some_iff.mp hm
  obtain ⟨i, hstep⟩ := h.exists_order ho
  rw [hstep]
  exact h.follow i operations next

end IsIn

end Snapshot

namespace Program

variable {p : Program} {s : Snapshot} {m m' m'' : Situation} {P : Row → Prop}

/-- The situation of a run before the first step. -/
def opening (p : Program) : Situation where
  row := { symbols := [Symbol.blank], place := 0 }
  owed := []
  next := p.initial

theorem isIn_opening (p : Program) : p.start.IsIn p.opening where
  not_completed := by simp [start, RunningState.initial]
  bears := ⟨_, Tape.bears_new⟩
  pending_eq := rfl
  next_eq := rfl

/-! ### Coming from one situation to another -/

/-- From the first situation the program comes to the second, and all rows on the way, with those
at its ends, have the property. -/
inductive Leads (p : Program) (P : Row → Prop) : Situation → Situation → Prop
  | refl {m : Situation} (hP : P m.row) : Leads p P m m
  | head {m m' m'' : Situation} (hP : P m.row) (hm : p.proceed m = some m')
      (h : Leads p P m' m'') : Leads p P m m''

theorem Leads.trans (h : p.Leads P m m') (h' : p.Leads P m' m'') : p.Leads P m m'' := by
  induction h with
  | refl _ => exact h'
  | head hP hm _ ih => exact .head hP hm (ih h')

/-- Do an operation that is owed. -/
theorem Leads.owed {row row' : Row} {op : Operation} {rest : List Operation} {next : Nat}
    (hP : P row) (hrow : op.onRow row = row') (h : p.Leads P ⟨row', rest, next⟩ m) :
    p.Leads P ⟨row, op :: rest, next⟩ m := by
  subst hrow
  exact .head hP rfl h

/-- Do all operations that are owed. -/
theorem Leads.allOwed {row : Row} {operations : List Operation} {next : Nat}
    (hP : ∀ k ≤ operations.length, P ((operations.take k).foldl (fun r op => op.onRow r) row)) :
    p.Leads P ⟨row, operations, next⟩
      ⟨operations.foldl (fun r op => op.onRow r) row, [], next⟩ := by
  induction operations generalizing row with
  | nil => exact .refl (hP 0 (Nat.le_refl _))
  | cons op rest ih =>
    refine .owed (hP 0 (Nat.zero_le _)) rfl (ih ?_)
    intro k hk
    exact hP (k + 1) (Nat.succ_le_succ hk)

/-- Begin the rule for the scanned symbol. -/
theorem Leads.rule {row row' : Row} {i next : Nat} {x : Symbol} {matcher : Matcher}
    {op : Operation} {rest : List Operation} (hP : P row) (hx : row.scanned = x)
    (hr : p.findRule? i x = some ⟨matcher, op :: rest, next⟩) (hrow : op.onRow row = row')
    (h : p.Leads P ⟨row', rest, next⟩ m) : p.Leads P ⟨row, [], i⟩ m := by
  subst hrow
  exact .head hP (proceed_of_ordered? (ordered?_of_rule hx hr)) h

/-- Go to the next configuration by a rule without operations. -/
theorem Leads.redirect {row : Row} {i next : Nat} {x : Symbol} {matcher : Matcher} (hP : P row)
    (hx : row.scanned = x) (hr : p.findRule? i x = some ⟨matcher, [], next⟩)
    (h : p.Leads P ⟨row, [], next⟩ m) : p.Leads P ⟨row, [], i⟩ m :=
  .head hP (proceed_of_ordered? (ordered?_of_rule hx hr)) h

/-- A run comes to a situation that its situation leads to, and its snapshots on the way are in
situations on the way. -/
theorem Leads.iterate (h : p.Leads P m m') (hs : s.IsIn m) :
    ∃ n, (p.step^[n] s).IsIn m' ∧
      ∀ k ≤ n, ∃ m'', (p.step^[k] s).IsIn m'' ∧ P m''.row := by
  induction h generalizing s with
  | refl hP =>
    refine ⟨0, hs, ?_⟩
    intro k hk
    obtain rfl : k = 0 := by omega
    exact ⟨_, hs, hP⟩
  | head hP hm _ ih =>
    obtain ⟨n, hn, hway⟩ := ih (hs.step hm)
    refine ⟨n + 1, hn, ?_⟩
    intro k hk
    rcases k with _ | k
    · exact ⟨_, hs, hP⟩
    · exact hway k (by omega)

end Program

end AutomaticMachine
