/-
What a step of a run can do.

`Program.Step` lists the four kinds of step together with what holds before
them: a run that is over stays, a run without a rule for the scanned symbol
stops, a rule is begun, or a begun rule is resumed.  `Program.step_cases` says
that there are no others, so nothing below has to open `Program.step` again.
`Program.step_related` is for two programs: their steps correspond where their
orders do.
-/
import AutomaticMachine.Proofs.Entrywise
import AutomaticMachine.Proofs.Tape.Chain
import AutomaticMachine.Snapshot

namespace AutomaticMachine

theorem Snapshot.isCompleted_iff {s : Snapshot} : s.isCompleted ↔ s.state = .completed := by
  simp [Snapshot.isCompleted]

theorem Snapshot.pendingOperations?_eq (s : Snapshot) :
    s.pendingOperations? = if s.pending = [] then none else some s.pending := by
  simp only [pendingOperations?, List.isEmpty_iff]

theorem Snapshot.pendingOperations?_eq_none_iff {s : Snapshot} :
    s.pendingOperations? = none ↔ s.pending = [] := by
  rw [pendingOperations?_eq]
  split <;> simp [*]

theorem Snapshot.symbol_eq {s : Snapshot} (h : s.head < s.tape.size) :
    s.symbol = (s.tape.cellAt s.head).symbol := by
  rw [symbol, Tape.read_eq h]
  rfl

theorem Snapshot.read_eq {s : Snapshot} (h : s.head < s.tape.size) :
    s.tape.read s.head = .ok s.symbol := by
  rw [Tape.read_eq h, Snapshot.symbol_eq h]

namespace Program

variable {p : Program} {s : Snapshot} {o : Order}

/-! ### Following an order -/

@[simp] theorem follow_state (s : Snapshot) (o : Order) : (follow s o).state = .running := rfl

@[simp] theorem follow_current (s : Snapshot) (o : Order) :
    (follow s o).current = o.configuration := rfl

@[simp] theorem follow_pending (s : Snapshot) (o : Order) :
    (follow s o).pending = o.operations.tail := rfl

@[simp] theorem follow_next (s : Snapshot) (o : Order) : (follow s o).next = o.next := rfl

@[simp] theorem follow_last (s : Snapshot) (o : Order) :
    (follow s o).last = o.operations.head? := rfl

@[simp] theorem follow_steps (s : Snapshot) (o : Order) : (follow s o).steps = s.steps + 1 := rfl

theorem follow_tape_of_nil (h : o.operations = []) :
    (follow s o).tape = s.tape ∧ (follow s o).head = s.head := by
  simp [follow, h]

theorem follow_tape_of_cons {op : Operation} {rest : List Operation} {t : Tape} {j : Nat}
    (h : o.operations = op :: rest) (hop : op.execute s.tape s.head = .ok (t, j)) :
    (follow s o).tape = t ∧ (follow s o).head = j := by
  simp [follow, h, hop, Except.toOption]

/-- An order can always be followed: the tape stays a chain with the head on it. -/
theorem follow_chain {l : List Nat} (hl : s.tape.Chain l) (hh : s.head < s.tape.size)
    (o : Order) :
    (∃ l', (follow s o).tape.Chain l') ∧ (follow s o).head < (follow s o).tape.size := by
  cases ho : o.operations with
  | nil =>
    obtain ⟨ht, hj⟩ := follow_tape_of_nil (s := s) ho
    rw [ht, hj]
    exact ⟨⟨l, hl⟩, hh⟩
  | cons op rest =>
    obtain ⟨t', j, l', hop, he⟩ := hl.execute hh op
    obtain ⟨ht, hj⟩ := follow_tape_of_cons ho hop
    rw [ht, hj]
    exact ⟨⟨l', he.chain⟩, he.head_lt⟩

/-- Following an order does its first operation, if there is one, and no other. -/
theorem executeAll_follow {l : List Nat} (hl : s.tape.Chain l) (hh : s.head < s.tape.size)
    (o : Order) :
    Operation.executeAll o.operations.head?.toList s.tape s.head =
      .ok ((follow s o).tape, (follow s o).head) := by
  cases ho : o.operations with
  | nil =>
    obtain ⟨ht, hj⟩ := follow_tape_of_nil (s := s) ho
    rw [ht, hj]
    rfl
  | cons op rest =>
    obtain ⟨t', j, l', hop, -⟩ := hl.execute hh op
    obtain ⟨ht, hj⟩ := follow_tape_of_cons ho hop
    rw [ht, hj]
    show Operation.executeAll [op] s.tape s.head = _
    rw [Operation.executeAll, hop]
    rfl

/-- The first operation of an order is all that changes the tape. -/
theorem follow_tape_congr {s' : Snapshot} {o' : Order} (htape : s'.tape = s.tape)
    (hhead : s'.head = s.head) (hfirst : o'.operations.head? = o.operations.head?) :
    (follow s' o').tape = (follow s o).tape ∧ (follow s' o').head = (follow s o).head := by
  cases ho : o.operations with
  | nil =>
    have ho' : o'.operations = [] := by simpa [ho] using hfirst
    simp [follow, ho, ho', htape, hhead]
  | cons op rest =>
    obtain ⟨rest', ho'⟩ : ∃ rest', o'.operations = op :: rest' := by
      simpa [ho, List.head?_eq_some_iff] using hfirst
    simp [follow, ho, ho', htape, hhead]

/-! ### The kinds of step -/

/-- The steps there are, each with what holds before it. -/
inductive Step (p : Program) (s : Snapshot) : Snapshot → Prop
  /-- The run is over. -/
  | stay (hs : s.state = .completed) : Step p s s
  /-- There is no rule for the scanned symbol. -/
  | stop (hs : s.state ≠ .completed) (hp : s.pending = [])
      (hr : p.findRule? s.next s.symbol = none) : Step p s { s with state := .completed }
  /-- A rule applies; its first operation is carried out. -/
  | start (hs : s.state ≠ .completed) (hp : s.pending = []) (r : Rule Nat)
      (hr : p.findRule? s.next s.symbol = some r) :
      Step p s (follow s { configuration := s.next, operations := r.operations, next := r.next })
  /-- Operations are owed; the next one is carried out. -/
  | resume (hs : s.state ≠ .completed) (op : Operation) (rest : List Operation)
      (hp : s.pending = op :: rest) :
      Step p s (follow s { configuration := s.current, operations := op :: rest, next := s.next })

theorem order?_of_pending_eq_nil (hp : s.pending = []) :
    p.order? s = (p.findRule? s.next s.symbol).map fun r =>
      { configuration := s.next, operations := r.operations, next := r.next } := by
  rw [order?, if_pos (List.isEmpty_iff.mpr hp)]

theorem order?_of_pending_ne_nil (hp : s.pending ≠ []) :
    p.order? s =
      some { configuration := s.current, operations := s.pending, next := s.next } := by
  rw [order?, if_neg fun h => hp (List.isEmpty_iff.mp h)]

theorem step_of_order? (hs : s.state ≠ .completed) (ho : p.order? s = some o) :
    p.step s = follow s o := by
  rw [step, if_neg fun h => hs (Snapshot.isCompleted_iff.mp h), ho]

theorem step_of_order?_eq_none (hs : s.state ≠ .completed) (ho : p.order? s = none) :
    p.step s = { s with state := .completed } := by
  rw [step, if_neg fun h => hs (Snapshot.isCompleted_iff.mp h), ho]

/-- A step of a kind that applies is the step that is taken. -/
theorem Step.eq_step {s' : Snapshot} (h : Step p s s') : s' = p.step s := by
  cases h with
  | stay hs => rw [step, if_pos (Snapshot.isCompleted_iff.mpr hs)]
  | stop hs hp hr =>
    have ho : p.order? s = none := by rw [order?_of_pending_eq_nil hp, hr, Option.map_none]
    exact (step_of_order?_eq_none hs ho).symm
  | start hs hp r hr =>
    have ho : p.order? s = some ⟨s.next, r.operations, r.next⟩ := by
      rw [order?_of_pending_eq_nil hp, hr, Option.map_some]
    exact (step_of_order? hs ho).symm
  | resume hs op rest hp =>
    have ho : p.order? s = some ⟨s.current, op :: rest, s.next⟩ := by
      rw [order?_of_pending_ne_nil (by simp [hp]), hp]
    exact (step_of_order? hs ho).symm

/-- Every step is of one of the four kinds. -/
theorem step_cases (p : Program) (s : Snapshot) : Step p s (p.step s) := by
  have taken : ∀ {s'}, Step p s s' → Step p s (p.step s) := fun h => h.eq_step ▸ h
  by_cases hs : s.state = .completed
  · exact taken (.stay hs)
  · cases hp : s.pending with
    | nil =>
      cases hr : p.findRule? s.next s.symbol with
      | none => exact taken (.stop hs hp hr)
      | some r => exact taken (.start hs hp r hr)
    | cons op rest => exact taken (.resume hs op rest hp)

theorem step_of_completed (hs : s.state = .completed) : p.step s = s :=
  (Step.stay hs).eq_step.symm

/-- Snapshots of two programs stay related by a step if their orders correspond, and following
these, as well as stopping, keeps them related. -/
theorem step_related {q : Program} {s' : Snapshot} {S : Snapshot → Snapshot → Prop}
    {T : Order → Order → Prop} (hrelated : S s s') (hstate : s'.state = s.state)
    (horder : Option.Rel T (p.order? s) (q.order? s'))
    (hfollow : ∀ o o', T o o' → S (follow s o) (follow s' o'))
    (hstop : S { s with state := .completed } { s' with state := .completed }) :
    S (p.step s) (q.step s') := by
  by_cases hs : s.state = .completed
  · rw [step_of_completed hs, step_of_completed (hstate.trans hs)]
    exact hrelated
  · have hs' : s'.state ≠ .completed := hstate ▸ hs
    generalize ho : p.order? s = order, ho' : q.order? s' = order' at horder
    cases horder with
    | none =>
      rw [step_of_order?_eq_none hs ho, step_of_order?_eq_none hs' ho']
      exact hstop
    | some hcorrespond =>
      rw [step_of_order? hs ho, step_of_order? hs' ho']
      exact hfollow _ _ hcorrespond

theorem state_step_of_not_completed (h : (p.step s).state ≠ .completed) :
    (p.step s).state = .running := by
  have hs := step_cases p s
  generalize p.step s = s' at hs h
  cases hs with
  | stay hs' => exact absurd hs' h
  | stop _ _ _ => exact absurd rfl h
  | start _ _ r _ => rfl
  | resume _ op rest _ => rfl

/-- The step that ends a run is not counted. -/
theorem steps_step_of_completed (hs : (p.step s).state = .completed) :
    (p.step s).steps = s.steps := by
  have h := step_cases p s
  generalize p.step s = s' at h hs
  cases h with
  | stay _ => rfl
  | stop _ _ _ => rfl
  | start _ _ r _ => exact nomatch hs
  | resume _ op rest _ => exact nomatch hs

theorem steps_step_of_not_completed (hs : (p.step s).state ≠ .completed) :
    (p.step s).steps = s.steps + 1 := by
  have h := step_cases p s
  generalize p.step s = s' at h hs
  cases h with
  | stay hs' => exact absurd hs' hs
  | stop _ _ _ => exact absurd rfl hs
  | start _ _ r _ => rfl
  | resume _ op rest _ => rfl

end Program

end AutomaticMachine
