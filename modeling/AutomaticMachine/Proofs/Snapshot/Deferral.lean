/-
A program that leaves the end of a rule to another configuration.

Operations that are owed are carried out whatever the head scans.  So a program
may carry out the first operations of a rule only and leave the others to a
configuration that has them for every symbol (`Program.Defers`).  It then has to
look up what the first program owes already, but both do the same operation in
every step.

* `Abreast.order?`     — what the two programs do next begins with the same operation;
* `Abreast.step`, `abreast_iterate` — one step, and any number of steps.
-/
import AutomaticMachine.Proofs.Snapshot.Step
import Mathlib.Logic.Function.Iterate

namespace AutomaticMachine

namespace Program

/-- The end of a rule that a program leaves to a configuration of its own. -/
structure Deferral where
  operations : List Operation
  /-- The configuration that follows in the end. -/
  next : Nat
  /-- The configuration that the operations are left to. -/
  carrier : Nat

variable {R : Nat → Nat → Prop} {d : Deferral} {p q : Program} {s s' : Snapshot}
variable {operations operations' : List Operation} {i j : Nat}

/-- What is still to be done in two programs before the next configuration.  It is the same and
leads to related configurations, or the second program is to leave the end of it to the carrier. -/
def Owes (R : Nat → Nat → Prop) (d : Deferral) (operations : List Operation) (i : Nat)
    (operations' : List Operation) (j : Nat) : Prop :=
  operations' = operations ∧ R i j ∨
    operations = operations' ++ d.operations ∧ i = d.next ∧ j = d.carrier

/-- The first operation is the same, and what is owed after it is too, but for what is deferred. -/
structure BeginsAlike (R : Nat → Nat → Prop) (d : Deferral) (operations : List Operation) (i : Nat)
    (operations' : List Operation) (j : Nat) : Prop where
  head?_eq : operations'.head? = operations.head?
  owes : Owes R d operations.tail i operations'.tail j

theorem beginsAlike_of_eq (h : operations' = operations) (hnext : R i j) :
    BeginsAlike R d operations i operations' j where
  head?_eq := congrArg List.head? h
  owes := Or.inl ⟨congrArg List.tail h, hnext⟩

theorem beginsAlike_of_append (h : operations = operations' ++ d.operations)
    (hne : operations' ≠ []) : BeginsAlike R d operations d.next operations' d.carrier where
  head?_eq := by rw [h, List.head?_append_of_ne_nil _ hne]
  owes := Or.inr ⟨by rw [h, List.tail_append_of_ne_nil hne], rfl, rfl⟩

/-- The second program does what the first one does, but leaves the end of some rules to the carrier.
That has the operations, of which there are some, for every symbol. -/
structure Defers (R : Nat → Nat → Prop) (d : Deferral) (p q : Program) : Prop where
  initial : R p.initial q.initial
  findRule? : ∀ i j, R i j → ∀ x,
    Option.Rel (fun r r' => BeginsAlike R d r.operations r.next r'.operations r'.next)
      (p.findRule? i x) (q.findRule? j x)
  nonempty : d.operations ≠ []
  carrier : ∀ x, ∃ r, q.findRule? d.carrier x = some r ∧ r.operations = d.operations ∧
    R d.next r.next

/-- Snapshots that differ at most in the numbers of configurations and in what has been deferred. -/
structure Abreast (R : Nat → Nat → Prop) (d : Deferral) (s s' : Snapshot) : Prop where
  state_eq : s'.state = s.state
  tape_eq : s'.tape = s.tape
  head_eq : s'.head = s.head
  owes : Owes R d s.pending s.next s'.pending s'.next
  last_eq : s'.last = s.last
  steps_eq : s'.steps = s.steps

theorem abreast_start (hd : Defers R d p q) : Abreast R d p.start q.start where
  state_eq := rfl
  tape_eq := rfl
  head_eq := rfl
  owes := Or.inl ⟨rfl, hd.initial⟩
  last_eq := rfl
  steps_eq := rfl

/-- Either both programs have nothing to do or both go on with the same operation. -/
theorem Abreast.order? (hd : Defers R d p q) (h : Abreast R d s s') :
    Option.Rel (fun o o' => BeginsAlike R d o.operations o.next o'.operations o'.next)
      (p.order? s) (q.order? s') := by
  have hsymbol : s'.symbol = s.symbol := by
    rw [Snapshot.symbol, Snapshot.symbol, h.tape_eq, h.head_eq]
  rcases h.owes with ⟨hpend, hnext⟩ | ⟨hpend, hnext, hcarrier⟩
  · -- Nothing has been deferred, so both look up a rule or both go on with the one they have.
    by_cases hs : s.pending = []
    · rw [order?_of_pending_eq_nil hs, order?_of_pending_eq_nil (hpend.trans hs), hsymbol]
      exact rel_map (hd.findRule? s.next s'.next hnext s.symbol) fun _ _ _ halike => halike
    · rw [order?_of_pending_ne_nil hs, order?_of_pending_ne_nil (hpend ▸ hs)]
      exact .some (beginsAlike_of_eq hpend hnext)
  · have hs : s.pending ≠ [] := by simp [hpend, hd.nonempty]
    rw [order?_of_pending_ne_nil hs]
    by_cases hs' : s'.pending = []
    · -- Just the deferred operations are left.  The second program looks for a rule, and whatever it
      -- scans it finds them.
      obtain ⟨r, hr, hoperations, hr_next⟩ := hd.carrier s'.symbol
      have hall : r.operations = s.pending := by rw [hoperations, hpend, hs', List.nil_append]
      rw [order?_of_pending_eq_nil hs', hcarrier, hr]
      exact .some (beginsAlike_of_eq hall (hnext ▸ hr_next))
    · -- There are others before them, and these are owed in both.
      rw [order?_of_pending_ne_nil hs', hnext, hcarrier]
      exact .some (beginsAlike_of_append hpend hs')

theorem Abreast.follow (h : Abreast R d s s') {o o' : Order}
    (halike : BeginsAlike R d o.operations o.next o'.operations o'.next) :
    Abreast R d (follow s o) (follow s' o') where
  state_eq := rfl
  tape_eq := (follow_tape_congr h.tape_eq h.head_eq halike.head?_eq).1
  head_eq := (follow_tape_congr h.tape_eq h.head_eq halike.head?_eq).2
  owes := halike.owes
  last_eq := halike.head?_eq
  steps_eq := congrArg (· + 1) h.steps_eq

theorem Abreast.step (hd : Defers R d p q) (h : Abreast R d s s') :
    Abreast R d (p.step s) (q.step s') :=
  step_related h h.state_eq (h.order? hd) (fun _ _ halike => h.follow halike)
    { h with state_eq := rfl }

/-- **Runs stay abreast when the end of a rule is deferred.** -/
theorem abreast_iterate (hd : Defers R d p q) (n : Nat) :
    Abreast R d (p.step^[n] p.start) (q.step^[n] q.start) := by
  induction n with
  | zero => exact abreast_start hd
  | succ n ih =>
    rw [Function.iterate_succ_apply', Function.iterate_succ_apply']
    exact ih.step hd

end Program

end AutomaticMachine
