/-
A rule can be split in two.

The rule keeps its first operations, and the others are moved to a new
configuration that carries them out on every symbol.  The run does not change:
operations that are owed are carried out on every symbol too, and going to the
new configuration takes no step of its own.

* `Table.forall₂_rulesOf_modifyRule` — the rules of a table after a change of one of them;
* `Table.rulesOf_declare_of_ne`      — the rules after one more declaration;
* `Table.Splittable.wellFormed`      — the split table passes the check;
* `Table.Splittable.defers`          — its program defers the end of the rule;
* `Table.run_split`                  — the main statement, on whole runs.
-/
import AutomaticMachine.Proofs.Lint.Reachable
import AutomaticMachine.Proofs.Snapshot.Deferral

namespace AutomaticMachine

/-! ### Lists with one entry changed -/

section Modify

variable {α : Type} {l : List α} {f : α → α}

theorem forall₂_modify {R : α → α → Prop} (hrefl : ∀ x, R x x) {i : Nat} {x : α}
    (hx : l[i]? = some x) (hf : R x (f x)) : List.Forall₂ R l (l.modify i f) := by
  obtain ⟨hi, hget⟩ := List.getElem?_eq_some_iff.mp hx
  obtain ⟨before, y, after, rfl, rfl, hmodify⟩ := List.exists_of_modify f hi
  obtain rfl : y = x := by simpa using hget
  have hsame : ∀ l, List.Forall₂ R l l := fun l => List.forall₂_same.mpr fun x _ => hrefl x
  rw [hmodify]
  exact List.rel_append (hsame before) (.cons hf (hsame after))

theorem forall_mem_modify {P : α → Prop} (h : ∀ x ∈ l, P x) (hf : ∀ x, P x → P (f x)) (i : Nat) :
    ∀ x ∈ l.modify i f, P x := by
  intro y hy
  obtain ⟨n, hn⟩ := List.mem_iff_getElem?.mp hy
  rw [List.getElem?_modify] at hn
  obtain ⟨x, hx, rfl⟩ := Option.map_eq_some_iff.mp hn
  have hP : P x := h x (List.mem_of_getElem? hx)
  split
  · exact hf x hP
  · exact hP

end Modify

/-! ### The two parts of a rule -/

namespace Rule

variable {r : Rule String} {k : Nat} {q : String}

/-- The first `k` operations of a rule, on the way to a configuration for the others. -/
def cut (k : Nat) (q : String) (r : Rule String) : Rule String where
  matcher := r.matcher
  operations := r.operations.take k
  next := q

/-- The configuration for the operations that `Rule.cut` leaves out. -/
def remainder (k : Nat) (q : String) (r : Rule String) : Configuration String where
  name := q
  rules := [
    { matcher := .nonBlank, operations := r.operations.drop k, next := r.next },
    { matcher := .none, operations := r.operations.drop k, next := r.next }]

theorem of_mem_remainder {e : Rule String} (he : e ∈ (r.remainder k q).rules) :
    e.operations = r.operations.drop k ∧ e.next = r.next ∧ e.matcher.isEmptySet = false := by
  simp only [remainder, List.mem_cons, List.not_mem_nil, or_false] at he
  rcases he with rfl | rfl <;> exact ⟨rfl, rfl, rfl⟩

/-- One of the two rules applies, whatever is scanned. -/
theorem exists_find?_remainder (r : Rule String) (k : Nat) (q : String) (x : Symbol) :
    ∃ e, ((r.remainder k q).rules.find? fun e => decide (e.matcher.Accepts x)) = some e := by
  by_cases hx : x = Symbol.blank
  · refine ⟨⟨.none, r.operations.drop k, r.next⟩, ?_⟩
    simp [remainder, Matcher.none, Matcher.Accepts, hx]
  · refine ⟨⟨.nonBlank, r.operations.drop k, r.next⟩, ?_⟩
    simp [remainder, Matcher.Accepts, hx]

end Rule

/-- Configurations of the same name whose rules correspond. -/
def Configuration.Corresponds (R : Rule String → Rule String → Prop)
    (c d : Configuration String) : Prop :=
  d.name = c.name ∧ List.Forall₂ R c.rules d.rules

/-! ### Changing a table -/

namespace Table

/-- Rule `i` of configuration `j`. -/
def ruleAt? (t : Table) (j i : Nat) : Option (Rule String) :=
  t.configurations[j]?.bind (·.rules[i]?)

/-- The table with rule `i` of configuration `j` changed. -/
def modifyRule (t : Table) (j i : Nat) (f : Rule String → Rule String) : Table where
  name := t.name
  configurations := t.configurations.modify j fun c => { c with rules := c.rules.modify i f }

/-- The table with one more configuration, before the one in the given place. -/
def declare (t : Table) (place : Nat) (c : Configuration String) : Table where
  name := t.name
  configurations := t.configurations.take place ++ c :: t.configurations.drop place

variable {t : Table} {j i place : Nat} {f : Rule String → Rule String} {c : Configuration String}
variable {initial name : String}

theorem mem_of_ruleAt? {r : Rule String} (hr : t.ruleAt? j i = some r) :
    ∃ c ∈ t.configurations, r ∈ c.rules := by
  obtain ⟨c, hc, hr⟩ := Option.bind_eq_some_iff.mp hr
  exact ⟨c, List.mem_of_getElem? hc, List.mem_of_getElem? hr⟩

theorem names_modifyRule : (t.modifyRule j i f).names = t.names := by
  refine List.ext_getElem? ?_
  intro n
  rw [names, names, List.getElem?_map, List.getElem?_map, modifyRule, List.getElem?_modify]
  cases t.configurations[n]? with
  | none => rfl
  | some c =>
    show some (ite _ _ _ : Configuration String).name = _
    split <;> rfl

theorem rules_modifyRule {P : Rule String → Prop}
    (h : ∀ c ∈ t.configurations, ∀ r ∈ c.rules, P r) (hf : ∀ r, P r → P (f r)) :
    ∀ c ∈ (t.modifyRule j i f).configurations, ∀ r ∈ c.rules, P r :=
  forall_mem_modify h (fun _ hc => forall_mem_modify hc hf i) j

/-- Only the changed rule differs. -/
theorem forall₂_rulesOf_modifyRule {R : Rule String → Rule String → Prop} {r : Rule String}
    (hrefl : ∀ r, R r r) (hr : t.ruleAt? j i = some r) (hf : R r (f r)) :
    List.Forall₂ R (t.rulesOf name) ((t.modifyRule j i f).rulesOf name) := by
  obtain ⟨c, hc, hr⟩ := Option.bind_eq_some_iff.mp hr
  have hrefl' : ∀ l, List.Forall₂ R l l := fun l => List.forall₂_same.mpr fun r _ => hrefl r
  have hconfigurations : List.Forall₂ (Configuration.Corresponds R) t.configurations
      (t.modifyRule j i f).configurations :=
    forall₂_modify (fun c => ⟨rfl, hrefl' c.rules⟩) hc ⟨rfl, forall₂_modify hrefl hr hf⟩
  have hfound : Option.Rel (Configuration.Corresponds R)
      (t.configurations.find? fun c => c.name == name)
      ((t.modifyRule j i f).configurations.find? fun c => c.name == name) := by
    -- No name has changed, so both searches stop in the same place.
    refine rel_find? hconfigurations ?_
    rintro c d ⟨hname, -⟩
    rw [hname]
  rw [rulesOf, rulesOf]
  generalize (t.configurations.find? fun c => c.name == name) = found,
    ((t.modifyRule j i f).configurations.find? fun c => c.name == name) = found' at hfound
  cases hfound with
  | none => exact .nil
  | some h => exact h.2

theorem declare_perm : (t.declare place c).configurations.Perm (c :: t.configurations) := by
  have hperm : (t.declare place c).configurations.Perm
      (c :: (t.configurations.take place ++ t.configurations.drop place)) :=
    List.perm_middle
  rwa [List.take_append_drop] at hperm

theorem names_declare_perm : (t.declare place c).names.Perm (c.name :: t.names) :=
  declare_perm.map _

theorem declares_declare_iff :
    (t.declare place c).Declares name ↔ name = c.name ∨ t.Declares name := by
  rw [Declares, names_declare_perm.mem_iff, List.mem_cons, Declares, or_left_comm]

/-- The other configurations keep their rules. -/
theorem rulesOf_declare_of_ne (hne : name ≠ c.name) :
    (t.declare place c).rulesOf name = t.rulesOf name := by
  have hfound : ((t.declare place c).configurations.find? fun d => d.name == name) =
      t.configurations.find? fun d => d.name == name := by
    rw [declare, List.find?_append, List.find?_cons_of_neg (by simpa using hne.symm),
      ← List.find?_append, List.take_append_drop]
  rw [rulesOf, rulesOf, hfound]

/-! ### Splitting a rule -/

/-- Rule `i` of configuration `j` is `r`.  It has operations before and after place `k`, and the
name `q` is free. -/
structure Splittable (t : Table) (j i : Nat) (r : Rule String) (k : Nat) (q : String) : Prop where
  rule : t.ruleAt? j i = some r
  pos : 0 < k
  lt : k < r.operations.length
  fresh : ¬ t.Declares q

/-- The table with rule `i` of configuration `j`, which is `r`, split in two: after `k` operations
it goes to the configuration `q`, which is declared in some place. -/
def split (t : Table) (j i : Nat) (r : Rule String) (k : Nat) (q : String) (place : Nat) : Table :=
  (t.modifyRule j i (Rule.cut k q)).declare place (r.remainder k q)

variable {r : Rule String} {k : Nat} {q : String} {p : Program}

theorem declares_split_iff :
    (t.split j i r k q place).Declares name ↔ name = q ∨ t.Declares name := by
  rw [split, declares_declare_iff, declares_congr names_modifyRule]
  rfl

theorem WellFormed.declares_next_of_ruleAt? (hw : t.WellFormed initial)
    (hr : t.ruleAt? j i = some r) : t.Declares r.next := by
  obtain ⟨c, hc, hr⟩ := mem_of_ruleAt? hr
  exact hw.closed c hc r hr

namespace Splittable

theorem cut_length (h : t.Splittable j i r k q) : (r.cut k q).operations.length = k :=
  List.length_take_of_le (Nat.le_of_lt h.lt)

/-- A configuration has its rules still, but for the one that is cut. -/
theorem forall₂_rulesOf (h : t.Splittable j i r k q) (hd : t.Declares name) :
    List.Forall₂ (fun e e' => e' = e ∨ e = r ∧ e' = r.cut k q) (t.rulesOf name)
      ((t.split j i r k q place).rulesOf name) := by
  have hne : name ≠ (r.remainder k q).name := by
    rintro rfl
    exact h.fresh hd
  rw [split, rulesOf_declare_of_ne hne]
  exact forall₂_rulesOf_modifyRule (fun _ => Or.inl rfl) h.rule (Or.inr ⟨rfl, rfl⟩)

theorem wellFormed (h : t.Splittable j i r k q) (hw : t.WellFormed initial) :
    (t.split j i r k q place).WellFormed initial where
  start := declares_split_iff.mpr (Or.inr hw.start)
  distinct := by
    rw [split, names_declare_perm.nodup_iff, names_modifyRule, List.nodup_cons]
    exact ⟨fun hmem => h.fresh (Or.inr hmem), hw.distinct⟩
  closed c hc e he := by
    rcases List.mem_cons.mp (declare_perm.mem_iff.mp hc) with rfl | hc
    · -- The remainder leads where the whole rule did.
      rw [(Rule.of_mem_remainder he).2.1]
      exact declares_split_iff.mpr (Or.inr (hw.declares_next_of_ruleAt? h.rule))
    · refine rules_modifyRule (P := fun e => (t.split j i r k q place).Declares e.next) ?_ ?_
        c hc e he
      · exact fun c hc e he => declares_split_iff.mpr (Or.inr (hw.closed c hc e he))
      · exact fun _ _ => declares_split_iff.mpr (Or.inl rfl)
  nonempty c hc e he := by
    rcases List.mem_cons.mp (declare_perm.mem_iff.mp hc) with rfl | hc
    · exact (Rule.of_mem_remainder he).2.2
    · have hcut : ∀ e : Rule String, e.matcher.isEmptySet = false →
          (e.cut k q).matcher.isEmptySet = false := fun _ he => he
      exact rules_modifyRule hw.nonempty hcut c hc e he

/-- Numbers in the programs of two tables that stand for the same name. -/
def SameConfiguration (t t' : Table) (i j : Nat) : Prop :=
  ∃ name, t.Declares name ∧ i = t.number name ∧ j = t'.number name

/-- The program of the split table leaves the remainder of the rule to the new configuration. -/
theorem defers (h : t.Splittable j i r k q) (hw : t.WellFormed initial) :
    Program.Defers (SameConfiguration t (t.split j i r k q place))
      { operations := r.operations.drop k
        next := t.number r.next
        carrier := (t.split j i r k q place).number q }
      (t.resolved initial) ((t.split j i r k q place).resolved initial) where
  initial := ⟨initial, hw.start, rfl, rfl⟩
  findRule? := by
    rintro _ _ ⟨name, hd, rfl, rfl⟩ x
    have hd' : (t.split j i r k q place).Declares name := declares_split_iff.mpr (Or.inr hd)
    have hfound : Option.Rel (fun e e' => e' = e ∨ e = r ∧ e' = r.cut k q)
        ((t.rulesOf name).find? fun e => decide (e.matcher.Accepts x))
        (((t.split j i r k q place).rulesOf name).find? fun e => decide (e.matcher.Accepts x)) := by
      refine rel_find? (h.forall₂_rulesOf hd) ?_
      rintro e _ (rfl | ⟨rfl, rfl⟩) <;> rfl
    rw [findRule?_number hd, findRule?_number hd', ruleFor?_eq_find?, ruleFor?_eq_find?]
    refine rel_map hfound ?_
    rintro e e' he (hsame | ⟨rfl, rfl⟩)
    · -- The rule that applies is left as it was.
      have hnext := hw.declares_next_of_mem (List.mem_of_find?_eq_some he)
      rw [hsame]
      exact Program.beginsAlike_of_eq rfl ⟨e.next, hnext, rfl, rfl⟩
    · -- The rule that applies is cut, and with it at least one operation stays.
      have hne : (e.cut k q).operations ≠ [] :=
        List.ne_nil_of_length_pos (h.cut_length.symm ▸ h.pos)
      exact Program.beginsAlike_of_append (List.take_append_drop k e.operations).symm hne
  nonempty := by simpa using h.lt
  carrier := by
    intro x
    have hq : (t.split j i r k q place).Declares q := declares_split_iff.mpr (Or.inl rfl)
    have hrules : (t.split j i r k q place).rulesOf q = (r.remainder k q).rules :=
      rulesOf_eq_of_mem (h.wellFormed hw).distinct (declare_perm.mem_iff.mpr List.mem_cons_self)
    obtain ⟨e, he⟩ := Rule.exists_find?_remainder r k q x
    obtain ⟨hoperations, hnext, -⟩ := Rule.of_mem_remainder (List.mem_of_find?_eq_some he)
    refine ⟨e.map (t.split j i r k q place).number, ?_, hoperations, r.next,
      hw.declares_next_of_ruleAt? h.rule, rfl, congrArg (t.split j i r k q place).number hnext⟩
    rw [findRule?_number hq, ruleFor?_eq_find?, hrules, he]
    rfl

end Splittable

/-- **Splitting a rule does not change a run.**  If a table is accepted, then so is one in which the
last operations of a rule are moved to a new configuration, for all symbols.  The runs of the two
do the same to the tape, step by step. -/
theorem run_split (h : t.Splittable j i r k q) (hb : t.build initial = .ok p) (place : Nat) :
    ∃ p', (t.split j i r k q place).build initial = .ok p' ∧
      ∀ n,
        let s := p.step^[n] p.start
        let s' := p'.step^[n] p'.start
        s'.tape = s.tape ∧ s'.head = s.head ∧ s'.last = s.last ∧ s'.state = s.state ∧
          s'.steps = s.steps := by
  obtain ⟨hw, rfl⟩ := build_eq_ok_iff.mp hb
  refine ⟨_, (h.wellFormed hw).build_eq, ?_⟩
  intro n
  have hdefers : Program.Defers _ _ _ ((t.split j i r k q place).resolved initial) := h.defers hw
  have habreast := Program.abreast_iterate hdefers n
  exact ⟨habreast.tape_eq, habreast.head_eq, habreast.last_eq, habreast.state_eq,
    habreast.steps_eq⟩

/-- A rule that leads back to its own configuration is split where the head is on a digit.  The rest
goes to a configuration called `begin`, which is declared first. -/
theorem run_split_loop :
    let r : Rule String := ⟨.none, [.move .right, .print "1", .move .right, .print "0"], "b"⟩
    let t : Table := {
      name := "loop"
      configurations := [
        ⟨"b", [⟨.symbol "0", [.move .right], "b"⟩, r]⟩] }
    let t' : Table := {
      name := "loop"
      configurations := [
        ⟨beginName, [
          ⟨.nonBlank, [.move .right, .print "0"], "b"⟩,
          ⟨.none, [.move .right, .print "0"], "b"⟩]⟩,
        ⟨"b", [
          ⟨.symbol "0", [.move .right], "b"⟩,
          ⟨.none, [.move .right, .print "1"], beginName⟩]⟩] }
    let p := t.resolved "b"
    t.build "b" = .ok p ∧ t.Splittable 0 1 r 2 beginName ∧ t.split 0 1 r 2 beginName 0 = t' ∧
      ∃ p', t'.build "b" = .ok p' ∧
        ∀ n,
          let s := p.step^[n] p.start
          let s' := p'.step^[n] p'.start
          s'.tape = s.tape ∧ s'.head = s.head ∧ s'.last = s.last ∧ s'.state = s.state ∧
            s'.steps = s.steps := by
  intro r t t' p
  have hb : t.build "b" = .ok p := rfl
  have h : t.Splittable 0 1 r 2 beginName := {
    rule := rfl
    pos := by decide
    lt := by decide
    fresh := by decide }
  exact ⟨hb, h, rfl, run_split h hb 0⟩

end Table

end AutomaticMachine
