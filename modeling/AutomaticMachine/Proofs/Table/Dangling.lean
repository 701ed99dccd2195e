/-
How many references the fault about undeclared successors lists.

The fault lists each reference as one text, `from -> to`, and a text that
occurs twice is listed once.  The text says which names it was made from only
as long as no arrow is part of a name: `a -> b -> c` may lead from `a` to
`b -> c` or from `a -> b` to `c`.

* `Table.reference_eq_iff`              — which references are written alike (`Table.Confusable`);
* `Table.elements_dangling_toFinset`    — the list holds the texts of all dangling references;
* `Table.lists_every_reference`         — the main statement: the list has an entry for each
  dangling reference just if no two of them are written alike;
* `Table.arrow_in_name_hides_reference` — where it has one entry for two.
-/
import AutomaticMachine.Proofs.Table.FirstFault
import Mathlib.Data.Finset.Card

namespace AutomaticMachine

/-- Of two ways to cut a text in two, one cuts a piece off the second part of the other. -/
theorem Text.append_eq_append {a b c d : String} (h : a ++ b = c ++ d) :
    (∃ w, c = a ++ w ∧ b = w ++ d) ∨ ∃ w, a = c ++ w ∧ d = w ++ b := by
  have hlist : a.toList ++ b.toList = c.toList ++ d.toList := by
    rw [← String.toList_append, h, String.toList_append]
  simp only [← String.toList_inj, String.toList_append]
  rcases List.append_eq_append_iff.mp hlist with ⟨w, hc, hb⟩ | ⟨w, ha, hd⟩
  · exact Or.inl ⟨String.ofList w, by rw [String.toList_ofList]; exact ⟨hc, hb⟩⟩
  · exact Or.inr ⟨String.ofList w, by rw [String.toList_ofList]; exact ⟨ha, hd⟩⟩

theorem TextSet.nodup_elements (s : TextSet) : s.elements.Nodup := by
  refine s.increasing.imp ?_
  rintro x y hlt rfl
  exact String.lt_irrefl x hlt

namespace Table

/-! ### References that are written alike -/

/-- How a reference from a configuration to a successor is written. -/
def reference (p : String × String) : String := p.1 ++ " -> " ++ p.2

/-- Two references of which the first has an arrow in the name of the successor and the second has
it in the name of the configuration. -/
inductive Confusable : String × String → String × String → Prop
  | inner (a m b : String) : Confusable (a, m ++ " -> " ++ b) (a ++ " -> " ++ m, b)
  /-- The two arrows have a space in common. -/
  | shared (a b : String) : Confusable (a, "-> " ++ b) (a ++ " ->", b)

variable {p q : String × String}

theorem Confusable.reference_eq (h : Confusable p q) : reference p = reference q := by
  cases h with
  | inner a m b => simp only [reference, String.append_assoc]
  | shared a b =>
    have harrows : (" -> " : String) ++ "-> " = " ->" ++ " -> " := rfl
    calc a ++ " -> " ++ ("-> " ++ b)
        = a ++ (" -> " ++ "-> ") ++ b := by simp only [String.append_assoc]
      _ = a ++ " ->" ++ " -> " ++ b := by rw [harrows]; simp only [String.append_assoc]

theorem Confusable.ne (h : Confusable p q) : p ≠ q := by
  cases h with
  | inner a m b => simp [Prod.ext_iff, ← String.toList_inj]
  | shared a b => simp [Prod.ext_iff, ← String.toList_inj]

/-- What stands before an arrow of a text that begins with one. -/
theorem arrow_append_eq {w x y : String} (h : " -> " ++ x = w ++ (" -> " ++ y)) :
    (w = "" ∧ x = y) ∨ (∃ m, w = " -> " ++ m ∧ x = m ++ " -> " ++ y) ∨
      (w = " ->" ∧ x = "-> " ++ y) := by
  have hlist : ' ' :: '-' :: '>' :: ' ' :: x.toList =
      w.toList ++ ' ' :: '-' :: '>' :: ' ' :: y.toList := by
    have h' := congrArg String.toList h
    rwa [String.toList_append, String.toList_append, String.toList_append] at h'
  simp only [← String.toList_inj, String.toList_append]
  generalize w.toList = l at hlist ⊢
  -- The second arrow begins with the first, somewhere in it, or after it.
  rcases l with _ | ⟨c₁, _ | ⟨c₂, _ | ⟨c₃, _ | ⟨c₄, m⟩⟩⟩⟩
  · exact Or.inl ⟨rfl, by simpa using hlist⟩
  · simp at hlist
  · simp at hlist
  · simp only [List.cons_append, List.nil_append, List.cons.injEq] at hlist
    obtain ⟨rfl, rfl, rfl, -, hx⟩ := hlist
    exact Or.inr (Or.inr ⟨rfl, hx⟩)
  · simp only [List.cons_append, List.cons.injEq] at hlist
    obtain ⟨rfl, rfl, rfl, rfl, hx⟩ := hlist
    refine Or.inr (Or.inl ⟨String.ofList m, ?_⟩)
    rw [String.toList_ofList (l := m), List.append_assoc]
    exact ⟨rfl, hx⟩

theorem eq_or_confusable {a b w d : String} (h : " -> " ++ b = w ++ (" -> " ++ d)) :
    (a, b) = (a ++ w, d) ∨ Confusable (a, b) (a ++ w, d) := by
  rcases arrow_append_eq h with ⟨rfl, rfl⟩ | ⟨m, rfl, rfl⟩ | ⟨rfl, rfl⟩
  · exact Or.inl (by rw [String.append_empty])
  · exact Or.inr (by rw [← String.append_assoc]; exact .inner a m d)
  · exact Or.inr (.shared a d)

/-- References are written alike only if an arrow in a name is confused with the one between the
names. -/
theorem reference_eq_iff : reference p = reference q ↔ p = q ∨ Confusable p q ∨ Confusable q p := by
  constructor
  · intro h
    obtain ⟨a, b⟩ := p
    obtain ⟨c, d⟩ := q
    have h' : a ++ (" -> " ++ b) = c ++ (" -> " ++ d) := by
      simpa only [reference, String.append_assoc] using h
    -- The first name of one reference begins with that of the other.
    rcases Text.append_eq_append h' with ⟨w, rfl, hw⟩ | ⟨w, rfl, hw⟩
    · exact (eq_or_confusable hw).imp_right Or.inl
    · exact (eq_or_confusable hw).imp Eq.symm Or.inr
  · rintro (rfl | h | h)
    · rfl
    · exact h.reference_eq
    · exact h.reference_eq.symm

theorem injOn_reference_iff {references : Set (String × String)} :
    Set.InjOn reference references ↔
      ∀ p ∈ references, ∀ q ∈ references, ¬ Confusable p q := by
  constructor
  · intro hinj p hp q hq h
    exact h.ne (hinj hp hq h.reference_eq)
  · intro hnone p hp q hq h
    rcases reference_eq_iff.mp h with h | h | h
    · exact h
    · exact absurd h (hnone p hp q hq)
    · exact absurd h (hnone q hq p hp)

/-- No reference is confused with one from a configuration whose name has no arrow in it. -/
theorem Confusable.exists_arrow (h : Confusable p q) :
    ∃ front rest, q.1 = front ++ " ->" ++ rest := by
  cases h with
  | inner a m b =>
    have harrow : (" -> " : String) = " ->" ++ " " := rfl
    exact ⟨a, " " ++ m, by rw [harrow]; simp only [String.append_assoc]⟩
  | shared a b => exact ⟨a, "", by rw [String.append_empty]⟩

/-! ### The list of the fault -/

/-- The references of a table to successors that it does not declare: configuration and
successor. -/
def danglingReferences (t : Table) : Finset (String × String) :=
  (t.configurations.flatMap fun c =>
    (c.rules.filter fun r => decide (¬ t.Declares r.next)).map fun r => (c.name, r.next)).toFinset

variable {t : Table} {initial : String}

theorem mem_danglingReferences_iff :
    p ∈ t.danglingReferences ↔
      ∃ c ∈ t.configurations, ∃ r ∈ c.rules, ¬ t.Declares r.next ∧ (c.name, r.next) = p := by
  simp only [danglingReferences, List.mem_toFinset, List.mem_flatMap, List.mem_map,
    List.mem_filter, decide_eq_true_eq, and_assoc]

/-- The texts of the list are those of the dangling references. -/
theorem elements_dangling_toFinset :
    t.dangling.elements.toFinset = t.danglingReferences.image reference := by
  ext x
  rw [List.mem_toFinset, ← TextSet.mem_iff, mem_dangling_iff, Finset.mem_image]
  constructor
  · rintro ⟨c, hc, r, hr, hd, rfl⟩
    exact ⟨(c.name, r.next), mem_danglingReferences_iff.mpr ⟨c, hc, r, hr, hd, rfl⟩, rfl⟩
  · rintro ⟨p, hp, rfl⟩
    obtain ⟨c, hc, r, hr, hd, rfl⟩ := mem_danglingReferences_iff.mp hp
    exact ⟨c, hc, r, hr, hd, rfl⟩

theorem length_elements_dangling :
    t.dangling.elements.length = (t.danglingReferences.image reference).card := by
  rw [← elements_dangling_toFinset, List.toFinset_card_of_nodup (TextSet.nodup_elements _)]

/-- **The list of undeclared successors has an entry for each reference just if no two are written
alike.**  It lists the texts of the dangling references, each once, and so never has more entries
than there are references.  It has as many if no arrow in a name is confused with the one between
the names, and certainly if there is no arrow in the name of a configuration. -/
theorem lists_every_reference (hstart : t.Declares initial) (hdistinct : t.names.Nodup)
    (hopen : ¬ t.Closed) :
    ∃ references, t.check initial = .error (.undefined references) ∧ references.Nodup ∧
      (∀ x, x ∈ references ↔ ∃ p ∈ t.danglingReferences, reference p = x) ∧
      references.length ≤ t.danglingReferences.card ∧
      (references.length = t.danglingReferences.card ↔
        ∀ p ∈ t.danglingReferences, ∀ q ∈ t.danglingReferences, ¬ Confusable p q) ∧
      ((∀ c ∈ t.configurations, ∀ front rest, c.name ≠ front ++ " ->" ++ rest) →
        references.length = t.danglingReferences.card) := by
  have hcount : t.dangling.elements.length = t.danglingReferences.card ↔
      ∀ p ∈ t.danglingReferences, ∀ q ∈ t.danglingReferences, ¬ Confusable p q := by
    rw [length_elements_dangling, Finset.card_image_iff, injOn_reference_iff]
    rfl
  refine ⟨t.dangling.elements, ?fault, TextSet.nodup_elements _, ?members, ?bound, hcount, ?plain⟩
  case fault =>
    exact check_eq_error_iff_fault?.mpr (fault?_of_not_closed hstart hdistinct hopen)
  case members =>
    intro x
    rw [← List.mem_toFinset, elements_dangling_toFinset, Finset.mem_image]
  case bound =>
    rw [length_elements_dangling]
    exact Finset.card_image_le
  case plain =>
    intro hplain
    refine hcount.mpr ?_
    intro p _ q hq h
    obtain ⟨front, rest, hname⟩ := h.exists_arrow
    obtain ⟨c, hc, r, -, -, rfl⟩ := mem_danglingReferences_iff.mp hq
    exact hplain c hc front rest hname

/-- Arrows in names do no harm as long as the references are written differently. -/
theorem lists_every_reference_arrows :
    let t : Table := {
      name := "arrows"
      configurations := [
        ⟨"a", [⟨.none, [], "b -> c"⟩, ⟨.symbol "0", [], "b -> c"⟩]⟩,
        ⟨"a -> b", [⟨.none, [], "d"⟩, ⟨.symbol "0", [], "a"⟩]⟩] }
    t.Declares "a" ∧ t.names.Nodup ∧ ¬ t.Closed ∧ t.danglingReferences.card = 2 ∧
      ∃ references, t.check "a" = .error (.undefined references) ∧ references.length = 2 := by
  intro t
  have hstart : t.Declares "a" := by decide
  have hdistinct : t.names.Nodup := by decide
  have hopen : ¬ t.Closed := by
    intro hclosed
    have hd := hclosed _ List.mem_cons_self _ List.mem_cons_self
    exact absurd hd (by decide)
  obtain ⟨references, hcheck, -, -, -, hcount, -⟩ := lists_every_reference hstart hdistinct hopen
  have hcard : t.danglingReferences.card = 2 := rfl
  refine ⟨hstart, hdistinct, hopen, hcard, references, hcheck, ?_⟩
  rw [← hcard]
  refine hcount.mpr (injOn_reference_iff.mp ?_)
  decide

/-- Two references, from `a` to `b -> c` and from `a -> b` to `c`, and one entry: the reader does
not learn of one of them. -/
theorem arrow_in_name_hides_reference :
    let t : Table := {
      name := "hidden"
      configurations := [⟨"a", [⟨.none, [], "b -> c"⟩]⟩, ⟨"a -> b", [⟨.none, [], "c"⟩]⟩] }
    t.Declares "a" ∧ t.names.Nodup ∧ ¬ t.Closed ∧ t.danglingReferences.card = 2 ∧
      t.check "a" = .error (.undefined ["a -> b -> c"]) := by
  intro t
  refine ⟨by decide, by decide, ?_, rfl, rfl⟩
  intro hclosed
  have hd := hclosed _ List.mem_cons_self _ List.mem_cons_self
  exact absurd hd (by decide)

end Table

end AutomaticMachine
