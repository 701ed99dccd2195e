/-
Finite sets of texts, kept as strictly increasing lists.

Texts are ordered by code point, character by character.  A set has one
representation only, so equality of sets is equality of the lists, and the
elements come out sorted and without repetition:

* `TextSet.mem_ofList` — `ofList` forgets order and repetition only;
* `TextSet.ext_mem`    — two sets with the same members are equal.
-/

namespace AutomaticMachine

structure TextSet where
  /-- The members in increasing order. -/
  elements : List String
  /-- Each member stands before every larger one, and none occurs twice. -/
  increasing : elements.Pairwise (· < ·)
deriving DecidableEq

namespace TextSet

instance : Membership String TextSet where
  mem s x := x ∈ s.elements

theorem mem_iff {s : TextSet} {x : String} : x ∈ s ↔ x ∈ s.elements := Iff.rfl

instance (x : String) (s : TextSet) : Decidable (x ∈ s) :=
  inferInstanceAs (Decidable (x ∈ s.elements))

def empty : TextSet := ⟨[], .nil⟩

def isEmpty (s : TextSet) : Bool := s.elements.isEmpty

/-! ### Insertion -/

/-- Insert into an increasing list at the place the order gives; a text that is there already
is not inserted again. -/
def insertSorted (x : String) : List String → List String
  | [] => [x]
  | y :: r => if x < y then x :: y :: r else if x = y then y :: r else y :: insertSorted x r

theorem mem_insertSorted {x z : String} {l : List String} :
    z ∈ insertSorted x l ↔ z = x ∨ z ∈ l := by
  induction l with
  | nil => simp [insertSorted]
  | cons y r ih => grind [insertSorted]

theorem insertSorted_increasing (x : String) {l : List String} (h : l.Pairwise (· < ·)) :
    (insertSorted x l).Pairwise (· < ·) := by
  induction l with
  | nil => simp [insertSorted]
  | cons y r ih =>
    rw [List.pairwise_cons] at h
    unfold insertSorted
    split
    · rename_i hxy
      refine List.pairwise_cons.2 ⟨fun z hz => ?_, List.pairwise_cons.2 h⟩
      rcases List.mem_cons.1 hz with rfl | hz
      · exact hxy
      · exact String.lt_trans hxy (h.1 z hz)
    · split
      · exact List.pairwise_cons.2 h
      · rename_i hxy hne
        refine List.pairwise_cons.2 ⟨fun z hz => ?_, ih h.2⟩
        rcases mem_insertSorted.1 hz with rfl | hz
        · exact Decidable.byContradiction fun hyz =>
            hne (String.le_antisymm (String.not_lt.1 hyz) (String.not_lt.1 hxy))
        · exact h.1 z hz

def insert (x : String) (s : TextSet) : TextSet :=
  ⟨insertSorted x s.elements, insertSorted_increasing x s.increasing⟩

def ofList (l : List String) : TextSet := l.foldr insert empty

theorem mem_insert {x z : String} {s : TextSet} : z ∈ s.insert x ↔ z = x ∨ z ∈ s :=
  mem_insertSorted

theorem mem_ofList {z : String} {l : List String} : z ∈ ofList l ↔ z ∈ l := by
  induction l with
  | nil => simp [ofList, empty, mem_iff]
  | cons x r ih => rw [ofList, List.foldr_cons, mem_insert, List.mem_cons]; exact or_congr_right ih

/-- A set is determined by its members. -/
theorem ext_mem {s t : TextSet} (h : ∀ x, x ∈ s ↔ x ∈ t) : s = t := by
  obtain ⟨l, hl⟩ := s
  obtain ⟨m, hm⟩ := t
  have key : ∀ (l m : List String), l.Pairwise (· < ·) → m.Pairwise (· < ·) →
      (∀ x, x ∈ l ↔ x ∈ m) → l = m := by
    intro l
    induction l with
    | nil => intro m _ _ h; cases m with
      | nil => rfl
      | cons y r => exact absurd ((h y).2 List.mem_cons_self) (by simp)
    | cons x l ih =>
      intro m hl hm h
      cases m with
      | nil => exact absurd ((h x).1 List.mem_cons_self) (by simp)
      | cons y m =>
        rw [List.pairwise_cons] at hl hm
        have hxy : x = y := by
          rcases List.mem_cons.1 ((h x).1 List.mem_cons_self) with rfl | hx
          · rfl
          · rcases List.mem_cons.1 ((h y).2 List.mem_cons_self) with rfl | hy
            · rfl
            · exact absurd (hl.1 y hy) (String.lt_asymm (hm.1 x hx))
        subst hxy
        rw [ih m hl.2 hm.2 fun z => ?_]
        have hz := h z
        simp only [List.mem_cons] at hz
        constructor
        · intro hzl
          rcases hz.1 (Or.inr hzl) with rfl | hzm
          · exact absurd (hl.1 z hzl) (String.lt_irrefl z)
          · exact hzm
        · intro hzm
          rcases hz.2 (Or.inr hzm) with rfl | hzl
          · exact absurd (hm.1 z hzm) (String.lt_irrefl z)
          · exact hzl
  exact (TextSet.mk.injEq ..).mpr (key l m hl hm h)

end TextSet

end AutomaticMachine
