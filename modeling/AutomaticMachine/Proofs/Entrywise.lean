/-
Lists that correspond entry by entry.

What is done with a list entry by entry, and may fail at each, succeeds just
if it does so at every entry; and lists whose entries are related have related
entries wherever they are searched.

* `mapM_eq_some_iff`, `mapM_eq_ok` — reading and translating the entries of a list;
* `exists_of_forall₂`, `rel_find?` — entries of related lists.
-/
import Mathlib.Data.List.Forall2

namespace AutomaticMachine

variable {α β γ δ : Type}

/-! ### Entries that are worked on one after the other -/

/-- Where no entry of a list fails, the list does not. -/
theorem mapM_eq_ok {ε : Type} {f : α → Except ε β} {g : α → β} {l : List α}
    (h : ∀ x ∈ l, f x = .ok (g x)) : l.mapM f = .ok (l.map g) := by
  induction l with
  | nil => rfl
  | cons x r ih =>
    have hx := h x List.mem_cons_self
    have hr := ih fun y hy => h y (List.mem_cons_of_mem x hy)
    rw [List.mapM_cons, hx, hr]
    rfl

/-- A list can be read just if each of its entries can. -/
theorem mapM_eq_some_iff {f : α → Option β} {l : List α} {m : List β} :
    l.mapM f = some m ↔ List.Forall₂ (fun x y => f x = some y) l m := by
  induction l generalizing m with
  | nil =>
    rw [List.forall₂_nil_left_iff, List.mapM_nil, Option.pure_def, Option.some.injEq]
    exact eq_comm
  | cons x l ih =>
    simp only [List.mapM_cons, Option.bind_eq_bind, Option.bind_eq_some_iff, Option.pure_def,
      Option.some.injEq, List.forall₂_cons_left_iff, ih]
    constructor
    · rintro ⟨y, hy, m, hm, rfl⟩
      exact ⟨y, m, hy, hm, rfl⟩
    · rintro ⟨y, m, hy, hm, rfl⟩
      exact ⟨y, hy, m, hm, rfl⟩

/-- Where every entry is read back as it was written, the list is. -/
theorem mapM_map_eq_some {f : β → Option α} {g : α → β} {l : List α}
    (h : ∀ x ∈ l, f (g x) = some x) : (l.map g).mapM f = some l := by
  rw [mapM_eq_some_iff, List.forall₂_map_left_iff, List.forall₂_same]
  exact h

/-! ### Entries that are related -/

theorem exists_of_forall₂ {R : α → β → Prop} {l : List α} {l' : List β}
    (h : List.Forall₂ R l l') {x : α} (hx : x ∈ l) : ∃ y ∈ l', R x y := by
  induction h with
  | nil => exact absurd hx List.not_mem_nil
  | cons hab _ ih =>
    rcases List.mem_cons.mp hx with rfl | hx
    · exact ⟨_, List.mem_cons_self, hab⟩
    · obtain ⟨y, hy, hxy⟩ := ih hx
      exact ⟨y, List.mem_cons_of_mem _ hy, hxy⟩

/-- Lists whose entries correspond are searched alike. -/
theorem rel_find? {R : α → β → Prop} {g : α → Bool} {g' : β → Bool} {l : List α} {l' : List β}
    (h : List.Forall₂ R l l') (hg : ∀ x y, R x y → g' y = g x) :
    Option.Rel R (l.find? g) (l'.find? g') := by
  induction h with
  | nil => exact .none
  | @cons x y _ _ hxy _ ih =>
    by_cases hx : g x = true
    · rw [List.find?_cons_of_pos hx, List.find?_cons_of_pos ((hg x y hxy).trans hx)]
      exact .some hxy
    · rw [List.find?_cons_of_neg hx, List.find?_cons_of_neg ((hg x y hxy).symm ▸ hx)]
      exact ih

theorem rel_map {R : α → β → Prop} {S : γ → δ → Prop} {f : α → γ} {g : β → δ} {a : Option α}
    {b : Option β} (h : Option.Rel R a b) (hfg : ∀ x y, a = some x → R x y → S (f x) (g y)) :
    Option.Rel S (a.map f) (b.map g) := by
  cases h with
  | none => exact .none
  | some hxy => exact .some (hfg _ _ rfl hxy)

end AutomaticMachine
