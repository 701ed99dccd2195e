/-
The tables that pass the check.

`Table.WellFormed` says in four clauses what a table must be like to start in
a given configuration, and `Table.check_eq_ok_iff` that the check accepts just
these tables.
-/
import AutomaticMachine.Table.Check

namespace AutomaticMachine

theorem firstRepeated?_eq_none_iff {l : List String} : ∀ {seen : List String},
    firstRepeated? seen l = none ↔ l.Nodup ∧ ∀ x ∈ l, x ∉ seen := by
  induction l with
  | nil => simp [firstRepeated?]
  | cons x r ih =>
    intro seen
    rw [firstRepeated?]
    by_cases hx : x ∈ seen
    · rw [if_pos hx]
      constructor
      · intro h
        exact nomatch h
      · rintro ⟨-, h⟩
        exact absurd hx (h x List.mem_cons_self)
    · rw [if_neg hx, ih, List.nodup_cons]
      constructor
      · rintro ⟨hr, hseen⟩
        refine ⟨⟨fun hxr => hseen x hxr List.mem_cons_self, hr⟩, ?_⟩
        intro y hy
        rcases List.mem_cons.mp hy with rfl | hy
        · exact hx
        · exact fun hys => hseen y hy (List.mem_cons_of_mem _ hys)
      · rintro ⟨⟨hxr, hr⟩, hseen⟩
        refine ⟨hr, ?_⟩
        intro y hy hys
        rcases List.mem_cons.mp hys with rfl | hys
        · exact hxr hy
        · exact hseen y (List.mem_cons_of_mem _ hy) hys

theorem TextSet.isEmpty_iff {s : TextSet} : s.isEmpty ↔ ∀ x, x ∉ s := by
  rw [TextSet.isEmpty, List.isEmpty_iff, List.eq_nil_iff_forall_not_mem]
  rfl

namespace Table

/-- What a table must be like that is to start in the configuration named `initial`. -/
structure WellFormed (t : Table) (initial : String) : Prop where
  start : t.Declares initial
  distinct : t.names.Nodup
  closed : ∀ c ∈ t.configurations, ∀ r ∈ c.rules, t.Declares r.next
  /-- No rule is about an empty set of symbols. -/
  nonempty : ∀ c ∈ t.configurations, ∀ r ∈ c.rules, r.matcher.isEmptySet = false

variable {t : Table} {initial : String}

theorem mem_dangling_iff {x : String} :
    x ∈ t.dangling ↔ ∃ c ∈ t.configurations, ∃ r ∈ c.rules,
      ¬ t.Declares r.next ∧ s!"{c.name} -> {r.next}" = x := by
  rw [dangling, TextSet.mem_ofList, List.mem_flatMap]
  constructor
  · rintro ⟨c, hc, hx⟩
    obtain ⟨r, hr, rfl⟩ := List.mem_map.mp hx
    obtain ⟨hr, hd⟩ := List.mem_filter.mp hr
    exact ⟨c, hc, r, hr, of_decide_eq_true hd, rfl⟩
  · rintro ⟨c, hc, r, hr, hd, rfl⟩
    exact ⟨c, hc, List.mem_map.mpr ⟨r, List.mem_filter.mpr ⟨hr, decide_eq_true hd⟩, rfl⟩⟩

theorem dangling_isEmpty_iff :
    t.dangling.isEmpty ↔ ∀ c ∈ t.configurations, ∀ r ∈ c.rules, t.Declares r.next := by
  rw [TextSet.isEmpty_iff]
  constructor
  · intro h c hc r hr
    exact Decidable.byContradiction fun hd =>
      h _ (mem_dangling_iff.mpr ⟨c, hc, r, hr, hd, rfl⟩)
  · intro h x hx
    obtain ⟨c, hc, r, hr, hd, -⟩ := mem_dangling_iff.mp hx
    exact hd (h c hc r hr)

theorem firstEmptySet?_eq_none_iff :
    t.firstEmptySet? = none ↔
      ∀ c ∈ t.configurations, ∀ r ∈ c.rules, r.matcher.isEmptySet = false := by
  rw [firstEmptySet?, List.find?_eq_none]
  simp

theorem fault?_eq_none_iff : t.fault? initial = none ↔ t.WellFormed initial := by
  rw [fault?]
  by_cases hs : t.Declares initial
  · rw [if_neg (not_not_intro hs)]
    cases hr : firstRepeated? [] t.names with
    | some name =>
      refine ⟨(nomatch ·), fun h => ?_⟩
      rw [firstRepeated?_eq_none_iff.mpr ⟨h.distinct, by simp⟩] at hr
      exact nomatch hr
    | none =>
      have hd : t.names.Nodup := (firstRepeated?_eq_none_iff.mp hr).1
      by_cases hc : t.dangling.isEmpty
      · simp only [hc, not_true_eq_false, if_false, Option.map_eq_none_iff,
          firstEmptySet?_eq_none_iff]
        exact ⟨fun h => ⟨hs, hd, dangling_isEmpty_iff.mp hc, h⟩, WellFormed.nonempty⟩
      · simp only [hc]
        exact ⟨(nomatch ·), fun h => absurd (dangling_isEmpty_iff.mpr h.closed) hc⟩
  · rw [if_pos hs]
    exact ⟨(nomatch ·), fun h => absurd h.start hs⟩

theorem check_eq_ok_iff : t.check initial = .ok () ↔ t.WellFormed initial := by
  rw [← fault?_eq_none_iff, check]
  cases t.fault? initial <;> simp

end Table

end AutomaticMachine
