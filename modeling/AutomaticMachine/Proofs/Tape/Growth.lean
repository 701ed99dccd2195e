/-
Tapes are equal if they grew alike and bear the same symbols.

A tape is longer by a square whenever an operation needs one that is not
there, and the square is added at an end.  On which sides this happened, one
time after the other, is the growth of a history (`Tape.growth`).  It
determines in which order the squares stand (`Tape.chainOf`), the order
determines all links (`Chain.ext_symbols`), and so nothing else of a history
is left in the tape but the symbols.

* `Chain.executed`                — one operation: the order stays, or the side of growth is seen;
* `Chain.executeEach`             — so it is along a history;
* `chainOf_injective`             — different growths give different orders;
* `eq_iff_growth_and_symbols`     — the main statement.
-/
import AutomaticMachine.Proofs.Tape.Session
import Mathlib.Data.List.Induction

namespace AutomaticMachine

/-- Which end of a list a new entry has been put at can be seen from the longer list, and so can
the list of before. -/
theorem Direction.extend_inj {α : Type} {d e : Direction} {l m : List α} {x : α} (hl : l ≠ [])
    (hm : m ≠ []) (hxl : x ∉ l) (hxm : x ∉ m) : d.extend l x = e.extend m x ↔ d = e ∧ l = m := by
  -- At the other end there is an entry of before.
  have hends : ∀ {l m : List α}, m ≠ [] → x ∉ m → x :: l ≠ m ++ [x] := by
    intro l m hm hxm h
    obtain ⟨y, m, rfl⟩ := List.exists_cons_of_ne_nil hm
    exact hxm ((List.cons.inj h).1 ▸ List.mem_cons_self)
  cases d with
  | left =>
    cases e with
    | left => simp [extend]
    | right => simp [extend, hends hm hxm]
  | right =>
    cases e with
    | left => simp [extend, (hends hl hxl).symm]
    | right => simp [extend]

namespace Tape

/-! ### Histories -/

/-- The tape after operations, each of them at a square of its own choosing. -/
def executeEach (t : Tape) : List (Operation × Nat) → Except StaleCell Tape
  | [] => return t
  | (op, i) :: rest => do
    let (t', _) ← op.execute t i
    t'.executeEach rest

/-- The side on which a square has been added to a tape, if one has: there the new number stands
in the order of the squares, which is otherwise that of before. -/
def addedSide? (t t' : Tape) : Option Direction :=
  if t'.order origin = (Direction.left.extend · t.size) <$> t.order origin then some .left
  else if t'.order origin = (Direction.right.extend · t.size) <$> t.order origin then some .right
  else none

/-- The sides on which squares are added in the course of a history. -/
def growth (t : Tape) : List (Operation × Nat) → List Direction
  | [] => []
  | (op, i) :: rest =>
    match op.execute t i with
    | .ok (t', _) => (t.addedSide? t').toList ++ t'.growth rest
    | .error _ => []

/-! ### One operation -/

namespace Chain

variable {t t' : Tape} {l l' : List Nat} {i j : Nat} {d : Direction}

theorem addedSide?_extend (h : t.Chain l) (h0 : origin < t.size)
    (h' : t'.Chain (d.extend l t.size)) : t.addedSide? t' = some d := by
  have h0' : origin < t'.size := by
    rw [← h'.mem_iff, Direction.mem_extend, h.mem_iff]
    exact Or.inl h0
  have hiff : ∀ e : Direction,
      t'.order origin = (e.extend · t.size) <$> t.order origin ↔ d = e := by
    intro e
    have hne : l ≠ [] := List.ne_nil_of_mem ((h.mem_iff _).mpr h0)
    have hinj := Direction.extend_inj (d := d) (e := e) hne hne h.size_notMem h.size_notMem
    rw [h.order_eq h0, h'.order_eq h0']
    constructor
    · intro he
      exact (hinj.mp (Except.ok.inj he)).1
    · rintro rfl
      rfl
  rw [addedSide?, if_congr (hiff .left) rfl rfl, if_congr (hiff .right) rfl rfl]
  cases d <;> rfl

theorem addedSide?_self (h : t.Chain l) (h0 : origin < t.size) (h' : t'.Chain l) :
    t.addedSide? t' = none := by
  have h0' : origin < t'.size := (h'.mem_iff _).mp ((h.mem_iff _).mpr h0)
  have hne : ∀ e : Direction, t'.order origin ≠ (e.extend · t.size) <$> t.order origin := by
    intro e he
    rw [h.order_eq h0, h'.order_eq h0'] at he
    -- The new number would already be in the order.
    refine h.size_notMem ?_
    rw [Except.ok.inj he]
    exact Direction.mem_extend.mpr (Or.inr rfl)
  rw [addedSide?, if_neg (hne .left), if_neg (hne .right)]

/-- After an operation the order of the squares is that of before, or the side on which it has
become longer is seen. -/
theorem executed (h : t.Chain l) (h0 : origin < t.size) {op : Operation}
    (hop : op.execute t i = .ok (t', j)) :
    t'.Chain ((t.addedSide? t').elim l fun d => d.extend l t.size) := by
  obtain ⟨l', he⟩ := h.effect_of_execute hop
  have hchain := he.chain
  rcases he.kept_or_grown with ⟨rfl, -⟩ | ⟨d, -, rfl, -⟩
  · rwa [h.addedSide?_self h0 hchain]
  · rwa [h.addedSide?_extend h0 hchain]

/-! ### The order of the squares and the links -/

theorem unique (h : t.Chain l) (h' : t.Chain l') (h0 : origin < t.size) : l = l' :=
  Except.ok.inj ((h.order_eq h0).symm.trans (h'.order_eq h0))

/-- The order of the squares determines the links. -/
theorem neighbour_congr (h : t.Chain l) (h' : t'.Chain l) (hi : i < t.size) (d : Direction) :
    (t.cellAt i).neighbour d = (t'.cellAt i).neighbour d := by
  obtain ⟨a, b, hs⟩ := h.exists_split d hi
  rw [h.next d i a b hs, h'.next d i a b hs]

/-- Tapes with the same order of squares and the same symbols on them are equal. -/
theorem ext_symbols (h : t.Chain l) (h' : t'.Chain l)
    (hread : ∀ i, i < t.size → t.read i = t'.read i) : t = t' := by
  have hsize : t.size = t'.size := by rw [← h.length_eq, ← h'.length_eq]
  have hcell : ∀ i, i < t.size → t.cellAt i = t'.cellAt i := by
    intro i hi
    have hsymbol := hread i hi
    rw [read_eq hi, read_eq (hsize ▸ hi), Except.ok.injEq] at hsymbol
    have hleft := h.neighbour_congr h' hi .left
    have hright := h.neighbour_congr h' hi .right
    exact (Cell.mk.injEq ..).mpr ⟨hsymbol, hleft, hright⟩
  refine (Tape.mk.injEq ..).mpr (Array.ext hsize fun i hi hi' => ?_)
  have h := hcell i hi
  simpa [cellAt, hi, hi'] using h

end Chain

/-! ### A whole history -/

/-- The order in which squares stand that have been added on these sides one after the other. -/
def chainOf (sides : List Direction) : List Nat :=
  sides.foldl (fun l d => d.extend l l.length) [origin]

theorem chainOf_concat (sides : List Direction) (d : Direction) :
    chainOf (sides ++ [d]) = d.extend (chainOf sides) (chainOf sides).length := by
  rw [chainOf, List.foldl_append]
  rfl

theorem length_chainOf (sides : List Direction) : (chainOf sides).length = sides.length + 1 := by
  induction sides using List.reverseRecOn with
  | nil => rfl
  | append_singleton sides d ih =>
    rw [chainOf_concat, ← Direction.length_along d, Direction.along_extend]
    simp [ih]

theorem lt_of_mem_chainOf {sides : List Direction} {k : Nat} (h : k ∈ chainOf sides) :
    k < (chainOf sides).length := by
  induction sides using List.reverseRecOn with
  | nil =>
    rw [List.mem_singleton.mp h]
    exact Nat.zero_lt_one
  | append_singleton sides d ih =>
    rw [length_chainOf, List.length_append, List.length_singleton, ← length_chainOf]
    rw [chainOf_concat, Direction.mem_extend] at h
    rcases h with h | rfl
    · exact Nat.lt_succ_of_lt (ih h)
    · exact Nat.lt_succ_self _

/-- Different growths give different orders. -/
theorem chainOf_injective : Function.Injective chainOf := by
  intro sides sides' h
  have hlen : sides.length = sides'.length := by
    have := congrArg List.length h
    rwa [length_chainOf, length_chainOf, Nat.add_right_cancel_iff] at this
  have hne : ∀ s, chainOf s ≠ [] := fun s => List.ne_nil_of_length_pos (by simp [length_chainOf])
  have hnew : ∀ s, (chainOf s).length ∉ chainOf s :=
    fun s hs => Nat.lt_irrefl _ (lt_of_mem_chainOf hs)
  -- The greatest number tells the last side and can be taken away.
  induction sides using List.reverseRecOn generalizing sides' with
  | nil => exact (List.length_eq_zero_iff.mp hlen.symm).symm
  | append_singleton sides d ih =>
    rcases List.eq_nil_or_concat' sides' with rfl | ⟨sides', e, rfl⟩
    · simp at hlen
    · have hlen' : sides.length = sides'.length := by simpa using hlen
      have hsize : (chainOf sides').length = (chainOf sides).length := by
        rw [length_chainOf, length_chainOf, hlen']
      rw [chainOf_concat, chainOf_concat, hsize,
        Direction.extend_inj (hne _) (hne _) (hnew _) (hsize ▸ hnew _)] at h
      rw [h.1, ih h.2 hlen']

/-- A history leaves the squares in the order that its growth gives, after that of before. -/
theorem Chain.executeEach {t t' : Tape} {sides : List Direction} (h : t.Chain (chainOf sides))
    {history : List (Operation × Nat)} (ht : t.executeEach history = .ok t') :
    t'.Chain (chainOf (sides ++ t.growth history)) := by
  induction history generalizing t sides with
  | nil =>
    obtain rfl := Except.ok.inj ht
    rwa [growth, List.append_nil]
  | cons first rest ih =>
    obtain ⟨op, i⟩ := first
    rw [Tape.executeEach] at ht
    cases hop : op.execute t i with
    | error e =>
      rw [hop] at ht
      exact nomatch ht
    | ok p =>
      obtain ⟨t₁, j⟩ := p
      rw [hop] at ht
      have h0 : origin < t.size := by
        rw [← h.length_eq, length_chainOf]
        exact Nat.succ_pos _
      have h₁ : t₁.Chain (chainOf (sides ++ (t.addedSide? t₁).toList)) := by
        have hstep := h.executed h0 hop
        cases hd : t.addedSide? t₁ with
        | none =>
          rw [hd] at hstep
          rwa [Option.toList_none, List.append_nil]
        | some d =>
          rw [hd, ← h.length_eq] at hstep
          rwa [Option.toList_some, chainOf_concat]
      rw [growth, hop, ← List.append_assoc]
      exact ih h₁ ht

/-- **Tapes are equal if they grew alike and bear the same symbols.**  Of what has been done to a
new tape, at whatever squares, only the sides on which squares were added and the symbols that
stand on the squares in the end make a difference. -/
theorem eq_iff_growth_and_symbols {history history' : List (Operation × Nat)} {t t' : Tape}
    (h : Tape.new.executeEach history = .ok t) (h' : Tape.new.executeEach history' = .ok t') :
    t.size = (Tape.new.growth history).length + 1 ∧
    (t = t' ↔ t.size = t'.size ∧ (∀ i, i < t.size → t.read i = t'.read i) ∧
      Tape.new.growth history = Tape.new.growth history') := by
  have hnew : Tape.new.Chain (chainOf []) := chain_new
  have hchain : t.Chain (chainOf (Tape.new.growth history)) := hnew.executeEach h
  have hchain' : t'.Chain (chainOf (Tape.new.growth history')) := hnew.executeEach h'
  have hsize : t.size = (Tape.new.growth history).length + 1 := by
    rw [← hchain.length_eq, length_chainOf]
  refine ⟨hsize, ?_⟩
  constructor
  · rintro rfl
    have h0 : origin < t.size := hsize ▸ Nat.succ_pos _
    exact ⟨rfl, fun _ _ => rfl, chainOf_injective (hchain.unique hchain' h0)⟩
  · rintro ⟨-, hread, hgrowth⟩
    rw [← hgrowth] at hchain'
    exact hchain.ext_symbols hchain' hread

/-- Two histories of different length leave the same tape.  A third one leaves a tape that looks
the same from left to right but grew the other way. -/
theorem eq_iff_growth_and_symbols_detour :
    let history : List (Operation × Nat) :=
      [(.move .right, 0), (.move .left, 0), (.print "1", 2)]
    let detour : List (Operation × Nat) :=
      [(.print "x", 0), (.move .right, 0), (.move .left, 1), (.print "1", 1), (.move .left, 0),
        (.print "1", 2), (.erase, 1), (.move .right, 2), (.erase, 0)]
    let mirrored : List (Operation × Nat) :=
      [(.move .left, 0), (.move .right, 0), (.print "1", 1)]
    ∃ t t' t'', Tape.new.executeEach history = .ok t ∧ Tape.new.executeEach detour = .ok t' ∧
      Tape.new.executeEach mirrored = .ok t'' ∧
      (·.map Prod.snd) <$> t.squares origin = (·.map Prod.snd) <$> t''.squares origin ∧
      t = t' ∧ t ≠ t'' := by
  intro history detour mirrored
  obtain ⟨t, ht⟩ : ∃ t, Tape.new.executeEach history = .ok t := ⟨_, rfl⟩
  obtain ⟨t', ht'⟩ : ∃ t, Tape.new.executeEach detour = .ok t := ⟨_, rfl⟩
  obtain ⟨t'', ht''⟩ : ∃ t, Tape.new.executeEach mirrored = .ok t := ⟨_, rfl⟩
  refine ⟨t, t', t'', ht, ht', ht'', ?look, ?equal, ?different⟩
  case look =>
    obtain rfl := Except.ok.inj ht
    obtain rfl := Except.ok.inj ht''
    decide +kernel
  case equal =>
    refine (eq_iff_growth_and_symbols ht ht').2.mpr ?_
    obtain rfl := Except.ok.inj ht
    obtain rfl := Except.ok.inj ht'
    exact ⟨rfl, by decide +kernel, by decide +kernel⟩
  case different =>
    intro h
    have hgrowth := ((eq_iff_growth_and_symbols ht ht'').2.mp h).2.2
    exact absurd hgrowth (by decide +kernel)

end Tape

end AutomaticMachine
