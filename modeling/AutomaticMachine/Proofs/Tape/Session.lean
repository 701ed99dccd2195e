/-
Every tape of a session is a single chain.

Whatever is asked of a session, at whatever squares and with whatever copies
kept and taken back, its tapes keep what operations keep: `Session.Each.perform`
is the step, `Session.Each.performAll` the run.  So they stay chains
(`Session.performAll_chained`).  The main statement,
`Session.performAll_single_chain`, reads the chain back through the checked
operations of a tape.
-/
import AutomaticMachine.Proofs.Tape.Chain
import AutomaticMachine.Tape.Session

namespace AutomaticMachine

namespace Tape

/-- The numbers of the squares from left to right, found from square `i`. -/
def order (t : Tape) (i : Nat) : Except StaleCell (List Nat) :=
  (·.map Prod.fst) <$> t.squares i

theorem Chain.order_eq {t : Tape} {l : List Nat} {i : Nat} (h : t.Chain l) (hi : i < t.size) :
    t.order i = .ok l := by
  rw [order, h.squares_eq hi]
  exact congrArg _ (Chain.map_fst_squares t l)

/-- From every square a walk to the left ends at the first, and a walk on from there meets all
squares; more fuel than there are squares makes no difference. -/
theorem Chain.walks_eq {t : Tape} {l : List Nat} {i : Nat} (h : t.Chain l) (hi : i < t.size) :
    ∃ first, l.head? = some first ∧ t.leftmost i = .ok first ∧
      ∀ n, t.size ≤ n → t.walk .left n i = .ok first ∧
        t.squaresFrom n first = .ok (l.map fun k => (k, (t.cellAt k).symbol)) := by
  obtain ⟨first, hfirst⟩ := h.exists_head hi
  refine ⟨first, hfirst, h.leftmost_eq hi hfirst, ?_⟩
  intro n hn
  have hlast : (Direction.left.along l).getLast? = some first := by
    simpa [Direction.along] using hfirst
  obtain ⟨r, rfl⟩ := List.head?_eq_some_iff.mp hfirst
  have hlen : r.length < n := by
    have := h.length_eq
    rw [List.length_cons] at this
    omega
  exact ⟨h.walk_eq_last hi hn hlast, h.squaresFrom_eq (a := []) rfl hlen⟩

/-- The effect of an operation, as the checked look-ups show it. -/
theorem Effect.observed {op : Operation} {t t' : Tape} {l l' : List Nat} {i j : Nat}
    (h : Effect op t l i t' l' j) (hi : i < t.size) :
    j < t'.size ∧ (∀ k, k < t'.size → t'.order k = .ok l') ∧
    ((l' = l ∧ t'.size = t.size) ∨
      ((op = .move .left ∧ l' = t.size :: l ∨ op = .move .right ∧ l' = l ++ [t.size]) ∧
        t'.size = t.size + 1 ∧ j = t.size ∧ t'.read t.size = .ok Symbol.blank)) ∧
    (∀ s, op.written? = some s → j = i ∧ t'.read i = .ok s) ∧
    (∀ d, op = .move d → t'.neighbour d i = .ok (some j)) ∧
    ∀ k, k < t.size → k ≠ i ∨ op.written? = none → t'.read k = t.read k := by
  have hle : t.size ≤ t'.size := h.size_le
  have hi' : i < t'.size := Nat.lt_of_lt_of_le hi hle
  refine ⟨h.head_lt, fun k hk => h.chain.order_eq hk, ?grown, ?written, ?moved, ?kept⟩
  case grown =>
    rcases h.kept_or_grown with ⟨hl, hsize⟩ | ⟨d, rfl, hl, hsize, hj, hblank⟩
    · exact Or.inl ⟨hl, hsize⟩
    · refine Or.inr ⟨?_, hsize, hj, by rw [read_eq (by omega), hblank]⟩
      cases d with
      | left => exact Or.inl ⟨rfl, hl⟩
      | right => exact Or.inr ⟨rfl, hl⟩
  case written =>
    intro s hs
    obtain ⟨hj, hs'⟩ := h.written s hs
    exact ⟨hj, by rw [read_eq hi', hs']⟩
  case moved =>
    intro d hd
    rw [neighbour_eq d hi', h.moved d hd]
  case kept =>
    intro k hk hkept
    rw [read_eq (Nat.lt_of_lt_of_le hk hle), read_eq hk, h.kept k hk hkept]

namespace Session

/-- The current tape of a session and all its copies have the property. -/
structure Each (P : Tape → Prop) (s : Session) : Prop where
  tape : P s.tape
  saved : ∀ t ∈ s.saved, P t

section

variable {P : Tape → Prop} {s : Session}

theorem each_new (h : P Tape.new) : ({} : Session).Each P where
  tape := h
  saved t ht := by simp at ht

theorem Each.copy (h : s.Each P) (slot : Nat) : P (s.copy slot) := by
  unfold Session.copy
  cases hc : s.saved[slot]? with
  | none => exact h.tape
  | some t => exact h.saved t (Array.mem_of_getElem? hc)

variable (hP : ∀ {op : Operation} {t t' : Tape} {i j : Nat}, P t → op.execute t i = .ok (t', j) →
  P t')
include hP

/-- What operations keep of a tape, a request that is met keeps of all tapes. -/
theorem Each.perform {s' : Session} {r : Request} {reply : Reply} (h : s.Each P)
    (hr : s.perform r = .ok (reply, s')) : s'.Each P := by
  -- All requests but three leave the session as it is, whatever they answer.
  have hsame : ∀ {α : Type} (x : Except StaleCell α) (f : α → Reply),
      (do return (f (← x), s) : Except StaleCell (Reply × Session)) = .ok (reply, s') →
        s'.Each P := by
    intro α x f hx
    cases x with
    | error e => exact nomatch hx
    | ok a =>
      obtain rfl : s = s' := congrArg Prod.snd (Except.ok.inj hx)
      exact h
  cases r with
  | execute op i =>
    rw [Session.perform] at hr
    cases hop : op.execute s.tape i with
    | error e =>
      rw [hop] at hr
      exact nomatch hr
    | ok p =>
      rw [hop] at hr
      obtain rfl : { s with tape := p.1 } = s' := congrArg Prod.snd (Except.ok.inj hr)
      exact ⟨hP h.tape hop, h.saved⟩
  | read i => exact hsame _ .symbol hr
  | neighbour d i => exact hsame _ .neighbour hr
  | leftmost i => exact hsame _ .square hr
  | squares i => exact hsame _ .squares hr
  | origin => exact hsame (.ok ()) (fun _ => .square Tape.origin) hr
  | size => exact hsame (.ok ()) (fun _ => .count s.tape.size) hr
  | isEmpty => exact hsame (.ok ()) (fun _ => .flag (s.tape.size == 0)) hr
  | equals slot => exact hsame (.ok ()) (fun _ => .flag (s.tape == s.copy slot)) hr
  | save =>
    obtain rfl : { s with saved := s.saved.push s.tape } = s' :=
      congrArg Prod.snd (Except.ok.inj hr)
    refine ⟨h.tape, fun t ht => ?_⟩
    rcases Array.mem_push.mp ht with ht | rfl
    · exact h.saved t ht
    · exact h.tape
  | restore slot =>
    obtain rfl : { s with tape := s.copy slot } = s' := congrArg Prod.snd (Except.ok.inj hr)
    exact ⟨h.copy slot, h.saved⟩

theorem Each.performAll (h : s.Each P) (requests : List Request) :
    (s.performAll requests).2.Each P := by
  induction requests generalizing s with
  | nil => exact h
  | cons r rest ih =>
    rw [Session.performAll]
    cases hr : s.perform r with
    | error e => exact ih h
    | ok p => exact ih (h.perform hP hr)

end

/-- The current tape of a session and all its copies are chains. -/
structure Chained (s : Session) : Prop where
  tape : ∃ l, s.tape.Chain l
  saved : ∀ t ∈ s.saved, ∃ l, t.Chain l

theorem chained_iff_each {s : Session} : s.Chained ↔ s.Each fun t => ∃ l, t.Chain l :=
  ⟨fun h => ⟨h.tape, h.saved⟩, fun h => ⟨h.tape, h.saved⟩⟩

theorem chained_new : ({} : Session).Chained := chained_iff_each.mpr (each_new ⟨_, chain_new⟩)

theorem performAll_chained (requests : List Request) {s : Session} (h : s.Chained) :
    (s.performAll requests).2.Chained := by
  refine chained_iff_each.mpr ((chained_iff_each.mp h).performAll ?_ requests)
  rintro op t t' i j ⟨l, hl⟩ hop
  obtain ⟨l', he⟩ := hl.effect_of_execute hop
  exact ⟨l', he.chain⟩

/-- **Every tape of a session is a single chain.**  After any requests, links name squares of the
tape and lead back; they are those of one list that holds every square once, at whose ends all
walks end, with or without fuel to spare; and a further operation at any square leaves that list
as it is or makes it longer by one blank square at the end that it moves to, and changes no
symbol but the one that it writes over. -/
theorem performAll_single_chain (requests : List Request) :
    let t := (({} : Session).performAll requests).2.tape
    (∀ d i j, t.neighbour d i = .ok (some j) → j < t.size) ∧
    (∀ i j, t.neighbour .left i = .ok (some j) ↔ t.neighbour .right j = .ok (some i)) ∧
    ∃ (chain : List Nat) (squares : List (Nat × Symbol)),
      chain.Nodup ∧ (∀ i, i ∈ chain ↔ i < t.size) ∧
      (∀ i j, t.neighbour .right i = .ok (some j) ↔ [i, j] <:+: chain) ∧
      squares.map Prod.fst = chain ∧ (∀ k x, (k, x) ∈ squares → t.read k = .ok x) ∧
      (∀ i, i < t.size → t.squares i = .ok squares ∧
        ∃ first, chain.head? = some first ∧ t.leftmost i = .ok first ∧
          ∀ n, t.size ≤ n → t.walk .left n i = .ok first ∧ t.squaresFrom n first = .ok squares) ∧
      ∀ (op : Operation) i, i < t.size → ∃ t' j chain', op.execute t i = .ok (t', j) ∧
        j < t'.size ∧ (∀ k, k < t'.size → t'.order k = .ok chain') ∧
        ((chain' = chain ∧ t'.size = t.size) ∨
          ((op = .move .left ∧ chain' = t.size :: chain ∨
            op = .move .right ∧ chain' = chain ++ [t.size]) ∧
            t'.size = t.size + 1 ∧ j = t.size ∧ t'.read t.size = .ok Symbol.blank)) ∧
        (∀ s, op.written? = some s → j = i ∧ t'.read i = .ok s) ∧
        (∀ d, op = .move d → t'.neighbour d i = .ok (some j)) ∧
        ∀ k, k < t.size → k ≠ i ∨ op.written? = none → t'.read k = t.read k := by
  intro t
  obtain ⟨l, hl⟩ : ∃ l, t.Chain l := (performAll_chained requests chained_new).tape
  clear_value t
  refine ⟨?range, hl.neighbour_left_iff, l, l.map fun k => (k, (t.cellAt k).symbol),
    hl.nodup, hl.mem_iff, hl.neighbour_right_iff, ?numbers, ?symbols, ?walks, ?effect⟩
  case range =>
    intro d i j hj
    obtain ⟨hi, hj⟩ := lt_of_neighbour hj
    exact hl.neighbour_lt hi hj
  case numbers =>
    simp [List.map_map, Function.comp_def]
  case symbols =>
    intro k x hk
    obtain ⟨k', hk', hx⟩ := List.mem_map.mp hk
    obtain ⟨rfl, rfl⟩ := Prod.mk.inj hx
    exact read_eq ((hl.mem_iff k').mp hk')
  case walks =>
    intro i hi
    exact ⟨hl.squares_eq hi, hl.walks_eq hi⟩
  case effect =>
    intro op i hi
    obtain ⟨t', j, l', hop, he⟩ := hl.execute hi op
    exact ⟨t', j, l', hop, he.observed hi⟩

end Session

end Tape

end AutomaticMachine
