/-
The number on a tape is decoded exactly.

The digits that are left without leading zeros are those of the number that
all digits make (`digits_binaryValue`), so their count tells whether it fits,
and the digits alone determine what is decoded.  It is also what a reading of
the digits as one text gives, one digit after the other and with a check that
the number still fits.

* `decodeBinary_of_spells`     — the digits on the tape give the number or the fault;
* `decodeBinary_eq_decodeText` — so does their text;
* `decodeBinary_exact`         — the main statement, on the snapshots of a run.
-/
import AutomaticMachine.Proofs.Snapshot.Digits
import AutomaticMachine.Proofs.Snapshot.Invariant
import AutomaticMachine.Proofs.Snapshot.Situation
import Mathlib.Data.Nat.Digits.Lemmas

namespace AutomaticMachine

namespace Tape

variable {t : Tape} {l : List Nat} {symbols : List Symbol}

/-- The symbols on the squares of the tape are, from left to right, those in the list. -/
def Spells (t : Tape) (symbols : List Symbol) : Prop :=
  ∃ l, t.Chain l ∧ List.Forall₂ (fun i x => t.read i = .ok x) l symbols

theorem forall₂_read_iff (h : ∀ i ∈ l, i < t.size) :
    List.Forall₂ (fun i x => t.read i = .ok x) l symbols ↔
      l.map (fun i => (t.cellAt i).symbol) = symbols := by
  induction l generalizing symbols with
  | nil =>
    rw [List.forall₂_nil_left_iff, List.map_nil]
    exact eq_comm
  | cons i l ih =>
    cases symbols with
    | nil => simp
    | cons x symbols =>
      obtain ⟨hi, hl⟩ := List.forall_mem_cons.mp h
      rw [List.forall₂_cons, ih hl, read_eq hi, List.map_cons, List.cons.injEq, Except.ok.injEq]

theorem Chain.spells (h : t.Chain l) : t.Spells (l.map fun i => (t.cellAt i).symbol) :=
  ⟨l, h, (forall₂_read_iff fun i hi => (h.mem_iff i).mp hi).mpr rfl⟩

end Tape

theorem Tape.Spells.tapeSymbols_eq {s : Snapshot} {symbols : List Symbol}
    (h : s.tape.Spells symbols) (hs : s.head < s.tape.size) : s.tapeSymbols = symbols := by
  obtain ⟨l, hl, hsymbols⟩ := h
  rw [Tape.forall₂_read_iff fun i hi => (hl.mem_iff i).mp hi] at hsymbols
  rw [Snapshot.tapeSymbols, Snapshot.squares, hl.squares_eq hs, ← hsymbols]
  show List.map _ (List.map _ l) = _
  rw [List.map_map]
  rfl

/-- The number whose binary digits, the most significant first, are those of the symbols that are
`0` or `1`. -/
def Symbol.binaryNumber (symbols : List Symbol) : Nat :=
  Nat.ofDigits 2 ((symbols.filterMap Symbol.bit?).map Bool.toNat).reverse

theorem Symbol.binaryNumber_eq_of_leading_zeros {symbols symbols' : List Symbol} {k : Nat}
    (h : symbols'.filterMap bit? = List.replicate k false ++ symbols.filterMap bit?) :
    binaryNumber symbols' = binaryNumber symbols := by
  rw [binaryNumber, h, List.map_append, List.map_replicate, List.reverse_append,
    List.reverse_replicate]
  exact Nat.ofDigits_append_replicate_zero _

namespace Snapshot

theorem binaryValue_eq_ofDigits (l : List Bool) :
    binaryValue l = Nat.ofDigits 2 (l.map Bool.toNat).reverse := by
  induction l using List.reverseRecOn with
  | nil => rfl
  | append_singleton l b ih =>
    rw [binaryValue_append, ih, List.map_append, List.reverse_append]
    exact Nat.add_comm _ _

/-- Without leading zeros the digits are those of the number that they make. -/
theorem digits_binaryValue (l : List Bool) :
    Nat.digits 2 (binaryValue l) = ((l.dropWhile (!·)).map Bool.toNat).reverse := by
  have hlt : ∀ d ∈ ((l.dropWhile (!·)).map Bool.toNat).reverse, d < 2 := by
    intro d hd
    obtain ⟨b, -, rfl⟩ := List.mem_map.mp (List.mem_reverse.mp hd)
    exact Bool.toNat_lt b
  have hlast : ∀ h : ((l.dropWhile (!·)).map Bool.toNat).reverse ≠ [],
      ((l.dropWhile (!·)).map Bool.toNat).reverse.getLast h ≠ 0 := by
    intro h
    have hne : l.dropWhile (!·) ≠ [] := by simpa using h
    have hhead : (l.dropWhile (!·)).head hne = true := by
      simpa using List.head_dropWhile_not (!·) hne
    rw [List.getLast_reverse, List.head_map, hhead]
    exact Nat.one_ne_zero
  rw [← binaryValue_dropWhile, binaryValue_eq_ofDigits]
  exact Nat.digits_ofDigits 2 Nat.one_lt_two _ hlt hlast

theorem length_significant_le_iff (l : List Bool) :
    (l.dropWhile (!·)).length ≤ maxDigits ↔ binaryValue l < 2 ^ maxDigits := by
  rw [← Nat.digits_length_le_iff Nat.one_lt_two, digits_binaryValue, List.length_reverse,
    List.length_map]

/-- Of the digits only the number that they make matters. -/
theorem decodeBinary_eq_ite (s : Snapshot) :
    s.decodeBinary = if binaryValue s.digits < 2 ^ 128 then .ok (binaryValue s.digits)
      else .error (.overflow (Nat.digits 2 (binaryValue s.digits)).length) := by
  rw [decodeBinary, digits_binaryValue, List.length_reverse, List.length_map,
    binaryValue_dropWhile, if_congr (length_significant_le_iff _) rfl rfl]
  rfl

/-- It does not matter from which square the tape is read. -/
theorem decodeBinary_of_spells {s : Snapshot} {symbols : List Symbol} (hs : s.head < s.tape.size)
    (h : s.tape.Spells symbols) :
    s.decodeBinary = if Symbol.binaryNumber symbols < 2 ^ 128 then .ok (Symbol.binaryNumber symbols)
      else .error (.overflow (Nat.digits 2 (Symbol.binaryNumber symbols)).length) := by
  have hvalue : binaryValue s.digits = Symbol.binaryNumber symbols := by
    rw [digits_eq, h.tapeSymbols_eq hs, binaryValue_eq_ofDigits, Symbol.binaryNumber]
  rw [decodeBinary_eq_ite, hvalue]

/-! ### The digits as one text -/

def digitChar (b : Bool) : Char := if b then '1' else '0'

/-- The digits on the tape, written one after the other. -/
def digitText (s : Snapshot) : String :=
  String.join (s.tapeSymbols.filter fun x => x == "0" || x == "1")

/-- The number that the characters stand for if they are binary digits and it stays below `2 ^ 128`
all along. -/
def readDigits? (l : List Char) : Option Nat :=
  l.foldlM (fun v c => do
    let b ← Symbol.bit? (String.singleton c)
    if 2 * v + b.toNat < 2 ^ maxDigits then some (2 * v + b.toNat) else none) 0

/-- The number that the text of the digits stands for. -/
def decodeText (s : Snapshot) : Except Fault Nat :=
  let significant := s.digitText.toList.dropWhile (· == '0')
  if significant.isEmpty then .ok 0
  else match readDigits? significant with
  | some v => .ok v
  | none => .error (.overflow (String.ofList significant).utf8ByteSize)

theorem toList_digitText (s : Snapshot) : s.digitText.toList = s.digits.map digitChar := by
  rw [digitText, digits_eq, String.toList_join]
  induction s.tapeSymbols with
  | nil => rfl
  | cons x symbols ih =>
    by_cases h0 : x = "0"
    · subst h0
      rw [List.filter_cons_of_pos (by rfl), List.flatMap_cons, ih]
      rfl
    by_cases h1 : x = "1"
    · subst h1
      rw [List.filter_cons_of_pos (by rfl), List.flatMap_cons, ih]
      rfl
    have hbit : x.bit? = none := by
      rw [Symbol.bit?, if_neg h0, if_neg h1]
    rw [List.filter_cons_of_neg (by simp [h0, h1]), List.filterMap_cons_none hbit, ih]

theorem bit?_singleton_digitChar (b : Bool) :
    Symbol.bit? (String.singleton (digitChar b)) = some b := by
  cases b <;> rfl

theorem readDigits?_map (l : List Bool) :
    readDigits? (l.map digitChar) =
      if binaryValue l < 2 ^ maxDigits then some (binaryValue l) else none := by
  induction l using List.reverseRecOn with
  | nil => rfl
  | append_singleton l b ih =>
    rw [List.map_append, readDigits?, List.foldlM_append, ← readDigits?, ih, binaryValue_append]
    by_cases hlt : binaryValue l < 2 ^ maxDigits
    · rw [if_pos hlt]
      simp [bit?_singleton_digitChar]
    · rw [if_neg hlt, if_neg (by omega)]
      rfl

theorem utf8ByteSize_map_digitChar (l : List Bool) :
    (String.ofList (l.map digitChar)).utf8ByteSize = l.length := by
  induction l with
  | nil => rfl
  | cons b l ih =>
    rw [List.map_cons, String.ofList_cons, String.utf8ByteSize_append, ih, List.length_cons,
      Nat.add_comm]
    cases b <;> rfl

theorem significant_eq (s : Snapshot) :
    s.digitText.toList.dropWhile (· == '0') = (s.digits.dropWhile (!·)).map digitChar := by
  have hzero : ((· == '0') ∘ digitChar) = (!·) := by
    funext b
    cases b <;> rfl
  rw [toList_digitText, List.dropWhile_map, hzero]

/-- **What is decoded is what the text of the digits stands for.** -/
theorem decodeBinary_eq_decodeText (s : Snapshot) : s.decodeBinary = s.decodeText := by
  have hfits : (s.digits.dropWhile (!·)).length ≤ maxDigits ↔
      binaryValue (s.digits.dropWhile (!·)) < 2 ^ maxDigits := by
    rw [length_significant_le_iff, binaryValue_dropWhile]
  rw [decodeText, significant_eq, readDigits?_map, utf8ByteSize_map_digitChar, decodeBinary]
  generalize s.digits.dropWhile (!·) = l at hfits
  cases l with
  | nil => rfl
  | cons b l =>
    rw [if_congr hfits rfl rfl]
    split <;> rfl

end Snapshot

namespace Table

variable {t : Table} {initial : String} {p : Program}

/-- **Decoding is exact.**  Take the number whose binary digits, from the left to the right of the
tape, are the symbols `0` and `1`.  If it is below `2 ^ 128` it is decoded, and otherwise the fault
tells how many binary digits it has.  That is what the text of the digits stands for without its
leading zeros.  Neither the square that is scanned nor leading zeros nor the other squares make a
difference. -/
theorem decodeBinary_exact (hb : t.build initial = .ok p) (n : Nat) :
    (∀ s : Snapshot, s.decodeBinary = s.decodeText) ∧
    (∃ symbols, (p.step^[n] p.start).tape.Spells symbols) ∧
    ∀ symbols, (p.step^[n] p.start).tape.Spells symbols →
      (p.step^[n] p.start).decodeBinary =
        (if Symbol.binaryNumber symbols < 2 ^ 128 then .ok (Symbol.binaryNumber symbols)
        else .error (.overflow (Nat.digits 2 (Symbol.binaryNumber symbols)).length)) ∧
      (∀ i < (p.step^[n] p.start).tape.size,
        { p.step^[n] p.start with head := i }.decodeBinary = (p.step^[n] p.start).decodeBinary) ∧
      ∀ (s : Snapshot) (symbols' : List Symbol) (k : Nat), s.head < s.tape.size →
        s.tape.Spells symbols' →
        symbols'.filterMap Symbol.bit? =
          List.replicate k false ++ symbols.filterMap Symbol.bit? →
        s.decodeBinary = (p.step^[n] p.start).decodeBinary := by
  obtain ⟨l, hl⟩ := (Program.consistent_iterate (closed_of_build hb) n).chained
  have hhead := (Program.consistent_iterate (closed_of_build hb) n).head_lt
  refine ⟨Snapshot.decodeBinary_eq_decodeText, ⟨_, hl.spells⟩, ?_⟩
  intro symbols hsymbols
  have hdecoded := Snapshot.decodeBinary_of_spells hhead hsymbols
  refine ⟨hdecoded, ?head, ?digits⟩
  case head =>
    intro i hi
    rw [hdecoded]
    exact Snapshot.decodeBinary_of_spells hi hsymbols
  case digits =>
    intro s symbols' k hs hsymbols' hdigits
    rw [hdecoded, Snapshot.decodeBinary_of_spells hs hsymbols',
      Symbol.binaryNumber_eq_of_leading_zeros hdigits]

/-- A run prints a leading zero, a symbol that is no digit, and 129 ones.  With the first one the
number is 1, and with the last it has a digit too many. -/
theorem decodeBinary_exact_ones :
    let t : Table := {
      name := "ones"
      configurations := [⟨"b", [⟨.none,
        .print "0" :: .move .right :: .print "01" :: .move .right ::
          (List.replicate 129 [.print "1", .move .right]).flatten, completeName⟩]⟩] }
    let p := t.resolved "b"
    t.build "b" = .ok p ∧ (p.step^[5] p.start).tape.Spells ["0", "01", "1"] ∧
      (p.step^[5] p.start).decodeBinary = .ok 1 ∧
      ∃ n, (p.step^[n] p.start).tape.Spells ("0" :: "01" :: List.replicate 129 "1" ++ [""]) ∧
        (p.step^[n] p.start).decodeBinary = .error (.overflow 129) := by
  intro t p
  have hb : t.build "b" = .ok p := rfl
  have hhead (n : Nat) : (p.step^[n] p.start).head < (p.step^[n] p.start).tape.size :=
    (Program.consistent_iterate (closed_of_build hb) n).head_lt
  have hfew : (p.step^[5] p.start).tapeSymbols = ["0", "01", "1"] := by decide +kernel
  obtain ⟨-, ⟨few, hspelt⟩, hdecoded⟩ := decodeBinary_exact hb 5
  obtain rfl := hfew.symm.trans (hspelt.tapeSymbols_eq (hhead 5))
  -- The whole rule is followed on the row of symbols.
  have hrule : p.findRule? p.initial Symbol.blank = some ⟨.none,
      .print "0" :: .move .right :: .print "01" :: .move .right ::
        (List.replicate 129 [.print "1", .move .right]).flatten, p.complete⟩ := rfl
  obtain ⟨n, hn, -⟩ := Program.Leads.iterate (Program.Leads.rule (P := fun _ => True) trivial rfl
    hrule rfl (Program.Leads.allOwed fun _ _ => trivial)) p.isIn_opening
  have hmany : (p.step^[n] p.start).tapeSymbols =
      "0" :: "01" :: List.replicate 129 "1" ++ [""] := hn.tapeSymbols_eq.trans (by decide +kernel)
  obtain ⟨-, ⟨many, hspelt'⟩, hdecoded'⟩ := decodeBinary_exact hb n
  obtain rfl := hmany.symm.trans (hspelt'.tapeSymbols_eq (hhead n))
  have hone : Symbol.binaryNumber ["0", "01", "1"] = 1 := by decide +kernel
  have hones : Symbol.binaryNumber ("0" :: "01" :: List.replicate 129 "1" ++ [""]) =
      2 ^ 129 - 1 := by decide +kernel
  refine ⟨hb, hspelt, ?one, n, hspelt', ?ones⟩
  case one =>
    rw [(hdecoded _ hspelt).1, hone, if_pos (by decide)]
  case ones =>
    have hlength : (Nat.digits 2 (2 ^ 129 - 1)).length = 129 := by norm_num
    rw [(hdecoded' _ hspelt').1, hones, if_neg (by decide), hlength]

end Table

end AutomaticMachine
