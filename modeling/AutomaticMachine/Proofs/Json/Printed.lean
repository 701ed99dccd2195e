/-
Printed JSON follows the grammar.

The printer chooses one way to write each value: it escapes a character only
where it must, and its blank space is the line breaks and the indentation.
Every other choice of the grammar is left to other authors.

* `exists_spellsText_printText` — a text in quotes;
* `Valid.spells_print`          — the main statement, on a value at any depth.
-/
import AutomaticMachine.Json.Printer
import AutomaticMachine.Proofs.Json.Grammar

namespace AutomaticMachine

namespace Json

/-! ### Texts -/

theorem unit?_of_lt {n : Nat} (h : n < 32) :
    unit? '0' '0' (Nat.digitChar (n / 16)) (Nat.digitChar (n % 16)) = some n := by
  have hall : ∀ n < 32,
      unit? '0' '0' (Nat.digitChar (n / 16)) (Nat.digitChar (n % 16)) = some n := by
    decide
  exact hall n h

/-- A unit that is not half of a surrogate pair stands for a character, whatever follows. -/
theorem join?_unit {code : Nat} (hl : isLeading code = false) (ht : isTrailing code = false)
    (pieces : List Piece) :
    join? (.unit code :: pieces) = (join? pieces).map (Char.ofNat code :: ·) := by
  match pieces with
  | [] => simp [join?, hl, ht]
  | .char c :: pieces => simp [join?, hl, ht]
  | .unit code' :: pieces => simp [join?, hl, ht]

/-- The characters are one piece of a text, and that piece stands for `c`. -/
def SpellsChar (c : Char) (cs : List Char) : Prop :=
  ∃ piece, (∀ {pieces rest}, SpellsPieces pieces rest →
      SpellsPieces (piece :: pieces) (cs ++ rest)) ∧
    ∀ pieces, join? (piece :: pieces) = (join? pieces).map (c :: ·)

theorem SpellsChar.plain {c : Char} (hc : 32 ≤ c.toNat) (hq : c ≠ '"') (hb : c ≠ '\\') :
    SpellsChar c [c] :=
  ⟨.char c, .plain hc hq hb, fun _ => rfl⟩

theorem SpellsChar.escaped {e c : Char} (he : escaped? e = some c) : SpellsChar c ['\\', e] :=
  ⟨.char c, .escaped he, fun _ => rfl⟩

/-- A control character can be given by its code. -/
theorem SpellsChar.control {c : Char} (hc : c.toNat < 32) :
    SpellsChar c
      ['\\', 'u', '0', '0', Nat.digitChar (c.toNat / 16), Nat.digitChar (c.toNat % 16)] := by
  refine ⟨.unit c.toNat, .unit (unit?_of_lt hc), fun pieces => ?_⟩
  rw [join?_unit, Char.ofNat_toNat]
  · simp only [isLeading, Bool.and_eq_false_iff, decide_eq_false_iff_not]
    omega
  · simp only [isTrailing, Bool.and_eq_false_iff, decide_eq_false_iff_not]
    omega

/-- A character with a short escape of its own, or else another one. -/
theorem SpellsChar.ite_escaped {e d c : Char} {cs : List Char} (he : escaped? e = some d)
    (h : c ≠ d → SpellsChar c cs) : SpellsChar c (if c = d then ['\\', e] else cs) := by
  split
  · next hc =>
    rw [hc]
    exact .escaped he
  · next hc => exact h hc

theorem spellsChar_escapeChar (c : Char) : SpellsChar c (escapeChar c) := by
  rw [escapeChar]
  refine .ite_escaped rfl fun hquote => ?_
  refine .ite_escaped rfl fun hbackslash => ?_
  refine .ite_escaped rfl fun _ => .ite_escaped rfl fun _ => .ite_escaped rfl fun _ => ?_
  refine .ite_escaped rfl fun _ => .ite_escaped rfl fun _ => ?_
  split
  · next hcontrol => exact .control hcontrol
  · next hcontrol => exact .plain (Nat.not_lt.mp hcontrol) hquote hbackslash

theorem exists_spellsPieces_escapeChar (cs : List Char) :
    ∃ pieces, SpellsPieces pieces (cs.flatMap escapeChar) ∧ join? pieces = some cs := by
  induction cs with
  | nil => exact ⟨[], .nil, rfl⟩
  | cons c cs ih =>
    obtain ⟨pieces, hpieces, hjoin⟩ := ih
    obtain ⟨piece, hpiece, hc⟩ := spellsChar_escapeChar c
    refine ⟨piece :: pieces, hpiece hpieces, ?_⟩
    rw [hc, hjoin]
    rfl

theorem exists_spellsText_printText (text : Option String) :
    ∃ cs, SpellsText text cs ∧ printText text = '"' :: (cs ++ ['"']) := by
  cases text with
  | none =>
    have hunit : SpellsPieces [.unit 0xd800] "\\ud800".toList := .unit rfl .nil
    exact ⟨_, ⟨_, hunit, rfl⟩, rfl⟩
  | some s =>
    obtain ⟨pieces, hpieces, hjoin⟩ := exists_spellsPieces_escapeChar s.toList
    refine ⟨_, ⟨pieces, hpieces, ?_⟩, rfl⟩
    rw [hjoin, Option.map_some, String.ofList_toList]

/-! ### Values -/

/-- Every number in the value is written as one. -/
inductive Valid : Json → Prop
  | null : Valid .null
  | bool (b : Bool) : Valid (.bool b)
  | number {literal : List Char} (h : IsNumber literal) : Valid (.number literal)
  | string (text : Option String) : Valid (.string text)
  | array {items : List Json} (h : ∀ item ∈ items, Valid item) : Valid (.array items)
  | object {members : List (Option String × Json)} (h : ∀ member ∈ members, Valid member.2) :
      Valid (.object members)

theorem blank_newLine (depth : Nat) : Blank (newLine depth) := by
  intro c hc
  rcases List.mem_cons.mp hc with rfl | hc
  · rfl
  · rw [List.eq_of_mem_replicate hc]
    rfl

theorem spellsItems_printItems {depth : Nat} {item : Json} {items : List Json}
    {before after : List Char} (hb : Blank before) (hitem : Spells item (item.print depth))
    (hitems : ∀ i ∈ items, Spells i (i.print depth)) (ha : Blank after) :
    SpellsItems (item :: items)
      (before ++ (item.print depth ++ (printItems depth items ++ after))) := by
  induction items generalizing item before with
  | nil => exact .last hb hitem ha
  | cons next items ih =>
    obtain ⟨hnext, hitems⟩ := List.forall_mem_cons.mp hitems
    have h := SpellsItems.cons hb hitem .nil (ih (blank_newLine depth) hnext hitems)
    simpa [printItems] using h

theorem spellsName_print (name : Option String) {before : List Char} (hb : Blank before) :
    SpellsName name (before ++ (printText name ++ [':'])) := by
  obtain ⟨text, htext, hprint⟩ := exists_spellsText_printText name
  refine ⟨before, text, [], hb, htext, .nil, ?_⟩
  rw [hprint]
  simp

theorem spellsMembers_printMembers {depth : Nat} {member : Option String × Json}
    {members : List (Option String × Json)} {before after : List Char} (hb : Blank before)
    (hmember : Spells member.2 (member.2.print depth))
    (hmembers : ∀ m ∈ members, Spells m.2 (m.2.print depth)) (ha : Blank after) :
    SpellsMembers (member :: members)
      (before ++ (printText member.1 ++ (": ".toList ++ (member.2.print depth ++
        (printMembers depth members ++ after))))) := by
  have hspace : Blank [' '] := by
    intro c hc
    rw [List.mem_singleton.mp hc]
    rfl
  induction members generalizing member before with
  | nil =>
    have h := SpellsMembers.last (spellsName_print member.1 hb) hspace hmember ha
    simpa [printMembers] using h
  | cons next members ih =>
    obtain ⟨hnext, hmembers⟩ := List.forall_mem_cons.mp hmembers
    have h := SpellsMembers.cons (spellsName_print member.1 hb) hspace hmember .nil
      (ih (blank_newLine depth) hnext hmembers)
    simpa [printMembers] using h

/-- **A printed value is spelled as the grammar has it**, if its numbers are. -/
theorem Valid.spells_print {v : Json} (h : v.Valid) (depth : Nat) : Spells v (v.print depth) := by
  induction h generalizing depth with
  | null => exact .null
  | bool b => exact .bool b
  | number h => exact .number h
  | string text =>
    obtain ⟨cs, htext, hprint⟩ := exists_spellsText_printText text
    show Spells _ (printText text)
    rw [hprint]
    exact .string htext
  | @array items h ih =>
    cases items with
    | nil => exact .emptyArray .nil
    | cons item items =>
      obtain ⟨hitem, hitems⟩ := List.forall_mem_cons.mp ih
      have hbody := spellsItems_printItems (blank_newLine (depth + 1)) (hitem (depth + 1))
        (fun i hi => hitems i hi (depth + 1)) (blank_newLine depth)
      simpa [print] using Spells.array hbody
  | @object members h ih =>
    cases members with
    | nil => exact .emptyObject .nil
    | cons member members =>
      obtain ⟨hmember, hmembers⟩ := List.forall_mem_cons.mp ih
      have hbody := spellsMembers_printMembers (blank_newLine (depth + 1)) (hmember (depth + 1))
        (fun m hm => hmembers m hm (depth + 1)) (blank_newLine depth)
      simpa [print] using Spells.object hbody

end Json

end AutomaticMachine
