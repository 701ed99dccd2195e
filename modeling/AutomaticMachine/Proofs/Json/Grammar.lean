/-
The grammar of JSON text.

`Json.Spells v cs` says that the characters `cs`, without blank space before
or after them, are a way to write the value `v`.  Between tokens there may be
any blank space, and a text may be escaped wherever its author likes; a number
is the value of its own characters.  Nothing here says how a text is read.

* `IsNumber`, `SpellsText` — numbers, and what is between the quotes of a text;
* `Spells`, `SpellsItems`, `SpellsMembers` — values, lists and objects;
* `Spells.exists_head`     — a value begins with a character of its own.
-/
import AutomaticMachine.Json.Reader

namespace AutomaticMachine

namespace Json

/-! ### Blank space -/

def Blank (cs : List Char) : Prop := ∀ c ∈ cs, isSpace c

theorem Blank.nil : Blank [] := by
  intro c hc
  exact nomatch hc

theorem isSpace_of_isDigit {c : Char} (h : c.isDigit) : isSpace c = false := by
  have hne : ∀ {d : Char}, d.isDigit = false → c ≠ d := by
    rintro d hd rfl
    rw [hd] at h
    exact nomatch h
  simp [isSpace, hne]

/-! ### Numbers -/

/-- One digit at least. -/
def IsDigits (cs : List Char) : Prop := cs ≠ [] ∧ ∀ c ∈ cs, c.isDigit

/-- The whole part of a number: no zero stands before another digit. -/
inductive IsWhole : List Char → Prop
  | zero : IsWhole ['0']
  | digits {c : Char} {cs : List Char} (h : IsDigits (c :: cs)) (hc : c ≠ '0') : IsWhole (c :: cs)

inductive IsFraction : List Char → Prop
  | none : IsFraction []
  | digits {cs : List Char} (h : IsDigits cs) : IsFraction ('.' :: cs)

inductive IsExponent : List Char → Prop
  | none : IsExponent []
  | digits {e : Char} {sign cs : List Char} (he : e = 'e' ∨ e = 'E')
      (hs : sign = [] ∨ sign = ['+'] ∨ sign = ['-']) (h : IsDigits cs) :
      IsExponent (e :: sign ++ cs)

inductive IsNumber : List Char → Prop
  | unsigned {whole fraction exponent : List Char} (hw : IsWhole whole) (hf : IsFraction fraction)
      (he : IsExponent exponent) : IsNumber (whole ++ fraction ++ exponent)
  | negative {whole fraction exponent : List Char} (hw : IsWhole whole)
      (hf : IsFraction fraction) (he : IsExponent exponent) :
      IsNumber ('-' :: (whole ++ fraction ++ exponent))

theorem IsWhole.exists_digit {whole : List Char} (h : IsWhole whole) :
    ∃ c cs, whole = c :: cs ∧ c.isDigit := by
  cases h with
  | zero => exact ⟨'0', [], rfl, rfl⟩
  | @digits c cs h hc => exact ⟨c, cs, rfl, h.2 c (List.mem_cons_self ..)⟩

/-- A number can be told from other values by its first character. -/
theorem IsNumber.exists_head {literal : List Char} (h : IsNumber literal) :
    ∃ c cs, literal = c :: cs ∧ (c.isDigit ∨ c = '-') := by
  cases h with
  | unsigned hw hf he =>
    obtain ⟨c, cs, rfl, hc⟩ := hw.exists_digit
    exact ⟨c, _, rfl, .inl hc⟩
  | negative hw hf he => exact ⟨'-', _, rfl, .inr rfl⟩

/-! ### Texts -/

/-- The characters between the quotes of a text, with what they stand for piece by piece. -/
inductive SpellsPieces : List Piece → List Char → Prop
  | nil : SpellsPieces [] []
  | plain {c : Char} {pieces : List Piece} {cs : List Char} (hc : 32 ≤ c.toNat) (hq : c ≠ '"')
      (hb : c ≠ '\\') (h : SpellsPieces pieces cs) : SpellsPieces (.char c :: pieces) (c :: cs)
  | escaped {e c : Char} {pieces : List Piece} {cs : List Char} (he : escaped? e = some c)
      (h : SpellsPieces pieces cs) : SpellsPieces (.char c :: pieces) ('\\' :: e :: cs)
  | unit {x y z w : Char} {code : Nat} {pieces : List Piece} {cs : List Char}
      (hu : unit? x y z w = some code) (h : SpellsPieces pieces cs) :
      SpellsPieces (.unit code :: pieces) ('\\' :: 'u' :: x :: y :: z :: w :: cs)

/-- A text between quotes.  Half of a surrogate pair is well formed and stands for nothing. -/
def SpellsText (text : Option String) (cs : List Char) : Prop :=
  ∃ pieces, SpellsPieces pieces cs ∧ text = (join? pieces).map String.ofList

/-! ### Values -/

/-- The name of a member with the blank space around it and its colon. -/
def SpellsName (name : Option String) (cs : List Char) : Prop :=
  ∃ before text between, Blank before ∧ SpellsText name text ∧ Blank between ∧
    cs = before ++ '"' :: (text ++ '"' :: (between ++ [':']))

mutual

/-- A value without blank space around it. -/
inductive Spells : Json → List Char → Prop
  | null : Spells .null "null".toList
  | bool (b : Bool) : Spells (.bool b) (if b then "true" else "false").toList
  | number {literal : List Char} (h : IsNumber literal) : Spells (.number literal) literal
  | string {text : Option String} {cs : List Char} (h : SpellsText text cs) :
      Spells (.string text) ('"' :: (cs ++ ['"']))
  | emptyArray {ws : List Char} (hw : Blank ws) : Spells (.array []) ('[' :: (ws ++ [']']))
  | array {items : List Json} {cs : List Char} (h : SpellsItems items cs) :
      Spells (.array items) ('[' :: (cs ++ [']']))
  | emptyObject {ws : List Char} (hw : Blank ws) : Spells (.object []) ('{' :: (ws ++ ['}']))
  | object {members : List (Option String × Json)} {cs : List Char}
      (h : SpellsMembers members cs) : Spells (.object members) ('{' :: (cs ++ ['}']))

/-- The items of a list, one at least, with the blank space around them. -/
inductive SpellsItems : List Json → List Char → Prop
  | last {item : Json} {before cs after : List Char} (hb : Blank before) (h : Spells item cs)
      (ha : Blank after) : SpellsItems [item] (before ++ (cs ++ after))
  | cons {item : Json} {items : List Json} {before cs after rest : List Char} (hb : Blank before)
      (h : Spells item cs) (ha : Blank after) (hs : SpellsItems items rest) :
      SpellsItems (item :: items) (before ++ (cs ++ (after ++ ',' :: rest)))

/-- The members of an object, one at least, with the blank space around them. -/
inductive SpellsMembers : List (Option String × Json) → List Char → Prop
  | last {name : Option String} {value : Json} {ns before cs after : List Char}
      (hn : SpellsName name ns) (hb : Blank before) (h : Spells value cs) (ha : Blank after) :
      SpellsMembers [(name, value)] (ns ++ (before ++ (cs ++ after)))
  | cons {name : Option String} {value : Json} {members : List (Option String × Json)}
      {ns before cs after rest : List Char} (hn : SpellsName name ns) (hb : Blank before)
      (h : Spells value cs) (ha : Blank after) (hs : SpellsMembers members rest) :
      SpellsMembers ((name, value) :: members)
        (ns ++ (before ++ (cs ++ (after ++ ',' :: rest))))

end

/-- A value begins with a character that neither is skipped nor closes a list. -/
theorem Spells.exists_head {v : Json} {cs : List Char} (h : Spells v cs) :
    ∃ c tail, cs = c :: tail ∧ isSpace c = false ∧ c ≠ ']' := by
  cases h with
  | null => exact ⟨'n', _, rfl, rfl, by decide⟩
  | bool b =>
    cases b with
    | false => exact ⟨'f', _, rfl, rfl, by decide⟩
    | true => exact ⟨'t', _, rfl, rfl, by decide⟩
  | number h =>
    obtain ⟨c, cs, rfl, hc | rfl⟩ := h.exists_head
    · refine ⟨c, cs, rfl, isSpace_of_isDigit hc, ?_⟩
      rintro rfl
      exact absurd hc (by decide)
    · exact ⟨'-', cs, rfl, rfl, by decide⟩
  | string h => exact ⟨'"', _, rfl, rfl, by decide⟩
  | emptyArray hw => exact ⟨'[', _, rfl, rfl, by decide⟩
  | array h => exact ⟨'[', _, rfl, rfl, by decide⟩
  | emptyObject hw => exact ⟨'{', _, rfl, rfl, by decide⟩
  | object h => exact ⟨'{', _, rfl, rfl, by decide⟩

end Json

end AutomaticMachine
