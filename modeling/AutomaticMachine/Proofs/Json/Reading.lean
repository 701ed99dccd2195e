/-
The reader takes every text of the grammar.

The reader decides by the next character, with blank space skipped, and reads a
number for as long as it goes on.  What has to be shown is that where a value of
the grammar ends the reader stops; for a number this depends on what follows it
(`Ends`).  The fuel bounds how deep the calls nest, and the length of the text
is enough of it.

* `IsNumber.readNumber`, `SpellsText.readText` — the reader on a number and on a text;
* `Spells.readValue`, `SpellsItems.readItems`, `SpellsMembers.readMembers` — on a value, whatever
  follows;
* `Spells.read` — the main statement: a text that spells a value is read as that value.
-/
import AutomaticMachine.Proofs.Json.Grammar
import Mathlib.Data.List.DropRight
import Mathlib.Data.List.TakeDrop
import Mathlib.Data.List.TakeWhile

namespace AutomaticMachine

namespace Json

/-! ### Blank space -/

theorem Blank.skipSpace_append {ws : List Char} (h : Blank ws) (cs : List Char) :
    skipSpace (ws ++ cs) = skipSpace cs :=
  List.dropWhile_append_of_pos h

theorem Blank.skipSpace_eq {ws : List Char} (h : Blank ws) : skipSpace ws = [] :=
  List.dropWhile_eq_nil_iff.mpr h

theorem skipSpace_cons {c : Char} (h : isSpace c = false) (cs : List Char) :
    skipSpace (c :: cs) = c :: cs :=
  List.dropWhile_cons_of_neg (by simp [h])

theorem skipSpace_skipSpace (cs : List Char) : skipSpace (skipSpace cs) = skipSpace cs :=
  List.dropWhile_idempotent isSpace cs

/-! ### Numbers -/

/-- What follows does not go on with digits. -/
def NoDigit (rest : List Char) : Prop := ∀ c ∈ rest.head?, c.isDigit = false

/-- What follows does not go on with a number. -/
def Ends (rest : List Char) : Prop :=
  ∀ c ∈ rest.head?, c.isDigit = false ∧ c ≠ '.' ∧ c ≠ 'e' ∧ c ≠ 'E'

theorem Ends.nil : Ends [] := by
  intro c hc
  exact nomatch hc

theorem Ends.noDigit {rest : List Char} (h : Ends rest) : NoDigit rest :=
  fun c hc => (h c hc).1

theorem Ends.of_cons {c : Char} (rest : List Char)
    (h : c.isDigit = false ∧ c ≠ '.' ∧ c ≠ 'e' ∧ c ≠ 'E') : Ends (c :: rest) := by
  intro d hd
  obtain rfl := Option.some.inj hd
  exact h

theorem Blank.ends_append {ws rest : List Char} (h : Blank ws) (hr : Ends rest) :
    Ends (ws ++ rest) := by
  cases ws with
  | nil => exact hr
  | cons c ws =>
    refine Ends.of_cons _ ?_
    have hc : ((c = ' ' ∨ c = '\t') ∨ c = '\n') ∨ c = '\r' := by
      have hspace := h c (List.mem_cons_self ..)
      simpa [isSpace, or_assoc] using hspace
    rcases hc with ((rfl | rfl) | rfl) | rfl <;> decide

theorem readDigits_append {ds rest : List Char} (h : IsDigits ds) (hr : NoDigit rest) :
    readDigits (ds ++ rest) = some (ds, rest) := by
  obtain ⟨hne, hall⟩ := h
  have hspan : (ds ++ rest).span Char.isDigit = (ds, rest) := by
    rw [List.span_eq_takeWhile_dropWhile, List.takeWhile_append_of_pos hall,
      List.dropWhile_append_of_pos hall]
    cases rest with
    | nil => simp
    | cons c rest =>
      have hc : ¬ c.isDigit = true := by simp [hr c rfl]
      rw [List.takeWhile_cons_of_neg hc, List.dropWhile_cons_of_neg hc, List.append_nil]
  rw [readDigits, hspan]
  cases ds with
  | nil => exact absurd rfl hne
  | cons d ds => rfl

theorem IsWhole.readWhole {whole rest : List Char} (h : IsWhole whole) (hr : NoDigit rest) :
    readWhole (whole ++ rest) = some (whole, rest) := by
  cases h with
  | zero => rfl
  | digits h hc =>
    rw [Json.readWhole, readDigits_append h hr]
    intro rest' heq
    exact hc (List.cons.inj heq).1

theorem IsFraction.readFraction {fraction rest : List Char} (h : IsFraction fraction)
    (hr : NoDigit rest) (hpoint : ∀ c ∈ rest.head?, c ≠ '.') :
    readFraction (fraction ++ rest) = some (fraction, rest) := by
  cases h with
  | none =>
    rw [List.nil_append, Json.readFraction]
    rintro rest' rfl
    exact hpoint '.' rfl rfl
  | digits h =>
    show (readDigits (_ ++ rest)).map _ = _
    rw [readDigits_append h hr]
    rfl

theorem readSign_append {sign ds : List Char} (hs : sign = [] ∨ sign = ['+'] ∨ sign = ['-'])
    (h : IsDigits ds) (rest : List Char) :
    readSign (sign ++ (ds ++ rest)) = (sign, ds ++ rest) := by
  rcases hs with rfl | rfl | rfl
  · obtain ⟨hne, hall⟩ := h
    cases ds with
    | nil => exact absurd rfl hne
    | cons d ds =>
      have hd : d.isDigit := hall d (List.mem_cons_self ..)
      rw [List.nil_append, List.cons_append, readSign]
      · rintro rest' heq
        obtain rfl := (List.cons.inj heq).1
        exact absurd hd (by decide)
      · rintro rest' heq
        obtain rfl := (List.cons.inj heq).1
        exact absurd hd (by decide)
  · rfl
  · rfl

theorem IsExponent.readExponent {exponent rest : List Char} (h : IsExponent exponent)
    (hr : Ends rest) : readExponent (exponent ++ rest) = some (exponent, rest) := by
  cases h with
  | none =>
    cases rest with
    | nil => rfl
    | cons c rest =>
      obtain ⟨-, -, he, hE⟩ := hr c rfl
      exact if_neg (not_or.mpr ⟨he, hE⟩)
  | @digits e sign cs he hs h =>
    rw [List.cons_append, List.cons_append, List.append_assoc, Json.readExponent, if_pos he,
      readSign_append hs h]
    show (readDigits (cs ++ rest)).map _ = _
    rw [readDigits_append h hr.noDigit]
    rfl

theorem IsExponent.head?_append {exponent rest : List Char} (h : IsExponent exponent)
    (hr : Ends rest) : ∀ c ∈ (exponent ++ rest).head?, c.isDigit = false ∧ c ≠ '.' := by
  cases h with
  | none => exact fun c hc => ⟨(hr c hc).1, (hr c hc).2.1⟩
  | digits he hs h =>
    intro c hc
    obtain rfl := Option.some.inj hc
    rcases he with rfl | rfl <;> decide

theorem IsFraction.noDigit_append {fraction rest : List Char} (h : IsFraction fraction)
    (hr : NoDigit rest) : NoDigit (fraction ++ rest) := by
  cases h with
  | none => exact hr
  | digits h =>
    intro c hc
    obtain rfl := Option.some.inj hc
    rfl

theorem readUnsigned_append {whole fraction exponent rest : List Char} (hw : IsWhole whole)
    (hf : IsFraction fraction) (he : IsExponent exponent) (hr : Ends rest) :
    readUnsigned (whole ++ fraction ++ exponent ++ rest) =
      some (whole ++ fraction ++ exponent, rest) := by
  have hexp := he.head?_append hr
  have hfraction : NoDigit (exponent ++ rest) := fun c hc => (hexp c hc).1
  have hwhole : NoDigit (fraction ++ (exponent ++ rest)) := hf.noDigit_append hfraction
  have hpoint : ∀ c ∈ (exponent ++ rest).head?, c ≠ '.' := fun c hc => (hexp c hc).2
  rw [List.append_assoc, List.append_assoc, readUnsigned]
  simp only [hw.readWhole hwhole, hf.readFraction hfraction hpoint, he.readExponent hr,
    Option.bind_eq_bind, Option.bind_some, Option.pure_def]

theorem IsNumber.readNumber {literal rest : List Char} (h : IsNumber literal) (hr : Ends rest) :
    readNumber (literal ++ rest) = some (literal, rest) := by
  cases h with
  | unsigned hw hf he =>
    rw [Json.readNumber]
    · exact readUnsigned_append hw hf he hr
    · obtain ⟨c, cs, rfl, hc⟩ := hw.exists_digit
      intro rest' heq
      obtain rfl := (List.cons.inj heq).1
      exact absurd hc (by decide)
  | negative hw hf he =>
    rw [List.cons_append, Json.readNumber, readUnsigned_append hw hf he hr]
    rfl

/-! ### Texts -/

theorem SpellsPieces.readPieces {pieces : List Piece} {cs : List Char} (h : SpellsPieces pieces cs)
    (rest : List Char) : readPieces (cs ++ '"' :: rest) = some (pieces, rest) := by
  induction h with
  | nil => rw [List.nil_append, Json.readPieces]
  | plain hc hq hb h ih =>
    rw [List.cons_append, Json.readPieces, if_neg (Nat.not_lt.mpr hc), ih]
    · rfl
    · exact hq
    · intro a b c d cs hcs
      exact absurd hcs hb
    · intro c cs hcs
      exact absurd hcs hb
  | @escaped e c pieces cs he h ih =>
    have hu : e ≠ 'u' := by
      rintro rfl
      exact nomatch he
    rw [List.cons_append, List.cons_append, Json.readPieces, he]
    · show (Json.readPieces (cs ++ '"' :: rest)).bind _ = _
      rw [ih]
      rfl
    · intro a b c d cs hcs
      exact absurd hcs hu
  | @unit x y z w code pieces cs hu h ih =>
    show (Json.readPieces ('\\' :: 'u' :: x :: y :: z :: w :: (cs ++ '"' :: rest))) = _
    rw [Json.readPieces, hu]
    show (Json.readPieces (cs ++ '"' :: rest)).bind _ = _
    rw [ih]
    rfl

theorem SpellsText.readText {text : Option String} {cs : List Char} (h : SpellsText text cs)
    (rest : List Char) : readText (cs ++ '"' :: rest) = some (text, rest) := by
  obtain ⟨pieces, hp, rfl⟩ := h
  rw [Json.readText, hp.readPieces]
  rfl

/-! ### Skipping before a reader is skipping in it -/

theorem readValue_skipSpace (fuel : Nat) (cs : List Char) :
    readValue fuel (skipSpace cs) = readValue fuel cs := by
  cases fuel with
  | zero => rfl
  | succ fuel => rw [readValue, readValue, skipSpace_skipSpace]

theorem readItems_skipSpace (fuel : Nat) (cs : List Char) :
    readItems fuel (skipSpace cs) = readItems fuel cs := by
  cases fuel with
  | zero => rfl
  | succ fuel => rw [readItems, readItems, readValue_skipSpace]

theorem readMembers_skipSpace (fuel : Nat) (cs : List Char) :
    readMembers fuel (skipSpace cs) = readMembers fuel cs := by
  cases fuel with
  | zero => rfl
  | succ fuel => rw [readMembers, readMembers, skipSpace_skipSpace]

theorem readValue_number {c : Char} (hc : c.isDigit ∨ c = '-') (fuel : Nat) (cs : List Char) :
    readValue (fuel + 1) (c :: cs) =
      (readNumber (c :: cs)).map fun (literal, rest) => (number literal, rest) := by
  have hspace : skipSpace (c :: cs) = c :: cs := by
    refine skipSpace_cons ?_ cs
    rcases hc with hc | rfl
    · exact isSpace_of_isDigit hc
    · rfl
  have hne : ∀ {d : Char} {ds : List Char}, d.isDigit = false → d ≠ '-' → c :: cs ≠ d :: ds := by
    rintro d ds hd hm heq
    obtain rfl := (List.cons.inj heq).1
    rcases hc with hc | rfl
    · rw [hd] at hc
      exact nomatch hc
    · exact hm rfl
  rw [readValue, hspace]
  split
  · exact absurd ‹_› (hne rfl (by decide))
  · exact absurd ‹_› (hne rfl (by decide))
  · exact absurd ‹_› (hne rfl (by decide))
  · exact absurd ‹_› (hne rfl (by decide))
  · exact absurd ‹_› (hne rfl (by decide))
  · exact absurd ‹_› (hne rfl (by decide))
  · rfl

/-! ### The reader where an item or a member has been read -/

/-- What the reader finds where the name of a member stands. -/
theorem SpellsName.exists_readText {name : Option String} {ns : List Char}
    (h : SpellsName name ns) (cs : List Char) :
    ∃ text after, skipSpace (ns ++ cs) = '"' :: text ∧ readText text = some (name, after) ∧
      skipSpace after = ':' :: cs := by
  obtain ⟨before, text, between, hb, ht, hm, rfl⟩ := h
  refine ⟨text ++ '"' :: (between ++ ':' :: cs), between ++ ':' :: cs, ?_, ht.readText _, ?_⟩
  · rw [List.append_assoc, hb.skipSpace_append, List.cons_append, skipSpace_cons rfl]
    simp
  · rw [hm.skipSpace_append, skipSpace_cons rfl]

section

variable {fuel : Nat} {item value : Json} {items : List Json} {name : Option String}
  {members : List (Option String × Json)} {c : Char} {cs ns tail rest rest' after : List Char}

theorem readItems_last (h : readValue fuel cs = some (item, rest))
    (hs : skipSpace rest = ']' :: rest') : readItems (fuel + 1) cs = some ([item], rest') := by
  simp only [readItems, h, hs, Option.bind_eq_bind, Option.bind_some, Option.pure_def]

theorem readItems_cons (h : readValue fuel cs = some (item, rest))
    (hs : skipSpace rest = ',' :: rest') (hitems : readItems fuel rest' = some (items, after)) :
    readItems (fuel + 1) cs = some (item :: items, after) := by
  simp only [readItems, h, hs, hitems, Option.bind_eq_bind, Option.bind_some, Option.pure_def]

theorem readMembers_last (hn : SpellsName name ns) (h : readValue fuel cs = some (value, rest))
    (hs : skipSpace rest = '}' :: rest') :
    readMembers (fuel + 1) (ns ++ cs) = some ([(name, value)], rest') := by
  obtain ⟨text, after, hname, htext, hcolon⟩ := hn.exists_readText cs
  simp only [readMembers, hname, htext, hcolon, h, hs, Option.bind_eq_bind, Option.bind_some,
    Option.pure_def]

theorem readMembers_cons (hn : SpellsName name ns) (h : readValue fuel cs = some (value, rest))
    (hs : skipSpace rest = ',' :: rest')
    (hmembers : readMembers fuel rest' = some (members, after)) :
    readMembers (fuel + 1) (ns ++ cs) = some ((name, value) :: members, after) := by
  obtain ⟨text, after, hname, htext, hcolon⟩ := hn.exists_readText cs
  simp only [readMembers, hname, htext, hcolon, h, hs, hmembers, Option.bind_eq_bind,
    Option.bind_some, Option.pure_def]

theorem readValue_emptyArray (hs : skipSpace cs = ']' :: rest) :
    readValue (fuel + 1) ('[' :: cs) = some (array [], rest) := by
  have hopen : skipSpace ('[' :: cs) = '[' :: cs := skipSpace_cons rfl cs
  simp only [readValue, hopen, hs]

theorem readValue_emptyObject (hs : skipSpace cs = '}' :: rest) :
    readValue (fuel + 1) ('{' :: cs) = some (object [], rest) := by
  have hopen : skipSpace ('{' :: cs) = '{' :: cs := skipSpace_cons rfl cs
  simp only [readValue, hopen, hs]

theorem readValue_array (hs : skipSpace cs = c :: tail) (hc : c ≠ ']')
    (hitems : readItems fuel cs = some (items, rest)) :
    readValue (fuel + 1) ('[' :: cs) = some (array items, rest) := by
  have hopen : skipSpace ('[' :: cs) = '[' :: cs := skipSpace_cons rfl cs
  rw [← readItems_skipSpace, hs] at hitems
  simp only [readValue, hopen, hs]
  split
  · next heq => exact absurd (List.cons.inj heq).1 hc
  · rw [hitems]
    rfl

theorem readValue_object (hs : skipSpace cs = c :: tail) (hc : c ≠ '}')
    (hmembers : readMembers fuel cs = some (members, rest)) :
    readValue (fuel + 1) ('{' :: cs) = some (object members, rest) := by
  have hopen : skipSpace ('{' :: cs) = '{' :: cs := skipSpace_cons rfl cs
  rw [← readMembers_skipSpace, hs] at hmembers
  simp only [readValue, hopen, hs]
  split
  · next heq => exact absurd (List.cons.inj heq).1 hc
  · rw [hmembers]
    rfl

end

/-- The blank space before the first item is skipped, and the list is not closed there. -/
theorem SpellsItems.exists_skipSpace {items : List Json} {cs : List Char}
    (h : SpellsItems items cs) (rest : List Char) :
    ∃ c tail, skipSpace (cs ++ rest) = c :: tail ∧ c ≠ ']' := by
  cases h with
  | last hb h ha =>
    obtain ⟨c, tail, rfl, hspace, hc⟩ := h.exists_head
    rw [List.append_assoc, hb.skipSpace_append]
    exact ⟨c, _, skipSpace_cons hspace _, hc⟩
  | cons hb h ha hs =>
    obtain ⟨c, tail, rfl, hspace, hc⟩ := h.exists_head
    rw [List.append_assoc, hb.skipSpace_append]
    exact ⟨c, _, skipSpace_cons hspace _, hc⟩

theorem SpellsMembers.exists_skipSpace {members : List (Option String × Json)} {cs : List Char}
    (h : SpellsMembers members cs) (rest : List Char) :
    ∃ tail, skipSpace (cs ++ rest) = '"' :: tail := by
  cases h with
  | last hn hb h ha =>
    obtain ⟨text, -, hname, -⟩ := hn.exists_readText _
    rw [List.append_assoc]
    exact ⟨text, hname⟩
  | cons hn hb h ha hs =>
    obtain ⟨text, -, hname, -⟩ := hn.exists_readText _
    rw [List.append_assoc]
    exact ⟨text, hname⟩

/-! ### The reader on a value -/

-- By induction on how the text is spelled.  A list has a bracket and an item a comma more than
-- what is in them, so the length of the text bounds the fuel that is needed.
mutual

theorem Spells.readValue {v : Json} {cs : List Char} (h : Spells v cs) {fuel : Nat}
    {before rest : List Char} (hb : Blank before) (hr : Ends rest) (hf : cs.length ≤ fuel) :
    readValue fuel (before ++ (cs ++ rest)) = some (v, rest) := by
  rw [← readValue_skipSpace, hb.skipSpace_append, readValue_skipSpace]
  obtain ⟨fuel, rfl⟩ : ∃ n, fuel = n + 1 := by
    obtain ⟨c, tail, rfl, -⟩ := h.exists_head
    exact ⟨fuel - 1, by rw [List.length_cons] at hf; omega⟩
  cases h with
  | null => rfl
  | bool b => cases b <;> rfl
  | number h =>
    obtain ⟨c, cs, rfl, hc⟩ := h.exists_head
    rw [List.cons_append, readValue_number hc, ← List.cons_append, h.readNumber hr]
    rfl
  | @string text cs h =>
    show (Json.readText (cs ++ ['"'] ++ rest)).map _ = _
    rw [List.append_assoc, List.cons_append, List.nil_append, h.readText]
    rfl
  | @emptyArray ws hw =>
    have hs : skipSpace (ws ++ [']'] ++ rest) = ']' :: rest := by
      rw [List.append_assoc, hw.skipSpace_append]
      exact skipSpace_cons rfl rest
    exact readValue_emptyArray hs
  | @array items cs h =>
    rw [List.length_cons, List.length_append, List.length_singleton] at hf
    obtain ⟨c, tail, hs, hc⟩ := h.exists_skipSpace (']' :: rest)
    rw [List.cons_append, List.append_assoc]
    exact readValue_array hs hc (h.readItems rest (by omega))
  | @emptyObject ws hw =>
    have hs : skipSpace (ws ++ ['}'] ++ rest) = '}' :: rest := by
      rw [List.append_assoc, hw.skipSpace_append]
      exact skipSpace_cons rfl rest
    exact readValue_emptyObject hs
  | @object members cs h =>
    rw [List.length_cons, List.length_append, List.length_singleton] at hf
    obtain ⟨tail, hs⟩ := h.exists_skipSpace ('}' :: rest)
    rw [List.cons_append, List.append_assoc]
    exact readValue_object hs (by decide) (h.readMembers rest (by omega))

theorem SpellsItems.readItems {items : List Json} {cs : List Char} (h : SpellsItems items cs)
    {fuel : Nat} (rest : List Char) (hf : cs.length < fuel) :
    readItems fuel (cs ++ ']' :: rest) = some (items, rest) := by
  obtain ⟨fuel, rfl⟩ : ∃ n, fuel = n + 1 := ⟨fuel - 1, by omega⟩
  cases h with
  | @last item before cs after hb h ha =>
    simp only [List.length_append] at hf
    have hends : Ends (after ++ ']' :: rest) := ha.ends_append (.of_cons _ (by decide))
    have hs : skipSpace (after ++ ']' :: rest) = ']' :: rest := by
      rw [ha.skipSpace_append, skipSpace_cons rfl]
    rw [List.append_assoc, List.append_assoc]
    exact readItems_last (h.readValue hb hends (by omega)) hs
  | @cons item items before cs after more hb h ha hmore =>
    simp only [List.length_append, List.length_cons] at hf
    have hends : Ends (after ++ ',' :: (more ++ ']' :: rest)) :=
      ha.ends_append (.of_cons _ (by decide))
    have hs : skipSpace (after ++ ',' :: (more ++ ']' :: rest)) = ',' :: (more ++ ']' :: rest) := by
      rw [ha.skipSpace_append, skipSpace_cons rfl]
    rw [List.append_assoc, List.append_assoc, List.append_assoc, List.cons_append]
    exact readItems_cons (h.readValue hb hends (by omega)) hs
      (hmore.readItems rest (by omega))

theorem SpellsMembers.readMembers {members : List (Option String × Json)} {cs : List Char}
    (h : SpellsMembers members cs) {fuel : Nat} (rest : List Char) (hf : cs.length < fuel) :
    readMembers fuel (cs ++ '}' :: rest) = some (members, rest) := by
  obtain ⟨fuel, rfl⟩ : ∃ n, fuel = n + 1 := ⟨fuel - 1, by omega⟩
  cases h with
  | @last name value ns before cs after hn hb h ha =>
    simp only [List.length_append] at hf
    have hends : Ends (after ++ '}' :: rest) := ha.ends_append (.of_cons _ (by decide))
    have hs : skipSpace (after ++ '}' :: rest) = '}' :: rest := by
      rw [ha.skipSpace_append, skipSpace_cons rfl]
    rw [List.append_assoc, List.append_assoc, List.append_assoc]
    exact readMembers_last hn (h.readValue hb hends (by omega)) hs
  | @cons name value members ns before cs after more hn hb h ha hmore =>
    simp only [List.length_append, List.length_cons] at hf
    have hends : Ends (after ++ ',' :: (more ++ '}' :: rest)) :=
      ha.ends_append (.of_cons _ (by decide))
    have hs : skipSpace (after ++ ',' :: (more ++ '}' :: rest)) = ',' :: (more ++ '}' :: rest) := by
      rw [ha.skipSpace_append, skipSpace_cons rfl]
    rw [List.append_assoc, List.append_assoc, List.append_assoc, List.append_assoc,
      List.cons_append]
    exact readMembers_cons hn (h.readValue hb hends (by omega)) hs
      (hmore.readMembers rest (by omega))

end

/-- **A text that spells a value is read as that value**, with any blank space around it. -/
theorem Spells.read {v : Json} {before cs after : List Char} (hb : Blank before)
    (h : Spells v cs) (ha : Blank after) : read (before ++ (cs ++ after)) = some v := by
  have hends : Ends after := by
    have := ha.ends_append Ends.nil
    rwa [List.append_nil] at this
  have hlen : cs.length ≤ (before ++ (cs ++ after)).length + 1 := by
    simp only [List.length_append]
    omega
  rw [Json.read, h.readValue hb hends hlen]
  show (if (skipSpace after).isEmpty then some v else none) = _
  rw [ha.skipSpace_eq]
  rfl

end Json

end AutomaticMachine
