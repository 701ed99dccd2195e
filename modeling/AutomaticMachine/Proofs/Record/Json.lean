/-
Step records survive being written and read.

The writer gives a record as an object with its fields in order, the reader
asks for each field by its name.  A step is read as a number of 64 bits, so
what has to be known of the records is that their steps fit.

* `Json.word?_ofNat`        — a number and its digits;
* `Record.ofValues?_values` — the values of the fields, however the running state is written;
* `Record.ofJson?_toJson`   — one record and its object;
* `Record.write_round_trip` — the main statement, on the text of a list of records.
-/
import AutomaticMachine.Proofs.Entrywise
import AutomaticMachine.Proofs.Json.Printed
import AutomaticMachine.Proofs.Json.Reading
import AutomaticMachine.Record.Json

namespace AutomaticMachine

theorem RunningState.ofName?_name (state : RunningState) : ofName? state.name = some state := by
  cases state <;> rfl

namespace Json

/-! ### Numbers -/

theorem isDigits_toDigits (n : Nat) : IsDigits (Nat.toDigits 10 n) :=
  ⟨Nat.toDigits_ne_nil, fun _ hc => Nat.isDigit_of_mem_toDigits (by omega) (by omega) hc⟩

theorem decimalValue_toDigits (n : Nat) : decimalValue (Nat.toDigits 10 n) = n := by
  have h := Nat.ofDigitChars_ten_toDigits (n := n)
  rwa [Nat.ofDigitChars_eq_foldl] at h

/-- Only zero is written with a zero in front. -/
theorem exists_toDigits_eq_cons {n : Nat} (hn : 0 < n) :
    ∃ c cs, Nat.toDigits 10 n = c :: cs ∧ c ≠ '0' := by
  induction n using Nat.strong_induction_on with
  | _ n ih =>
    by_cases hlt : n < 10
    · refine ⟨Nat.digitChar n, [], Nat.toDigits_of_lt_base hlt, ?_⟩
      have hall : ∀ k < 10, 0 < k → Nat.digitChar k ≠ '0' := by
        decide
      exact hall n hlt hn
    · obtain ⟨c, cs, hdigits, hc⟩ := ih (n / 10) (by omega) (by omega)
      refine ⟨c, cs ++ [Nat.digitChar (n % 10)], ?_, hc⟩
      rw [Nat.toDigits_of_base_le (by omega) (by omega), hdigits]
      rfl

theorem isNumber_toDigits (n : Nat) : IsNumber (Nat.toDigits 10 n) := by
  have hwhole : IsWhole (Nat.toDigits 10 n) := by
    rcases Nat.eq_zero_or_pos n with rfl | hn
    · exact .zero
    · have h := isDigits_toDigits n
      obtain ⟨c, cs, hdigits, hc⟩ := exists_toDigits_eq_cons hn
      rw [hdigits] at h ⊢
      exact .digits h hc
  have h := IsNumber.unsigned hwhole .none .none
  rwa [List.append_nil, List.append_nil] at h

theorem word?_ofNat {n : Nat} (h : n < wordBound) : word? (ofNat n) = some n := by
  have hdigits : (Nat.toDigits 10 n).all Char.isDigit :=
    List.all_eq_true.mpr (isDigits_toDigits n).2
  rw [ofNat, word?, decimalValue_toDigits, if_pos ⟨hdigits, h⟩]

/-! ### Other fields -/

theorem textOrNull?_ofOption (text : Option String) : textOrNull? (ofOption text) = some text := by
  cases text <;> rfl

theorem texts?_array_ofString (texts : List String) :
    texts? (.array (texts.map ofString)) = some texts :=
  mapM_map_eq_some fun _ _ => rfl

theorem Valid.ofOption (text : Option String) : Valid (ofOption text) := by
  cases text with
  | none => exact .null
  | some s => exact .string (some s)

end Json

namespace Record

/-! ### One record -/

/-- The names of the fields of a record in their order. -/
def fieldNames : List String :=
  ["step", "running_state", "configuration", "next_configuration", "operation",
    "pending_operations", "tape"]

/-- The values of the fields in their order, with a running state as it is written. -/
def values (r : Record) (state : Json) : List Json :=
  [.ofNat r.step, state, .ofString r.configuration, .ofString r.nextConfiguration,
    .ofOption r.operation, .array (r.pendingOperations.map .ofString), .ofString r.tape]

/-- The fields with their names. -/
def fields (r : Record) (state : Json) : List (Option String × Json) :=
  (fieldNames.map some).zip (r.values state)

theorem toJson_eq (r : Record) : r.toJson = .object (r.fields (.ofString r.runningState.name)) :=
  rfl

theorem valid_values (r : Record) {state : Json} (hs : state.Valid) :
    ∀ value ∈ r.values state, value.Valid := by
  have hpending : (Json.array (r.pendingOperations.map .ofString)).Valid := by
    refine .array ?_
    intro item hitem
    obtain ⟨s, -, rfl⟩ := List.mem_map.mp hitem
    exact .string (some s)
  simp only [values, List.forall_mem_cons]
  exact ⟨.number (Json.isNumber_toDigits r.step), hs, .string _, .string _, .ofOption _, hpending,
    .string _, fun _ h => nomatch h⟩

theorem valid_fields (r : Record) {state : Json} (hs : state.Valid) :
    ∀ member ∈ r.fields state, member.2.Valid :=
  fun _ hmember => r.valid_values hs _ (List.of_mem_zip hmember).2

theorem valid_toJson (r : Record) : r.toJson.Valid := by
  rw [toJson_eq]
  exact .object (r.valid_fields (.string _))

/-- The values of a record make up that record, however its running state is written. -/
theorem ofValues?_values {r : Record} {state : Json} (hr : r.step < Json.wordBound)
    (hs : RunningState.ofJson? state = some r.runningState) :
    ofValues? (.ofNat r.step) state (.ofString r.configuration) (.ofString r.nextConfiguration)
      (.ofOption r.operation) (.array (r.pendingOperations.map .ofString)) (.ofString r.tape) =
      some r := by
  rw [ofValues?, Json.word?_ofNat hr, hs, Json.textOrNull?_ofOption, Json.texts?_array_ofString]
  rfl

theorem ofJson?_toJson {r : Record} (h : r.step < Json.wordBound) : ofJson? r.toJson = some r :=
  ofValues?_values h (RunningState.ofName?_name r.runningState)

/-! ### A list of records -/

theorem mapM_ofJson?_map_toJson {records : List Record}
    (h : ∀ r ∈ records, r.step < Json.wordBound) :
    (records.map toJson).mapM ofJson? = some records :=
  mapM_map_eq_some fun r hr => ofJson?_toJson (h r hr)

theorem spells_write (records : List Record) :
    (Json.array (records.map toJson)).Spells (write records).toList := by
  have hvalid : (Json.array (records.map toJson)).Valid := by
    refine .array ?_
    intro item hitem
    obtain ⟨r, -, rfl⟩ := List.mem_map.mp hitem
    exact valid_toJson r
  rw [write, String.toList_ofList]
  exact hvalid.spells_print 0

/-- **Records are read back as they were written**, whatever texts there are in them, if every
step fits into 64 bits; and what is written is JSON text. -/
theorem write_round_trip {records : List Record} (h : ∀ r ∈ records, r.step < Json.wordBound) :
    (Json.array (records.map toJson)).Spells (write records).toList ∧
      read? (write records) = some records := by
  have hspells := spells_write records
  refine ⟨hspells, ?_⟩
  have hread := Json.Spells.read .nil hspells .nil
  rw [List.nil_append, List.append_nil] at hread
  rw [read?, hread]
  exact mapM_ofJson?_map_toJson h

/-- Texts with quotes, brackets and control characters, the greatest step there is, and lists and
options without content. -/
theorem write_round_trip_escaped :
    let records : List Record := [
      { step := 18446744073709551615
        runningState := .paused
        configuration := "\x00\x1f\"\\/\n\t"
        nextConfiguration := "]\x7d,\x7b:"
        operation := none
        pendingOperations := []
        tape := "é∀𝄞" },
      { step := 0
        runningState := .completed
        configuration := ""
        nextConfiguration := "null"
        operation := some "print \""
        pendingOperations := ["", "right"]
        tape := "[_]" }]
    (∀ r ∈ records, r.step < Json.wordBound) ∧ read? (write records) = some records := by
  intro records
  have hsteps : ∀ r ∈ records, r.step < Json.wordBound := by
    decide
  exact ⟨hsteps, (write_round_trip hsteps).2⟩

end Record

end AutomaticMachine
