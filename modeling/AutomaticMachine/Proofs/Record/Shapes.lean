/-
Records are read from every shape that they may be written in.

A record has two layouts: an object, with its fields in any order among others
that mean nothing, and the list of its seven values.  A running state has two
of its own.  `Record.Shape` holds all of them, `Record.Defective` what is no
record because of its fields, whatever their values are.  How a text is spelled
is left to the grammar, so blank space and escapes are free everywhere.

* `Json.member?_of_perm` — members are looked up regardless of their order;
* `Shape.ofJson?`        — every shape of a record is read as that record;
* `Defective.ofJson?`    — what is defective is not read;
* `read?_every_shape`    — the main statement, on the text of a list of records.
-/
import AutomaticMachine.Proofs.Record.Json
import Mathlib.Data.List.Duplicate

namespace AutomaticMachine

namespace Json

/-- The text is a way to write the value, with any blank space around it. -/
def WrittenAs (v : Json) (text : String) : Prop :=
  ∃ before cs after, Blank before ∧ Spells v cs ∧ Blank after ∧
    text.toList = before ++ (cs ++ after)

theorem WrittenAs.read {v : Json} {text : String} (h : v.WrittenAs text) :
    Json.read text.toList = some v := by
  obtain ⟨before, cs, after, hb, hs, ha, htext⟩ := h
  rw [htext]
  exact hs.read hb ha

theorem Valid.writtenAs_print {v : Json} (h : v.Valid) (depth : Nat) :
    v.WrittenAs (String.ofList (v.print depth)) := by
  refine ⟨[], v.print depth, [], .nil, h.spells_print depth, .nil, ?_⟩
  rw [String.toList_ofList, List.nil_append, List.append_nil]

/-! ### Members -/

section

variable {members others : List (Option String × Json)} {name : String}

/-- The order of the members does not matter. -/
theorem member?_of_perm {members' : List (Option String × Json)} (h : members.Perm members') :
    member? members name = member? members' name := by
  have hfilter := h.filter fun member => member.1 == some name
  rw [member?, member?]
  generalize members.filter (fun member => member.1 == some name) = found at hfilter
  generalize members'.filter (fun member => member.1 == some name) = found' at hfilter
  match found', found with
  | [], _ => rw [hfilter.eq_nil]
  | [_], _ => rw [List.perm_singleton.mp hfilter]
  | _ :: _ :: _, [] => exact absurd hfilter.symm.eq_nil (by simp)
  | _ :: _ :: _, [_] => exact absurd hfilter.length_eq (by simp)
  | _ :: _ :: _, _ :: _ :: _ => rfl

/-- Members with other names do not matter. -/
theorem member?_append_of_ne (h : ∀ member ∈ others, member.1 ≠ some name) :
    member? (members ++ others) name = member? members name := by
  have hothers : others.filter (fun member => member.1 == some name) = [] := by
    simpa [List.filter_eq_nil_iff] using h
  rw [member?, member?, List.filter_append, hothers, List.append_nil]

theorem member?_eq_some_none (h : ∀ member ∈ members, member.1 ≠ some name) :
    member? members name = some none := by
  have hnone : members.filter (fun member => member.1 == some name) = [] := by
    simpa [List.filter_eq_nil_iff] using h
  rw [member?, hnone]

/-- A member that is repeated is not found. -/
theorem member?_eq_none (h : List.Duplicate (some name) (members.map Prod.fst)) :
    member? members name = none := by
  have hfilter := (List.duplicate_iff_sublist.mp h).filter fun x => x == some name
  rw [List.filter_map] at hfilter
  have h : 2 ≤ (members.filter fun member => member.1 == some name).length := by
    simpa [Function.comp_def] using hfilter.length_le
  rw [member?]
  generalize members.filter (fun member => member.1 == some name) = found at h
  match found with
  | [] => simp at h
  | [_] => simp at h
  | _ :: _ :: _ => rfl

end

end Json

namespace Record

/-! ### Layouts -/

/-- A running state is written as its name or as the one member, with value null, of an object. -/
inductive StateShape (state : RunningState) : Json → Prop
  | name : StateShape state (.ofString state.name)
  | member : StateShape state (.object [(some state.name, .null)])

/-- The name of a member is a text other than the names of fields. -/
def IsOther (member : Option String × Json) : Prop :=
  ∃ name, member.1 = some name ∧ name ∉ fieldNames

/-- The shapes that a record may be written in. -/
inductive Shape (r : Record) : Json → Prop
  /-- An object has the fields in any order among other members. -/
  | object {state : Json} {others members : List (Option String × Json)}
      (hs : StateShape r.runningState state) (ho : ∀ member ∈ others, IsOther member)
      (hm : members.Perm (r.fields state ++ others)) : Shape r (.object members)
  /-- An operation that there is none of can be left out of an object. -/
  | withoutOperation {state : Json} {others members : List (Option String × Json)}
      (hn : r.operation = none) (hs : StateShape r.runningState state)
      (ho : ∀ member ∈ others, IsOther member)
      (hm : members.Perm ((r.fields state).filter (·.1 ≠ some "operation") ++ others)) :
      Shape r (.object members)
  /-- A list has the values of the fields in their order. -/
  | array {state : Json} (hs : StateShape r.runningState state) : Shape r (.array (r.values state))

/-- What is no record, whatever the values in it are: an object that repeats a field or lacks one
that it must have, and a list with fewer or more than seven values. -/
inductive Defective : Json → Prop
  | repeated {members : List (Option String × Json)} {name : String} (hn : name ∈ fieldNames)
      (h : List.Duplicate (some name) (members.map Prod.fst)) : Defective (.object members)
  | lacking {members : List (Option String × Json)} {name : String} (hn : name ∈ fieldNames)
      (ho : name ≠ "operation") (h : ∀ member ∈ members, member.1 ≠ some name) :
      Defective (.object members)
  | length {items : List Json} (h : items.length ≠ fieldNames.length) : Defective (.array items)

variable {r : Record} {state v : Json} {members members' others : List (Option String × Json)}

/-! ### Reading a shape -/

theorem StateShape.ofJson? {state : RunningState} {v : Json} (h : StateShape state v) :
    RunningState.ofJson? v = some state := by
  cases h with
  | name => exact RunningState.ofName?_name state
  | member => exact RunningState.ofName?_name state

/-- Members other than the fields do not matter, nor does the order of the fields. -/
theorem ofMembers?_of_perm (hf : ∀ member ∈ members', member.1.isSome)
    (ho : ∀ member ∈ others, IsOther member) (hm : members.Perm (members' ++ others)) :
    ofMembers? members = ofMembers? members' := by
  have hothers : ∀ member ∈ others, member.1.isSome := by
    intro member hmember
    obtain ⟨name, hname, -⟩ := ho member hmember
    rw [hname]
    rfl
  have hnames : (members.all fun member => member.1.isSome) = true := by
    rw [List.all_eq_true]
    intro member hmember
    rcases List.mem_append.mp (hm.subset hmember) with h | h
    · exact hf member h
    · exact hothers member h
  have hnames' : (members'.all fun member => member.1.isSome) = true := List.all_eq_true.mpr hf
  have hmember : ∀ name ∈ fieldNames, Json.member? members name = Json.member? members' name := by
    intro name hname
    rw [Json.member?_of_perm hm]
    refine Json.member?_append_of_ne ?_
    intro member hmember heq
    obtain ⟨other, hother, hne⟩ := ho member hmember
    obtain rfl := Option.some.inj (hother.symm.trans heq)
    exact hne hname
  have hrequired : ∀ name ∈ fieldNames,
      Json.requiredMember? members name = Json.requiredMember? members' name :=
    fun name hname => congrArg Option.join (hmember name hname)
  rw [ofMembers?, ofMembers?, hnames, hnames', hrequired "step" (by decide),
    hrequired "running_state" (by decide), hrequired "configuration" (by decide),
    hrequired "next_configuration" (by decide), hmember "operation" (by decide),
    hrequired "pending_operations" (by decide), hrequired "tape" (by decide)]

theorem isSome_of_mem_fields : ∀ member ∈ r.fields state, member.1.isSome := by
  intro member hmember
  obtain ⟨name, -, hname⟩ := List.mem_map.mp (List.of_mem_zip hmember).1
  rw [← hname]
  rfl

/-- **Every shape of a record is read as that record.** -/
theorem Shape.ofJson? (h : Shape r v) (hr : r.step < Json.wordBound) : ofJson? v = some r := by
  cases h with
  | object hs ho hm =>
    refine (ofMembers?_of_perm isSome_of_mem_fields ho hm).trans ?_
    exact ofValues?_values hr hs.ofJson?
  | @withoutOperation state others members hn hs ho hm =>
    have hsome : ∀ member ∈ (r.fields state).filter (·.1 ≠ some "operation"), member.1.isSome :=
      fun member hmember => isSome_of_mem_fields member (List.mem_of_mem_filter hmember)
    refine (ofMembers?_of_perm hsome ho hm).trans ?_
    have hvalues := ofValues?_values hr hs.ofJson?
    rw [hn] at hvalues
    exact hvalues
  | array hs => exact ofValues?_values hr hs.ofJson?

/-! ### Defects -/

/-- An object that is read repeats no field, and lacks none but `operation`. -/
theorem exists_member?_of_ofMembers? (h : ofMembers? members = some r) :
    ∀ name ∈ fieldNames, ∃ value, Json.member? members name = some value ∧
      (name ≠ "operation" → value ≠ none) := by
  have hrequired : ∀ {name : String} {value : Json},
      Json.requiredMember? members name = some value →
        ∃ value, Json.member? members name = some value ∧ (name ≠ "operation" → value ≠ none) := by
    intro name value hvalue
    exact ⟨some value, Option.join_eq_some_iff.mp hvalue, fun _ => Option.some_ne_none value⟩
  rw [ofMembers?] at h
  obtain ⟨-, -, h⟩ := Option.bind_eq_some_iff.mp h
  obtain ⟨step, hstep, h⟩ := Option.bind_eq_some_iff.mp h
  obtain ⟨state, hstate, h⟩ := Option.bind_eq_some_iff.mp h
  obtain ⟨configuration, hconfiguration, h⟩ := Option.bind_eq_some_iff.mp h
  obtain ⟨next, hnext, h⟩ := Option.bind_eq_some_iff.mp h
  obtain ⟨operation, hoperation, h⟩ := Option.bind_eq_some_iff.mp h
  obtain ⟨pending, hpending, h⟩ := Option.bind_eq_some_iff.mp h
  obtain ⟨tape, htape, -⟩ := Option.bind_eq_some_iff.mp h
  simp only [fieldNames, List.forall_mem_cons]
  exact ⟨hrequired hstep, hrequired hstate, hrequired hconfiguration, hrequired hnext,
    ⟨operation, hoperation, fun h => absurd rfl h⟩, hrequired hpending, hrequired htape,
    fun _ h => nomatch h⟩

/-- **What is defective is not read.** -/
theorem Defective.ofJson? (h : Defective v) : ofJson? v = none := by
  rw [Option.eq_none_iff_forall_ne_some]
  intro r hr
  cases h with
  | repeated hn hd =>
    obtain ⟨value, hvalue, -⟩ := exists_member?_of_ofMembers? hr _ hn
    rw [Json.member?_eq_none hd] at hvalue
    exact nomatch hvalue
  | lacking hn ho hl =>
    obtain ⟨value, hvalue, hpresent⟩ := exists_member?_of_ofMembers? hr _ hn
    rw [Json.member?_eq_some_none hl] at hvalue
    exact hpresent ho (Option.some.inj hvalue).symm
  | length hl =>
    rw [Record.ofJson?.eq_def] at hr
    split at hr
    · next heq => exact nomatch heq
    · next heq =>
      obtain rfl := Json.array.inj heq
      exact hl rfl
    · exact nomatch hr

/-! ### A list of records -/

theorem read?_eq {items : List Json} {text : String} (h : (Json.array items).WrittenAs text) :
    read? text = items.mapM Record.ofJson? := by
  rw [read?, h.read]

/-- **Records are read from every shape that they may be written in**, with the blank space and
the escapes that JSON allows and with other members of any value in their objects, if every step
fits into 64 bits.  A list in which one of them repeats or lacks a field, or has too few or too
many values, is not read at all. -/
theorem read?_every_shape {items : List Json} {text : String}
    (h : (Json.array items).WrittenAs text) :
    (∀ records : List Record, (∀ r ∈ records, r.step < Json.wordBound) →
      List.Forall₂ Shape records items → read? text = some records) ∧
    ((∃ item ∈ items, Defective item) → read? text = none) := by
  rw [read?_eq h]
  constructor
  · intro records hsteps hshapes
    have hread : List.Forall₂ (fun r item => ofJson? item = some r) records items :=
      ((List.forall₂_and_left _ _).mpr ⟨hsteps, hshapes⟩).imp fun r item hr => hr.2.ofJson? hr.1
    exact mapM_eq_some_iff.mpr hread.flip
  · rintro ⟨item, hitem, hdefective⟩
    rw [Option.eq_none_iff_forall_ne_some]
    intro records hread
    obtain ⟨r, -, hr⟩ := exists_of_forall₂ (mapM_eq_some_iff.mp hread) hitem
    rw [hdefective.ofJson?] at hr
    exact nomatch hr

/-- An object backwards, without its operation and after a member that means nothing, and a list;
then with a third record that has its step twice. -/
theorem read?_every_shape_mixed :
    let first : Record := {
      step := 0
      runningState := .paused
      configuration := "begin"
      nextConfiguration := "b"
      operation := none
      pendingOperations := []
      tape := "[_]" }
    let second : Record := {
      step := 1
      runningState := .running
      configuration := "b"
      nextConfiguration := "b"
      operation := some "print 1"
      pendingOperations := ["right"]
      tape := "[1]" }
    let note : Option String × Json :=
      (some "note", .array [.bool true, .object [(some "step", .null)]])
    let state : Json := .object [(some "Paused", .null)]
    let items : List Json := [
      .object (note :: ((first.fields state).filter (·.1 ≠ some "operation")).reverse),
      .array (second.values (.ofString "Running"))]
    let twice : Json := .object ((some "step", .null) :: second.fields (.ofString "Running"))
    read? (String.ofList ((Json.array items).print 0)) = some [first, second] ∧
      read? (String.ofList ((Json.array (items ++ [twice])).print 0)) = none := by
  intro first second note state items twice
  have hnote : note.2.Valid := by
    refine .array (List.forall_mem_cons.mpr ⟨.bool true, List.forall_mem_singleton.mpr ?_⟩)
    exact .object (List.forall_mem_singleton.mpr .null)
  have hstate : state.Valid := .object (List.forall_mem_singleton.mpr .null)
  have hitems : ∀ item ∈ items, item.Valid := by
    refine List.forall_mem_cons.mpr ⟨.object (List.forall_mem_cons.mpr ⟨hnote, ?_⟩),
      List.forall_mem_singleton.mpr (.array (second.valid_values (.string _)))⟩
    intro member hmember
    exact first.valid_fields hstate member (List.mem_of_mem_filter (List.mem_reverse.mp hmember))
  have htwice : twice.Valid :=
    .object (List.forall_mem_cons.mpr ⟨.null, second.valid_fields (.string _)⟩)
  have hall : ∀ item ∈ items ++ [twice], item.Valid :=
    List.forall_mem_append.mpr ⟨hitems, List.forall_mem_singleton.mpr htwice⟩
  have hsteps : ∀ r ∈ [first, second], r.step < Json.wordBound := by
    decide
  have hother : ∀ member ∈ [note], IsOther member :=
    List.forall_mem_singleton.mpr ⟨"note", rfl, by decide⟩
  have hperm := (List.reverse_perm ((first.fields state).filter (·.1 ≠ some "operation"))).cons note
  have hshapes : List.Forall₂ Shape [first, second] items :=
    .cons (.withoutOperation rfl .member hother (hperm.trans (List.perm_append_singleton ..).symm))
      (.cons (.array .name) .nil)
  have hdefective : Defective twice := @Defective.repeated _ "step" (by decide)
    (List.duplicate_iff_two_le_count.mpr (by decide))
  exact ⟨(read?_every_shape ((Json.Valid.array hitems).writtenAs_print 0)).1 _ hsteps hshapes,
    (read?_every_shape ((Json.Valid.array hall).writtenAs_print 0)).2
      ⟨twice, List.mem_append_right _ List.mem_cons_self, hdefective⟩⟩

end Record

end AutomaticMachine
