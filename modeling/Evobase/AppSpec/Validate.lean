import Evobase.AppSpec.Compile

/-!
# Validating records

`validateRecords` checks a whole list of records against a definition and returns it in
the order of the record keys, with the absent fields of every record set to blank. What
it accepts is `ValidFacts`: one predicate about the list as a set, so that neither the
verdict nor the result depends on the order of the list.

The passes of the code look at one record after the other, with the identities seen so far; each
pass is turned into a statement about all the records, and `validateRecords_exact` is their
conjunction. `normalized` is the canonical list, and validation leaves it as it is.
-/

namespace Evobase

open Foundation

/-- Records of a scope that have been validated. -/
structure CheckedRecords where
  scope : Scope
  records : List RawRecord
deriving DecidableEq

namespace CheckedRecords

def find (facts : CheckedRecords) (table : TableId) (record : RecordId) : Option RawRecord :=
  facts.records.find? fun row => row.tableId = table ∧ row.id = record

def encode (facts : CheckedRecords) : Except Error (List UInt8) :=
  boundedEncode (recordsToJson facts.records)

theorem find_some {facts : CheckedRecords} {table : TableId} {record : RecordId}
    {row : RawRecord} (h : facts.find table record = some row) :
    row ∈ facts.records ∧ row.tableId = table ∧ row.id = record :=
  ⟨List.mem_of_find?_eq_some h, by simpa using List.find?_some h⟩

end CheckedRecords

/-- The declared fields of a table. -/
def RawAppSpec.fieldsOf (spec : RawAppSpec) (table : TableId) : List RawField :=
  match spec.table table with
  | some t => t.fields
  | none => []

namespace RawRecord

def value (row : RawRecord) (field : FieldId) : Value := (row.values.get? field).getD .blank

/-- The record with a value for every field of its table. -/
def normalize (spec : RawAppSpec) (row : RawRecord) : RawRecord :=
  { row with
    values := OrdMap.ofList
      ((spec.fieldsOf row.tableId).map fun field => (field.id, row.value field.id)) }

end RawRecord

/-- The value is of the type. -/
def matchesType (fieldType : FieldType) (value : Value) : Bool :=
  match fieldType, value with
  | .text, .text _ | .integer, .integer _ | .bool, .bool _ | .money, .money _ | .ref _, .ref _ =>
      true
  | _, _ => false

/-- A reference stays in the scope and names a record of the target table. -/
def checkReference (scope : Scope) (records : List RawRecord) (identities : List RecordKey)
    (fieldType : FieldType) (value : Value) : Exec Error Unit :=
  match value with
  | .ref reference => do
      rejectIf (reference.scope ≠ scope) (.fail (.crossScope reference.recordId))
      match fieldType with
      | .ref targetTable => do
          rejectIf (reference.tableId ≠ targetTable)
            (.fail (.wrongReferenceTable reference.recordId targetTable reference.tableId))
          if toLex (reference.tableId, reference.recordId) ∈ identities then .ok ()
          else
            match records.find? fun other => other.id = reference.recordId with
            | some other =>
                .error (.fail (.wrongReferenceTable reference.recordId targetTable other.tableId))
            | none => .error (.fail (.missingReference targetTable reference.recordId))
      | _ => Exec.panic "type checked above"
  | _ => .ok ()

def checkValue (scope : Scope) (records : List RawRecord) (identities : List RecordKey)
    (record : RawRecord) (field : RawField) (value : Value) : Exec Error Unit :=
  if value.isEmpty = true then
    rejectIf (field.required = true) (.fail (.required record.id field.id))
  else do
    rejectIf (matchesType field.fieldType value = false)
      (.fail (.wrongType record.id field.id field.fieldType.name))
    rejectIf (value.tooLong = true) (.fail (.limitExceeded "text bytes" maxTextBytes))
    checkReference scope records identities field.fieldType value

/-- The value is a state of the machine. -/
def RawStateMachine.hasState (machine : RawStateMachine) (value : Value) : Bool :=
  match value with
  | .text state => state ∈ machine.states.keys
  | _ => false

def checkField (spec : RawAppSpec) (scope : Scope) (records : List RawRecord)
    (identities : List RecordKey) (record : RawRecord) (field : RawField) : Exec Error Unit := do
  let value := record.value field.id
  checkValue scope records identities record field value
  rejectAny (spec.constraintsOn record.tableId field.id)
    (fun rule => rule.constraint.accepts value = false)
    fun rule => .fail (.constraintViolation record.id field.id rule.constraintId)
  rejectAny spec.stateMachines (fun machine => machine.tableId = record.tableId ∧
      machine.stateField = field.id ∧ machine.hasState value = false)
    fun machine => .fail (.invalidStateValue record.id field.id machine.machineId)

def checkRecord (spec : RawAppSpec) (scope : Scope) (records : List RawRecord)
    (identities : List RecordKey) (record : RawRecord) : Exec Error Unit := do
  let table ← Exec.expect "table checked above" (spec.table record.tableId)
  rejectAny record.values.keys (fun field => spec.field record.tableId field = none)
    fun field => .fail (.unknownField record.tableId field)
  each (checkField spec scope records identities record) table.fields

def checkIdentity (spec : RawAppSpec) (scope : Scope) (before : List RawRecord)
    (record : RawRecord) : Exec Error Unit := do
  rejectIf (record.scope ≠ scope) (.fail (.crossScope record.id))
  rejectIf (spec.table record.tableId = none) (.fail (.unknownTable record.tableId))
  rejectIf (record.key ∈ before.map RawRecord.key)
    (.fail (.duplicateRecord record.tableId record.id))

def validateRecords (spec : RawAppSpec) (scope : Scope) (records : List RawRecord) :
    Exec Error CheckedRecords := do
  rejectIf (scope.appId ≠ spec.appId) (.fail (.wrongApp spec.appId scope.appId))
  rejectIf (records.length > maxRecords) (.fail (.limitExceeded "records" maxRecords))
  let _ ← Exec.ofExcept id (boundedEncode (recordsToJson records))
  let sorted := sortBy RawRecord.key records
  eachAfter (checkIdentity spec scope) [] sorted
  let identities := sorted.map RawRecord.key
  each (checkRecord spec scope records identities) sorted
  let checked := sorted.map (RawRecord.normalize spec)
  let _ ← Exec.ofExcept id (boundedEncode (recordsToJson checked))
  .ok ⟨scope, checked⟩

/-- What a field of a table allows as the value of a record. -/
structure ValidValue (scope : Scope) (records : List RawRecord) (field : RawField)
    (value : Value) : Prop where
  required : field.required = true → value.isEmpty = false
  type : value.isEmpty = false → matchesType field.fieldType value = true
  short : value.tooLong = false
  reference : ∀ reference, value = .ref reference → reference.scope = scope ∧
    field.fieldType = .ref reference.tableId ∧
    ∃ target ∈ records, target.tableId = reference.tableId ∧ target.id = reference.recordId

/-- What a definition allows as a record of a list. -/
structure ValidRecord (spec : RawAppSpec) (scope : Scope) (records : List RawRecord)
    (record : RawRecord) : Prop where
  inScope : record.scope = scope
  table : ∃ table, spec.table record.tableId = some table ∧
    ∀ field ∈ table.fields, ValidValue scope records field (record.value field.id)
  declared : ∀ field ∈ record.values.keys, ∃ f, spec.field record.tableId field = some f
  constraints : ∀ rule ∈ spec.constraints, rule.tableId = record.tableId →
    rule.constraint.accepts (record.value rule.fieldId) = true
  states : ∀ machine ∈ spec.stateMachines, machine.tableId = record.tableId →
    ∃ state ∈ machine.states.keys, record.value machine.stateField = .text state

def normalized (spec : RawAppSpec) (records : List RawRecord) : List RawRecord :=
  (sortBy RawRecord.key records).map (RawRecord.normalize spec)

/-- What a definition allows as the records of a scope. -/
structure ValidFacts (spec : RawAppSpec) (scope : Scope) (records : List RawRecord) :
    Prop where
  app : scope.appId = spec.appId
  count : records.length ≤ maxRecords
  fits : Fits (recordsToJson records)
  keys : (records.map RawRecord.key).Nodup
  each : ∀ record ∈ records, ValidRecord spec scope records record
  fits_normalized : Fits (recordsToJson (normalized spec records))

theorem isEmpty_eq_true_iff {v : Value} : v.isEmpty = true ↔ v = .blank ∨ v = .null := by
  cases v <;> simp [Value.isEmpty]

theorem tooLong_of_isEmpty {v : Value} (h : v.isEmpty = true) : v.tooLong = false := by
  rcases isEmpty_eq_true_iff.1 h with rfl | rfl <;> rfl

theorem ne_ref_of_isEmpty {v : Value} (h : v.isEmpty = true) (r : RecordRef) : v ≠ .ref r := by
  rintro rfl
  simp [Value.isEmpty] at h

section Check

variable {spec : RawAppSpec} {scope : Scope} {records : List RawRecord}
  {identities : List RecordKey} {record : RawRecord} {field : RawField} {value : Value}

theorem checkReference_eq_ok_iff (htype : matchesType field.fieldType value = true) :
    checkReference scope records identities field.fieldType value = .ok () ↔
      ∀ reference, value = .ref reference → reference.scope = scope ∧
        field.fieldType = .ref reference.tableId ∧
        toLex (reference.tableId, reference.recordId) ∈ identities := by
  cases value with
  | ref reference =>
      cases hfield : field.fieldType with
      | ref target =>
          simp only [checkReference, bind_eq_ok, rejectIf_eq_ok, not_not, Value.ref.injEq,
            forall_eq', FieldType.ref.injEq]
          constructor
          · rintro ⟨-, hscope, -, htable, hmem⟩
            refine ⟨hscope, htable.symm, ?_⟩
            split_ifs at hmem with hid
            · exact hid
            · split at hmem <;> cases hmem
          · rintro ⟨hscope, htable, hmem⟩
            exact ⟨(), hscope, (), htable.symm, by rw [if_pos hmem]⟩
      | text => simp [hfield, matchesType] at htype
      | integer => simp [hfield, matchesType] at htype
      | bool => simp [hfield, matchesType] at htype
      | money => simp [hfield, matchesType] at htype
  | _ => simp [checkReference]

theorem checkValue_eq_ok_iff (hids : ∀ k, k ∈ identities ↔ k ∈ records.map RawRecord.key) :
    checkValue scope records identities record field value = .ok () ↔
      ValidValue scope records field value := by
  have hkey : ∀ r : RecordRef, toLex (r.tableId, r.recordId) ∈ identities ↔
      ∃ target ∈ records, target.tableId = r.tableId ∧ target.id = r.recordId := by
    intro r
    simp [hids, RawRecord.key]
  unfold checkValue
  by_cases hempty : value.isEmpty = true
  · rw [if_pos hempty, rejectIf_eq_ok]
    constructor
    · intro hoptional
      exact ⟨fun h => absurd h hoptional, fun h => by simp [hempty] at h,
        tooLong_of_isEmpty hempty, fun r hr => absurd hr (ne_ref_of_isEmpty hempty r)⟩
    · intro hvalid hrequired
      simp [hvalid.required hrequired] at hempty
  · simp only [if_neg hempty, bind_eq_ok, rejectIf_eq_ok, Bool.not_eq_false, Bool.not_eq_true]
    constructor
    · rintro ⟨-, htype, -, hshort, hreference⟩
      refine ⟨fun _ => by simpa using hempty, fun _ => htype, hshort, fun r hr => ?_⟩
      have := (checkReference_eq_ok_iff htype).1 hreference r hr
      rwa [hkey] at this
    · rintro ⟨hrequired, htype, hshort, hreference⟩
      have htype := htype (by simpa using hempty)
      refine ⟨(), htype, (), hshort, (checkReference_eq_ok_iff htype).2 fun r hr => ?_⟩
      rw [hkey]
      exact hreference r hr

theorem checkField_eq_ok_iff (hids : ∀ k, k ∈ identities ↔ k ∈ records.map RawRecord.key) :
    checkField spec scope records identities record field = .ok () ↔
      ValidValue scope records field (record.value field.id) ∧
      (∀ rule ∈ spec.constraints, rule.tableId = record.tableId → rule.fieldId = field.id →
        rule.constraint.accepts (record.value field.id) = true) ∧
      ∀ machine ∈ spec.stateMachines, machine.tableId = record.tableId →
        machine.stateField = field.id → machine.hasState (record.value field.id) = true := by
  simp only [checkField, bind_eq_ok, rejectAny_eq_ok, RawAppSpec.constraintsOn, List.mem_filter,
    decide_eq_true_eq, not_and, Bool.not_eq_false]
  constructor
  · rintro ⟨⟨⟩, hvalue, ⟨⟩, hconstraints, hstates⟩
    exact ⟨(checkValue_eq_ok_iff hids).1 hvalue,
      fun rule hrule htable hfield => hconstraints rule ⟨hrule, htable, hfield⟩, hstates⟩
  · rintro ⟨hvalue, hconstraints, hstates⟩
    exact ⟨(), (checkValue_eq_ok_iff hids).2 hvalue, (),
      fun rule hrule => hconstraints rule hrule.1 hrule.2.1 hrule.2.2, hstates⟩

theorem hasState_eq_true_iff {machine : RawStateMachine} :
    machine.hasState value = true ↔ ∃ state ∈ machine.states.keys, value = .text state := by
  cases value <;> simp [RawStateMachine.hasState]

/-- In a well-formed definition the constraints and the machines of a table are about its
declared fields, so the loop over the fields meets all of them. -/
theorem checkRecord_eq_ok_iff (hspec : WellFormed spec)
    (hids : ∀ k, k ∈ identities ↔ k ∈ records.map RawRecord.key) (hscope : record.scope = scope) :
    checkRecord spec scope records identities record = .ok () ↔
      ValidRecord spec scope records record := by
  simp only [checkRecord, bind_eq_ok, Exec.expect_eq_ok, rejectAny_eq_ok, each_eq_ok_iff,
    checkField_eq_ok_iff hids]
  constructor
  · rintro ⟨table, htable, ⟨⟩, hdeclared, hfields⟩
    refine ⟨hscope, ⟨table, htable, fun field hfield => (hfields field hfield).1⟩,
      fun field hfield => Option.ne_none_iff_exists'.1 (hdeclared field hfield), ?_, ?_⟩
    · intro rule hrule hruleTable
      obtain ⟨field, hfield, -⟩ := hspec.constraints rule hrule
      obtain ⟨t, ht, hmem, hid⟩ := RawAppSpec.field_some hfield
      rw [hruleTable, htable, Option.some.injEq] at ht
      subst ht
      rw [← hid]
      exact (hfields field hmem).2.1 rule hrule hruleTable hid.symm
    · intro machine hmachine hmachineTable
      have hrequired := (hspec.declarations.machines machine hmachine).stateField
      unfold RawAppSpec.isRequiredText at hrequired
      split at hrequired
      · rename_i field hfield
        obtain ⟨t, ht, hmem, hid⟩ := RawAppSpec.field_some hfield
        rw [hmachineTable, htable, Option.some.injEq] at ht
        subst ht
        rw [← hid, ← hasState_eq_true_iff]
        exact (hfields field hmem).2.2 machine hmachine hmachineTable hid.symm
      · simp at hrequired
  · rintro ⟨-, ⟨table, htable, hvalues⟩, hdeclared, hconstraints, hstates⟩
    refine ⟨table, htable, (), fun field hfield => Option.ne_none_iff_exists'.2
      (hdeclared field hfield), fun field hfield => ⟨hvalues field hfield, ?_, ?_⟩⟩
    · intro rule hrule hruleTable hruleField
      rw [← hruleField]
      exact hconstraints rule hrule hruleTable
    · intro machine hmachine hmachineTable hmachineField
      rw [← hmachineField, hasState_eq_true_iff]
      exact hstates machine hmachine hmachineTable

end Check

theorem mem_keys_sortBy {records : List RawRecord} (k : RecordKey) :
    k ∈ (sortBy RawRecord.key records).map RawRecord.key ↔ k ∈ records.map RawRecord.key :=
  ((sortBy_perm _ records).map _).mem_iff

theorem eachAfter_checkIdentity_eq_ok_iff {spec : RawAppSpec} {scope : Scope}
    {l : List RawRecord} :
    eachAfter (checkIdentity spec scope) [] l = .ok () ↔
      (l.map RawRecord.key).Nodup ∧
        ∀ record ∈ l, record.scope = scope ∧ spec.table record.tableId ≠ none := by
  constructor
  · intro h
    refine ⟨nodup_of_eachAfter _ ?_ h, fun record hrecord => ?_⟩
    · intro before record hvisit
      simp only [checkIdentity, bind_eq_ok, rejectIf_eq_ok] at hvisit
      exact hvisit.choose_spec.2.choose_spec.2
    · obtain ⟨before, hvisit⟩ := visit_of_eachAfter h hrecord
      simp only [checkIdentity, bind_eq_ok, rejectIf_eq_ok, not_not] at hvisit
      obtain ⟨-, hscope, -, htable, -⟩ := hvisit
      exact ⟨hscope, htable⟩
  · rintro ⟨hnodup, hall⟩
    rw [eachAfter_eq_ok_iff]
    rintro pre record post rfl
    obtain ⟨hscope, htable⟩ := hall record (by simp)
    simp only [checkIdentity, bind_eq_ok, rejectIf_eq_ok, not_not, List.nil_append]
    refine ⟨(), hscope, (), htable, ?_⟩
    rw [List.map_append, List.map_cons, List.nodup_append] at hnodup
    exact fun hmem => hnodup.2.2 _ hmem _ (by simp) rfl

/-- Validation accepts the valid facts, and returns them in key order with absent fields
set to blank. -/
theorem validateRecords_eq_ok_iff {spec : RawAppSpec} (hspec : WellFormed spec) {scope : Scope}
    {records : List RawRecord} {out : CheckedRecords} :
    validateRecords spec scope records = .ok out ↔
      ValidFacts spec scope records ∧ out = ⟨scope, normalized spec records⟩ := by
  simp only [validateRecords, bind_eq_ok, rejectIf_eq_ok, Exec.ofExcept_eq_ok, not_not, gt_iff_lt,
    not_lt, boundedEncode_eq_ok_iff (exact_recordsToJson _), Except.ok.injEq]
  constructor
  · rintro ⟨-, happ, -, hcount, bytes, ⟨hfits, -⟩, ⟨⟩, hidentities, ⟨⟩, hrecords, bytes', ⟨hfits', -⟩,
      rfl⟩
    obtain ⟨hnodup, hall⟩ := eachAfter_checkIdentity_eq_ok_iff.1 hidentities
    refine ⟨⟨happ, hcount, hfits, ?_, fun record hrecord => ?_, hfits'⟩, rfl⟩
    · exact ((sortBy_perm _ records).map _).nodup_iff.1 hnodup
    · have hmem := (mem_sortBy RawRecord.key).2 hrecord
      exact (checkRecord_eq_ok_iff hspec mem_keys_sortBy (hall record hmem).1).1
        (each_eq_ok_iff.1 hrecords record hmem)
  · rintro ⟨⟨happ, hcount, hfits, hkeys, hrecords, hfits'⟩, rfl⟩
    refine ⟨(), happ, (), hcount, _, ⟨hfits, rfl⟩, (), ?_, (), ?_, _, ⟨hfits', rfl⟩, rfl⟩
    · refine eachAfter_checkIdentity_eq_ok_iff.2 ⟨?_, fun record hrecord => ?_⟩
      · exact ((sortBy_perm _ records).map _).nodup_iff.2 hkeys
      · have hvalid := hrecords record ((mem_sortBy RawRecord.key).1 hrecord)
        obtain ⟨table, htable, -⟩ := hvalid.table
        exact ⟨hvalid.inScope, by simp [htable]⟩
    · refine each_eq_ok_iff.2 fun record hrecord => ?_
      have hvalid := hrecords record ((mem_sortBy RawRecord.key).1 hrecord)
      exact (checkRecord_eq_ok_iff hspec mem_keys_sortBy hvalid.inScope).2 hvalid

section Normal

variable {spec : RawAppSpec} {scope : Scope} {records : List RawRecord} {row : RawRecord}

theorem mem_fieldsOf_iff {table : TableId} {field : RawField} :
    field ∈ spec.fieldsOf table ↔ ∃ t, spec.table table = some t ∧ field ∈ t.fields := by
  unfold RawAppSpec.fieldsOf
  split <;> simp_all

theorem fieldsOf_sorted (hspec : WellFormed spec) (table : TableId) :
    (spec.fieldsOf table).Pairwise fun a b => a.id < b.id := by
  unfold RawAppSpec.fieldsOf
  split
  · rename_i t ht
    exact hspec.fields_sorted t (RawAppSpec.table_some ht).1
  · exact List.Pairwise.nil

/-- A field with a declared identity is the declared field. -/
theorem field_eq_some_iff (hspec : WellFormed spec) {table : TableId} {id : FieldId}
    {field : RawField} :
    spec.field table id = some field ↔ field ∈ spec.fieldsOf table ∧ field.id = id := by
  constructor
  · intro h
    obtain ⟨t, ht, hmem, hid⟩ := RawAppSpec.field_some h
    exact ⟨mem_fieldsOf_iff.2 ⟨t, ht, hmem⟩, hid⟩
  · rintro ⟨hmem, rfl⟩
    obtain ⟨t, ht, hfield⟩ := mem_fieldsOf_iff.1 hmem
    have hsorted := hspec.fields_sorted t (RawAppSpec.table_some ht).1
    rw [RawAppSpec.field, ht, Option.bind_some, List.find?_eq_some_iff_append]
    obtain ⟨pre, post, hsplit⟩ := List.append_of_mem hfield
    refine ⟨by simp, pre, post, hsplit, fun other hother => ?_⟩
    rw [hsplit, List.pairwise_append] at hsorted
    simpa using (hsorted.2.2 other hother field (by simp)).ne

@[simp] theorem normalize_key (row : RawRecord) : (row.normalize spec).key = row.key := rfl

theorem entries_normalize (hspec : WellFormed spec) (row : RawRecord) :
    (row.normalize spec).values.entries =
      (spec.fieldsOf row.tableId).map fun field => (field.id, row.value field.id) := by
  refine OrdMap.entries_ofList ?_
  simpa [List.pairwise_map] using fieldsOf_sorted hspec row.tableId

/-- A normalized record has a value for exactly the declared fields of its table. -/
theorem get?_normalize (hspec : WellFormed spec) (row : RawRecord) (id : FieldId) :
    (row.normalize spec).values.get? id =
      if (spec.field row.tableId id).isSome then some (row.value id) else none := by
  apply Option.ext
  intro v
  rw [← OrdMap.mem_entries_iff, entries_normalize hspec]
  simp only [List.mem_map, Prod.mk.injEq]
  cases hfield : spec.field row.tableId id with
  | none =>
      simp only [Option.isSome_none, Bool.false_eq_true, if_false, reduceCtorEq, iff_false]
      rintro ⟨field, hmem, hid, -⟩
      rw [(field_eq_some_iff hspec).2 ⟨hmem, hid⟩] at hfield
      cases hfield
  | some field =>
      obtain ⟨hmem, hid⟩ := (field_eq_some_iff hspec).1 hfield
      simp only [Option.isSome_some, if_true, Option.some.injEq]
      constructor
      · rintro ⟨other, -, hother, rfl⟩
        rw [hother]
      · rintro rfl
        exact ⟨field, hmem, hid, by rw [hid]⟩

theorem value_normalize (hspec : WellFormed spec)
    (hdeclared : ∀ id ∈ row.values.keys, ∃ f, spec.field row.tableId id = some f) (id : FieldId) :
    (row.normalize spec).value id = row.value id := by
  rw [RawRecord.value, get?_normalize hspec]
  split_ifs with hsome
  · rfl
  · have hnone : row.values.get? id = none := by
      rw [OrdMap.get?_eq_none_iff]
      intro hmem
      obtain ⟨f, hf⟩ := hdeclared id hmem
      simp [hf] at hsome
    simp [RawRecord.value, hnone]

/-- A record with a value for every declared field, and for no other, is normal. -/
theorem normalize_eq_self_iff (hspec : WellFormed spec) :
    row.normalize spec = row ↔
      ∀ id, (∃ f, spec.field row.tableId id = some f) ↔ id ∈ row.values.keys := by
  constructor
  · intro h id
    rw [← h, OrdMap.mem_keys_iff, get?_normalize hspec]
    cases hfield : spec.field row.tableId id <;> simp [hfield, RawRecord.normalize]
  · intro h
    have hvalues : (row.normalize spec).values = row.values := by
      refine OrdMap.ext_get? fun id => ?_
      rw [get?_normalize hspec]
      split_ifs with hsome
      · obtain ⟨v, hv⟩ := OrdMap.mem_keys_iff.1 ((h id).1 (Option.isSome_iff_exists.1 hsome))
        simp [RawRecord.value, hv]
      · refine (OrdMap.get?_eq_none_iff.2 fun hmem => hsome ?_).symm
        exact Option.isSome_iff_exists.2 ((h id).2 hmem)
    obtain ⟨rowScope, id, tableId, values⟩ := row
    simp only [RawRecord.normalize, RawRecord.mk.injEq, true_and] at hvalues ⊢
    exact hvalues

@[simp] theorem normalize_normalize (hspec : WellFormed spec) (row : RawRecord) :
    (row.normalize spec).normalize spec = row.normalize spec := by
  rw [normalize_eq_self_iff hspec]
  intro id
  rw [OrdMap.mem_keys_iff, get?_normalize hspec]
  cases hfield : spec.field row.tableId id <;> simp [hfield, RawRecord.normalize]

@[simp] theorem map_key_normalized (spec : RawAppSpec) (records : List RawRecord) :
    (normalized spec records).map RawRecord.key = (sortBy RawRecord.key records).map RawRecord.key := by
  rw [normalized, List.map_map]
  rfl

theorem mem_normalized_iff :
    row ∈ normalized spec records ↔ ∃ r ∈ records, r.normalize spec = row := by
  simp [normalized]

theorem pairwise_normalized (spec : RawAppSpec) (hkeys : (records.map RawRecord.key).Nodup) :
    (normalized spec records).Pairwise fun a b => a.key < b.key := by
  simpa [normalized, List.pairwise_map] using pairwise_lt_sortBy RawRecord.key hkeys

theorem normalized_normalized (hspec : WellFormed spec)
    (hkeys : (records.map RawRecord.key).Nodup) :
    normalized spec (normalized spec records) = normalized spec records := by
  have hsorted := (pairwise_normalized spec hkeys).imp le_of_lt
  rw [normalized, sortBy_of_pairwise _ hsorted, normalized, List.map_map]
  exact List.map_congr_left fun row _ => normalize_normalize hspec row

theorem normalized_perm {records' : List RawRecord} (h : records.Perm records')
    (hkeys : (records.map RawRecord.key).Nodup) :
    normalized spec records = normalized spec records' := by
  rw [normalized, normalized, sortBy_eq_of_perm _ h hkeys]

theorem ValidValue.mono {records' : List RawRecord} {field : RawField} {value : Value}
    (h : ValidValue scope records field value)
    (hkeys : ∀ k, k ∈ records.map RawRecord.key → k ∈ records'.map RawRecord.key) :
    ValidValue scope records' field value := by
  refine ⟨h.required, h.type, h.short, fun reference hreference => ?_⟩
  obtain ⟨hscope, htype, target, hmem, htable, hid⟩ := h.reference reference hreference
  refine ⟨hscope, htype, ?_⟩
  obtain ⟨other, hother, hkey⟩ := List.mem_map.1 (hkeys _ (List.mem_map_of_mem hmem))
  rw [RawRecord.key, RawRecord.key, toLex_inj, Prod.mk.injEq] at hkey
  exact ⟨other, hother, hkey.1.trans htable, hkey.2.trans hid⟩

theorem ValidRecord.mono {records' : List RawRecord} (h : ValidRecord spec scope records row)
    (hkeys : ∀ k, k ∈ records.map RawRecord.key → k ∈ records'.map RawRecord.key) :
    ValidRecord spec scope records' row := by
  obtain ⟨table, htable, hvalues⟩ := h.table
  exact ⟨h.inScope, ⟨table, htable, fun field hfield => (hvalues field hfield).mono hkeys⟩,
    h.declared, h.constraints, h.states⟩

/-- Normalizing a valid record leaves it valid. -/
theorem ValidRecord.normalize (hspec : WellFormed spec)
    (h : ValidRecord spec scope records row) :
    ValidRecord spec scope records (row.normalize spec) := by
  have hvalue := value_normalize hspec h.declared
  obtain ⟨table, htable, hvalues⟩ := h.table
  refine ⟨h.inScope, ⟨table, htable, fun field hfield => ?_⟩, fun id hid => ?_, ?_, ?_⟩
  · rw [hvalue]
    exact hvalues field hfield
  · rw [OrdMap.mem_keys_iff, get?_normalize hspec] at hid
    obtain ⟨v, hv⟩ := hid
    split_ifs at hv with hsome
    exact Option.isSome_iff_exists.1 hsome
  · intro rule hrule htableId
    rw [hvalue]
    exact h.constraints rule hrule htableId
  · intro machine hmachine htableId
    rw [hvalue]
    exact h.states machine hmachine htableId

theorem ValidFacts.of_perm {records' : List RawRecord} (h : ValidFacts spec scope records)
    (hperm : records.Perm records') : ValidFacts spec scope records' where
  app := h.app
  count := hperm.length_eq ▸ h.count
  fits := h.fits.of_perm (hperm.map _)
  keys := (hperm.map _).nodup_iff.1 h.keys
  each record hrecord :=
    (h.each record (hperm.mem_iff.2 hrecord)).mono fun _ hk => (hperm.map _).mem_iff.1 hk
  fits_normalized := by
    rw [← normalized_perm hperm h.keys]
    exact h.fits_normalized

/-- The validated list of valid facts is valid. -/
theorem ValidFacts.normalized (hspec : WellFormed spec) (h : ValidFacts spec scope records) :
    ValidFacts spec scope (normalized spec records) where
  app := h.app
  count := by simpa [Evobase.normalized] using h.count
  fits := h.fits_normalized
  keys := by
    rw [map_key_normalized]
    exact ((sortBy_perm _ records).map _).nodup_iff.2 h.keys
  each record hrecord := by
    obtain ⟨r, hr, rfl⟩ := mem_normalized_iff.1 hrecord
    refine ((h.each r hr).normalize hspec).mono fun k hk => ?_
    rw [map_key_normalized]
    exact mem_keys_sortBy k |>.2 hk
  fits_normalized := by
    rw [normalized_normalized hspec h.keys]
    exact h.fits_normalized

theorem validateRecords_records (hspec : WellFormed spec) {out : CheckedRecords}
    (h : validateRecords spec scope records = .ok out) :
    validateRecords spec out.scope out.records = .ok out := by
  obtain ⟨hvalid, rfl⟩ := (validateRecords_eq_ok_iff hspec).1 h
  exact (validateRecords_eq_ok_iff hspec).2
    ⟨hvalid.normalized hspec, by rw [normalized_normalized hspec hvalid.keys]⟩

end Normal

/-- The part of validity that does not look at values. -/
structure Shaped (spec : RawAppSpec) (scope : Scope) (records : List RawRecord) : Prop where
  app : scope.appId = spec.appId
  count : records.length ≤ maxRecords
  keys : (records.map RawRecord.key).Nodup
  inScope : ∀ record ∈ records, record.scope = scope
  tables : ∀ record ∈ records, ∃ table, spec.table record.tableId = some table
  declared : ∀ record ∈ records, ∀ field ∈ record.values.keys,
    ∃ f, spec.field record.tableId field = some f

theorem ValidFacts.shaped {spec : RawAppSpec} {scope : Scope} {records : List RawRecord}
    (h : ValidFacts spec scope records) : Shaped spec scope records where
  app := h.app
  count := h.count
  keys := h.keys
  inScope record hrecord := (h.each record hrecord).inScope
  tables record hrecord := (h.each record hrecord).table.imp fun _ => And.left
  declared record hrecord := (h.each record hrecord).declared

/-- Validation of a list of the right shape fails at a bound of the encoder or at the
value of a field. -/
theorem of_validateRecords_error {spec : RawAppSpec} {scope : Scope} {records : List RawRecord}
    (hshape : Shaped spec scope records) {halt : Halt Error}
    (h : validateRecords spec scope records = .error halt) :
    (∃ e, halt = .fail e ∧ e.isLimit = true) ∨
      ∃ record ∈ records, ∃ field ∈ spec.fieldsOf record.tableId,
        checkField spec scope records ((sortBy RawRecord.key records).map RawRecord.key) record
          field = .error halt := by
  have hencode : ∀ (j : Json) {halt : Halt Error},
      Exec.ofExcept id (boundedEncode j) = .error halt → ∃ e, halt = .fail e ∧ e.isLimit = true := by
    intro j halt hj
    obtain ⟨e, he, rfl⟩ := (Exec.ofExcept_eq_error _ _ _).1 hj
    exact ⟨e, rfl, isLimit_of_boundedEncode he⟩
  have hidentities : eachAfter (checkIdentity spec scope) [] (sortBy RawRecord.key records) =
      .ok () := by
    refine eachAfter_checkIdentity_eq_ok_iff.2 ⟨?_, fun record hrecord => ?_⟩
    · exact ((sortBy_perm _ records).map _).nodup_iff.2 hshape.keys
    · have hmem := (mem_sortBy RawRecord.key).1 hrecord
      obtain ⟨table, htable⟩ := hshape.tables record hmem
      exact ⟨hshape.inScope record hmem, by simp [htable]⟩
  rw [validateRecords, rejectIf_bind_of_not (by simpa using hshape.app),
    rejectIf_bind_of_not (by simpa using hshape.count), bind_eq_error] at h
  rcases h with h | ⟨-, -, h⟩
  · exact .inl (hencode _ h)
  simp only [hidentities, ok_bind, bind_eq_error, reduceCtorEq, and_false, exists_false,
    or_false] at h
  rcases h with h | ⟨-, -, h⟩
  · right
    obtain ⟨record, hrecord, hcheck⟩ := exists_of_each_eq_error h
    have hmem := (mem_sortBy RawRecord.key).1 hrecord
    obtain ⟨table, htable⟩ := hshape.tables record hmem
    have hknown : rejectAny record.values.keys (fun field => spec.field record.tableId field = none)
        (fun field => (.fail (.unknownField record.tableId field) : Halt Error)) = .ok () :=
      rejectAny_eq_ok.2 fun field hfield =>
        Option.ne_none_iff_exists'.2 (hshape.declared record hmem field hfield)
    rw [checkRecord, htable, Exec.expect, ok_bind, hknown, ok_bind] at hcheck
    obtain ⟨field, hfield, herror⟩ := exists_of_each_eq_error hcheck
    exact ⟨record, hmem, field, mem_fieldsOf_iff.2 ⟨table, htable, hfield⟩, herror⟩
  · exact .inl (hencode _ h)

/-- Validation returns a result exactly for the valid facts. The result is the list in
key order with the absent declared fields of each record set to blank and nothing else
changed, and it does not depend on the order of the list. -/
theorem validateRecords_exact (spec : CheckedAppSpec) (scope : Scope)
    (records : List RawRecord) :
    (∀ out, validateRecords spec.definition scope records = .ok out ↔
      ValidFacts spec.definition scope records ∧
        out = ⟨scope, (sortBy RawRecord.key records).map (RawRecord.normalize spec.definition)⟩) ∧
    (∀ row ∈ records, ∀ next, next = row.normalize spec.definition →
      next.scope = row.scope ∧ next.id = row.id ∧ next.tableId = row.tableId ∧
        ∀ field, next.values.get? field =
          if (spec.definition.field row.tableId field).isSome then
            some ((row.values.get? field).getD .blank)
          else none) ∧
    ∀ records', records.Perm records' → ∀ out,
      validateRecords spec.definition scope records = .ok out ↔
        validateRecords spec.definition scope records' = .ok out := by
  have hspec := wellFormed spec
  refine ⟨fun out => validateRecords_eq_ok_iff hspec, ?_, ?_⟩
  · rintro row - next rfl
    exact ⟨rfl, rfl, rfl, get?_normalize hspec row⟩
  · intro records' hperm out
    rw [validateRecords_eq_ok_iff hspec, validateRecords_eq_ok_iff hspec]
    constructor
    · rintro ⟨hvalid, rfl⟩
      exact ⟨hvalid.of_perm hperm, by rw [normalized_perm hperm hvalid.keys]⟩
    · rintro ⟨hvalid, rfl⟩
      exact ⟨hvalid.of_perm hperm.symm, by rw [normalized_perm hperm.symm hvalid.keys]⟩

theorem validateRecords_exact_tickets :
    validateRecords ticketDefinition ticketScope
        [openTicket ⟨"rec_b", by decide⟩ "b", openTicket ⟨"rec_a", by decide⟩ "a"] =
      .ok ⟨ticketScope,
        [openTicket ⟨"rec_a", by decide⟩ "a", openTicket ⟨"rec_b", by decide⟩ "b"]⟩ :=
  ((validateRecords_exact ticketSpec ticketScope _).2.2 _ (List.Perm.swap _ _ []) _).1
    (by decide +kernel)

end Evobase
