import Evobase.AppSpec.Decision

/-!
# What a declared command can do

For valid facts the decision on a prepared command is exact: what it writes is
`TransitionCorrect`, and it fails only at the state, at a guard, at an input value or at a
bound of the encoder (`RefusesTransition`). Every other check of the decision has been made
when the definition was compiled, when the request was prepared or when the facts were
validated.

The equivalence is put together from one lemma for each group of checks: the row and its policy,
the state, the guards, the inputs, and the encoder.
-/

namespace Evobase

open Foundation

/-- The facts are a result of validation. -/
def CheckedRecords.ValidFor (spec : RawAppSpec) (facts : CheckedRecords) : Prop :=
  ∃ records, validateRecords spec facts.scope records = .ok facts

theorem key_eq_key_iff {a b : RawRecord} : a.key = b.key ↔ a.tableId = b.tableId ∧ a.id = b.id := by
  rw [RawRecord.key, RawRecord.key, toLex_inj, Prod.mk.injEq]

def setRow (new : RawRecord) (rows : List RawRecord) : List RawRecord :=
  rows.map fun row => if row.key = new.key then new else row

/-- Keys are unique, so replacing the first record of a key replaces every record of it. -/
theorem replaceRow_eq_some {new : RawRecord} {rows : List RawRecord}
    (hkeys : (rows.map RawRecord.key).Nodup) (hmem : new.key ∈ rows.map RawRecord.key) :
    replaceRow new rows = some (setRow new rows) := by
  induction rows with
  | nil => simp at hmem
  | cons row rest ih =>
      obtain ⟨hfresh, hrest⟩ := List.nodup_cons.1 hkeys
      simp only [replaceRow, ← key_eq_key_iff]
      by_cases hkey : row.key = new.key
      · have hsame : rest.map (fun r => if r.key = new.key then new else r) = rest := by
          refine (List.map_congr_left fun r hr => if_neg fun heq => hfresh ?_).trans
            (List.map_id rest)
          rw [hkey, ← heq]
          exact List.mem_map_of_mem hr
        rw [if_pos hkey, setRow, List.map_cons, if_pos hkey, hsame]
      · have htail : new.key ∈ rest.map RawRecord.key := by
          rcases List.mem_cons.1 hmem with heq | htail
          · exact absurd heq.symm hkey
          · exact htail
        rw [if_neg hkey, ih hrest htail, Option.map_some, setRow, setRow, List.map_cons,
          if_neg hkey]

@[simp] theorem map_key_setRow (new : RawRecord) (rows : List RawRecord) :
    (setRow new rows).map RawRecord.key = rows.map RawRecord.key := by
  rw [setRow, List.map_map]
  refine List.map_congr_left fun row _ => ?_
  by_cases hkey : row.key = new.key <;> simp [hkey]

theorem mem_setRow {new row : RawRecord} {rows : List RawRecord} (h : row ∈ setRow new rows) :
    row = new ∨ row ∈ rows ∧ row.key ≠ new.key := by
  obtain ⟨r, hr, rfl⟩ := List.mem_map.1 h
  by_cases hkey : r.key = new.key
  · exact .inl (if_pos hkey)
  · rw [if_neg hkey]
    exact .inr ⟨hr, hkey⟩

theorem new_mem_setRow {new : RawRecord} {rows : List RawRecord}
    (hmem : new.key ∈ rows.map RawRecord.key) : new ∈ setRow new rows := by
  obtain ⟨row, hrow, hkey⟩ := List.mem_map.1 hmem
  exact List.mem_map.2 ⟨row, hrow, if_pos hkey⟩

theorem find_eq_some_iff {facts : CheckedRecords}
    (hkeys : (facts.records.map RawRecord.key).Nodup) {table : TableId} {id : RecordId}
    {row : RawRecord} :
    facts.find table id = some row ↔ row ∈ facts.records ∧ row.tableId = table ∧ row.id = id := by
  refine ⟨CheckedRecords.find_some, fun ⟨hmem, htable, hid⟩ => ?_⟩
  rw [CheckedRecords.find, ← htable, ← hid]
  simpa only [key_eq_key_iff] using find?_key_eq_some hkeys hmem

theorem normalized_eq_self_iff {spec : RawAppSpec} {rows : List RawRecord}
    (hkeys : (rows.map RawRecord.key).Nodup) :
    normalized spec rows = rows ↔
      (rows.map RawRecord.key).Pairwise (· < ·) ∧ ∀ row ∈ rows, row.normalize spec = row := by
  constructor
  · intro h
    have hsorted := pairwise_normalized spec hkeys
    rw [h] at hsorted
    refine ⟨by simpa [List.pairwise_map] using hsorted, ?_⟩
    rw [normalized, sortBy_of_pairwise _ (hsorted.imp le_of_lt)] at h
    intro row hrow
    have hmap : rows.map (RawRecord.normalize spec) = rows.map id := by rw [h, List.map_id]
    exact List.map_inj_left.1 hmap row hrow
  · rintro ⟨hsorted, hnormal⟩
    rw [List.pairwise_map] at hsorted
    rw [normalized, sortBy_of_pairwise _ (hsorted.imp le_of_lt)]
    exact (List.map_congr_left hnormal).trans (List.map_id rows)

theorem validFor_iff {spec : RawAppSpec} (hspec : WellFormed spec) {facts : CheckedRecords} :
    facts.ValidFor spec ↔
      ValidFacts spec facts.scope facts.records ∧ normalized spec facts.records = facts.records := by
  constructor
  · rintro ⟨records, h⟩
    have hself := validateRecords_records hspec h
    obtain ⟨hvalid, heq⟩ := (validateRecords_eq_ok_iff hspec).1 hself
    exact ⟨hvalid, (congrArg CheckedRecords.records heq).symm⟩
  · rintro ⟨hvalid, hnormal⟩
    refine ⟨facts.records, (validateRecords_eq_ok_iff hspec).2 ⟨hvalid, ?_⟩⟩
    rw [hnormal]

section Prepared

variable {host : SessionVerifier} {caller : Caller} {spec : RawAppSpec} {facts : CheckedRecords}
  {request : RawCommandRequest} {prepared : PreparedCommand} {row : RawRecord}

theorem PreparedFor.command (hspec : WellFormed spec)
    (h : PreparedFor host caller spec facts request prepared) :
    CommandAccepted spec prepared.command prepared.machine prepared.policy.rule := by
  obtain ⟨hmem, -⟩ := RawAppSpec.command_some h.hasCommand
  obtain ⟨machine, policy, haccepted⟩ := hspec.declarations.commands _ hmem
  obtain rfl : prepared.machine = machine :=
    Option.some.inj (h.hasMachine.symm.trans haccepted.hasMachine)
  obtain rfl : prepared.policy.rule = policy :=
    Option.some.inj (h.hasPolicy.symm.trans haccepted.hasPolicy)
  exact haccepted

theorem PreparedFor.machineAccepted (hspec : WellFormed spec)
    (h : PreparedFor host caller spec facts request prepared) :
    MachineAccepted spec prepared.machine :=
  hspec.declarations.machines _ (RawAppSpec.machine_some h.hasMachine).1

theorem PreparedFor.machine_unique (hspec : WellFormed spec)
    (h : PreparedFor host caller spec facts request prepared) {machine : RawStateMachine}
    (hmem : machine ∈ spec.stateMachines) (htable : machine.tableId = prepared.machine.tableId) :
    machine = prepared.machine :=
  List.inj_on_of_nodup_map hspec.declarations.machineTables hmem
    (RawAppSpec.machine_some h.hasMachine).1 htable

/-- What is known of a field that a request gives a value for. -/
structure PlainInput (spec : RawAppSpec) (prepared : PreparedCommand) (id : FieldId)
    (value : Value) : Prop where
  field : ∃ field, spec.field prepared.machine.tableId id = some field ∧
    field.fieldType.isRef = false ∧ valueMatches field.fieldType value = true
  ne_state : id ≠ prepared.machine.stateField
  ne_owner : id ≠ prepared.policy.rule.ownerField
  free : ¬ spec.isCaptured prepared.machine.tableId id
  short : value.tooLong = false

theorem PreparedFor.plainInput (hspec : WellFormed spec)
    (h : PreparedFor host caller spec facts request prepared) {id : FieldId} {value : Value}
    (hvalue : request.inputs.get? id = some value) : PlainInput spec prepared id value := by
  obtain ⟨⟨input, hinput, rfl⟩, ⟨definition, hdefinition, htype⟩, hshort⟩ :=
    h.requested.input hvalue
  obtain ⟨field, hfield, hstate, howner, href, hfree⟩ := (h.command hspec).inputs input hinput
  obtain rfl : definition = field := Option.some.inj (hdefinition.symm.trans hfield)
  exact ⟨⟨definition, hfield, href, htype⟩, hstate, howner, hfree, hshort⟩

theorem PreparedFor.stateField (hspec : WellFormed spec)
    (h : PreparedFor host caller spec facts request prepared) :
    ∃ field, spec.field prepared.machine.tableId prepared.machine.stateField = some field ∧
      field.fieldType = .text := by
  have hrequired := (h.machineAccepted hspec).stateField
  unfold RawAppSpec.isRequiredText at hrequired
  split at hrequired
  · rename_i field hfield
    exact ⟨field, hfield, by simpa using (Bool.and_eq_true_iff.1 hrequired).1⟩
  · cases hrequired

theorem get?_proposed (h : prepared.request = request) (row : RawRecord) (id : FieldId) :
    (prepared.proposed row).values.get? id =
      if id = prepared.machine.stateField then some (.text prepared.command.toState)
      else (request.inputs.get? id).or (row.values.get? id) := by
  rw [PreparedCommand.proposed, OrdMap.get?_insert, OrdMap.get?_extend, h]

theorem get?_proposed_of_not_mem (h : prepared.request = request) (row : RawRecord) {id : FieldId}
    (hinput : id ∉ request.inputs.keys) (hstate : id ≠ prepared.machine.stateField) :
    (prepared.proposed row).values.get? id = row.values.get? id := by
  rw [get?_proposed h, if_neg hstate, OrdMap.get?_eq_none_iff.2 hinput, Option.none_or]

theorem get?_proposed_state (row : RawRecord) :
    (prepared.proposed row).values.get? prepared.machine.stateField =
      some (.text prepared.command.toState) := by
  rw [get?_proposed rfl, if_pos rfl]

theorem mem_keys_proposed (hspec : WellFormed spec)
    (h : PreparedFor host caller spec facts request prepared)
    (htable : row.tableId = prepared.machine.tableId)
    (hnormal : row.normalize spec = row) (id : FieldId) :
    id ∈ (prepared.proposed row).values.keys ↔ id ∈ row.values.keys := by
  rw [OrdMap.mem_keys_iff, get?_proposed h.request_eq, ← (normalize_eq_self_iff hspec).1 hnormal]
  by_cases hstate : id = prepared.machine.stateField
  · obtain ⟨field, hfield, -⟩ := h.stateField hspec
    simp [hstate, htable, hfield]
  · rw [if_neg hstate]
    cases hvalue : request.inputs.get? id with
    | some value =>
        obtain ⟨field, hfield, -⟩ := (h.plainInput hspec hvalue).field
        simp [htable, hfield]
    | none =>
        rw [Option.none_or, ← OrdMap.mem_keys_iff, (normalize_eq_self_iff hspec).1 hnormal]

theorem normalize_proposed (hspec : WellFormed spec)
    (h : PreparedFor host caller spec facts request prepared)
    (htable : row.tableId = prepared.machine.tableId) (hnormal : row.normalize spec = row) :
    (prepared.proposed row).normalize spec = prepared.proposed row := by
  rw [normalize_eq_self_iff hspec]
  intro id
  rw [mem_keys_proposed hspec h htable hnormal]
  exact (normalize_eq_self_iff hspec).1 hnormal id

end Prepared

/-- A record that is valid among some records passes the check among any records with the
same keys. -/
theorem checkField_of_validRecord {spec : RawAppSpec} {scope : Scope} {records : List RawRecord}
    {identities : List RecordKey} {row : RawRecord} {field : RawField}
    (hspec : WellFormed spec) (hids : ∀ k, k ∈ identities ↔ k ∈ records.map RawRecord.key)
    (hvalid : ValidRecord spec scope records row) (hfield : field ∈ spec.fieldsOf row.tableId) :
    checkField spec scope records identities row field = .ok () := by
  have hcheck := (checkRecord_eq_ok_iff hspec hids hvalid.inScope).2 hvalid
  obtain ⟨table, htable, hmem⟩ := mem_fieldsOf_iff.1 hfield
  simp only [checkRecord, htable, Exec.expect, ok_bind, bind_eq_ok] at hcheck
  obtain ⟨⟨⟩, -, hfields⟩ := hcheck
  exact each_eq_ok_iff.1 hfields field hmem

theorem matchesType_of_valueMatches {fieldType : FieldType} {value : Value}
    (h : valueMatches fieldType value = true) (hempty : value.isEmpty = false) :
    matchesType fieldType value = true := by
  cases fieldType <;> cases value <;> simp_all [valueMatches, matchesType, Value.isEmpty]

theorem ne_ref_of_valueMatches {fieldType : FieldType} {value : Value}
    (h : valueMatches fieldType value = true) (r : RecordRef) : value ≠ .ref r := by
  rintro rfl
  cases fieldType <;> simp [valueMatches] at h

section Decided

variable {host : SessionVerifier} {caller : Caller} {spec : RawAppSpec} {facts : CheckedRecords}
  {request : RawCommandRequest} {prepared : PreparedCommand} {row : RawRecord}

/-- Why a decision on a prepared command can fail. -/
def RefusesTransition (request : RawCommandRequest) : CommandError → Prop
  | .invalidTransition _ _ => True
  | .guardFailed _ => True
  | .kernel (.required record field) => record = request.recordId ∧ field ∈ request.inputs.keys
  | .kernel (.constraintViolation record field _) =>
      record = request.recordId ∧ field ∈ request.inputs.keys
  | .kernel (.limitExceeded _ _) => True
  | _ => False

/-- The checks of an input field of the changed record fail at requiredness or at a
constraint of the field. -/
theorem refuses_of_checkField_input (hspec : WellFormed spec)
    (h : PreparedFor host caller spec facts request prepared)
    (hrow : row.tableId = prepared.machine.tableId ∧ row.id = request.recordId)
    {records : List RawRecord} {identities : List RecordKey} {field : RawField} {value : Value}
    (hvalue : request.inputs.get? field.id = some value)
    (hproposed : (prepared.proposed row).value field.id = value) {halt : Halt Error}
    (hcheck : checkField spec facts.scope records identities (prepared.proposed row) field =
      .error halt) (hfield : field ∈ spec.fieldsOf prepared.machine.tableId) :
    ∃ e, halt = .fail e ∧ RefusesTransition request (.kernel e) := by
  obtain ⟨⟨f, hf, -, htype⟩, hstate, -, -, hshort⟩ := h.plainInput hspec hvalue
  obtain rfl : f = field :=
    Option.some.inj (hf.symm.trans ((field_eq_some_iff hspec).2 ⟨hfield, rfl⟩))
  have hkey : f.id ∈ request.inputs.keys := OrdMap.mem_keys_iff.2 ⟨value, hvalue⟩
  simp only [checkField, hproposed, bind_eq_error] at hcheck
  rcases hcheck with hcheck | ⟨-, -, hcheck | ⟨-, -, hcheck⟩⟩
  · unfold checkValue at hcheck
    split_ifs at hcheck with hempty
    · obtain ⟨-, rfl⟩ := rejectIf_eq_error.1 hcheck
      exact ⟨_, rfl, hrow.2, hkey⟩
    · have hmatch := matchesType_of_valueMatches htype (by simpa using hempty)
      have hreference : checkReference facts.scope records identities f.fieldType value = .ok () :=
        (checkReference_eq_ok_iff hmatch).2 fun r hr => absurd hr (ne_ref_of_valueMatches htype r)
      simp [hmatch, hshort, hreference, rejectIf] at hcheck
  · obtain ⟨rule, -, -, rfl⟩ := exists_of_rejectAny_eq_error hcheck
    exact ⟨_, rfl, hrow.2, hkey⟩
  · obtain ⟨machine, hmachine, ⟨htable, hfieldState, -⟩, -⟩ := exists_of_rejectAny_eq_error hcheck
    have hsame := h.machine_unique hspec hmachine (htable.trans hrow.1)
    rw [hsame] at hfieldState
    exact absurd hfieldState.symm hstate

/-- The state field of the changed record holds a state of the machine. -/
theorem checkField_state (hspec : WellFormed spec)
    (h : PreparedFor host caller spec facts request prepared)
    (htable : row.tableId = prepared.machine.tableId) {records : List RawRecord}
    {identities : List RecordKey} (hids : ∀ k, k ∈ identities ↔ k ∈ records.map RawRecord.key)
    {field : RawField} (hfield : field ∈ spec.fieldsOf prepared.machine.tableId)
    (hstate : field.id = prepared.machine.stateField) :
    checkField spec facts.scope records identities (prepared.proposed row) field = .ok () := by
  have haccepted := h.machineAccepted hspec
  have hto := (h.command hspec).to_mem
  have hvalue : (prepared.proposed row).value field.id = .text prepared.command.toState := by
    rw [RawRecord.value, hstate, get?_proposed_state, Option.getD_some]
  obtain ⟨f, hf, htype⟩ := h.stateField hspec
  obtain rfl : f = field :=
    Option.some.inj (hf.symm.trans ((field_eq_some_iff hspec).2 ⟨hfield, hstate⟩))
  rw [checkField_eq_ok_iff hids, hvalue]
  refine ⟨⟨fun _ => rfl, fun _ => by rw [htype]; rfl, ?_, fun r hr => by cases hr⟩, ?_, ?_⟩
  · have hname := haccepted.names _ hto
    simp only [invalidState, Bool.or_eq_false_iff, decide_eq_false_iff_not, gt_iff_lt,
      not_lt] at hname
    have hlimit : 64 ≤ maxTextBytes := by decide
    simp only [Value.tooLong, decide_eq_false_iff_not]
    omega
  · intro rule hrule hruleTable hruleField
    exact haccepted.admitted _ hto rule hrule (hruleTable.trans htable) (hruleField.trans hstate)
  · intro machine hmachine hmachineTable hmachineField
    rw [h.machine_unique hspec hmachine (hmachineTable.trans htable)]
    simpa [RawStateMachine.hasState] using hto

/-- The check of the changed list fails at an input value or at a bound. -/
theorem refuses_of_validateRecords (hspec : WellFormed spec)
    (h : PreparedFor host caller spec facts request prepared) (hfacts : facts.ValidFor spec)
    (hrow : facts.find prepared.machine.tableId request.recordId = some row) {halt : Halt Error}
    (hvalidate : validateRecords spec facts.scope (setRow (prepared.proposed row) facts.records) =
      .error halt) :
    ∃ e, halt = .fail e ∧ RefusesTransition request (.kernel e) := by
  obtain ⟨hvalid, hnormalized⟩ := (validFor_iff hspec).1 hfacts
  obtain ⟨hmem, htable, hid⟩ := CheckedRecords.find_some hrow
  have hnormal := ((normalized_eq_self_iff hvalid.keys).1 hnormalized).2 row hmem
  have hrowValid := hvalid.each row hmem
  have hshaped := hvalid.shaped
  have hshape : Shaped spec facts.scope (setRow (prepared.proposed row) facts.records) := by
    refine ⟨hshaped.app, by simpa [setRow] using hshaped.count, by simpa using hshaped.keys,
      ?_, ?_, ?_⟩
    · intro r hr
      rcases mem_setRow hr with rfl | ⟨hr, -⟩
      · exact hrowValid.inScope
      · exact hshaped.inScope r hr
    · intro r hr
      rcases mem_setRow hr with rfl | ⟨hr, -⟩
      · exact hshaped.tables row hmem
      · exact hshaped.tables r hr
    · intro r hr field hfield
      rcases mem_setRow hr with rfl | ⟨hr, -⟩
      · exact hshaped.declared row hmem field
          ((mem_keys_proposed hspec h htable hnormal field).1 hfield)
      · exact hshaped.declared r hr field hfield
  have hkeys : ∀ k, k ∈ facts.records.map RawRecord.key →
      k ∈ (setRow (prepared.proposed row) facts.records).map RawRecord.key := by simp
  rcases of_validateRecords_error hshape hvalidate with ⟨e, rfl, hlimit⟩ |
    ⟨r, hr, field, hfield, hcheck⟩
  · cases e with
    | limitExceeded resource limit => exact ⟨_, rfl, trivial⟩
    | _ => simp [Error.isLimit] at hlimit
  · rcases mem_setRow hr with rfl | ⟨hr, -⟩
    · have hfield' : field ∈ spec.fieldsOf prepared.machine.tableId := htable ▸ hfield
      by_cases hstate : field.id = prepared.machine.stateField
      · rw [checkField_state hspec h htable mem_keys_sortBy hfield' hstate] at hcheck
        cases hcheck
      · cases hinput : request.inputs.get? field.id with
        | some value =>
            refine refuses_of_checkField_input hspec h ⟨htable, hid⟩ hinput ?_ hcheck hfield'
            rw [RawRecord.value, get?_proposed h.request_eq, if_neg hstate, hinput, Option.some_or,
              Option.getD_some]
        | none =>
            have hsame : (prepared.proposed row).value field.id = row.value field.id := by
              rw [RawRecord.value, get?_proposed h.request_eq, if_neg hstate, hinput,
                Option.none_or, RawRecord.value]
            have hok := checkField_of_validRecord hspec mem_keys_sortBy (hrowValid.mono hkeys)
              (show field ∈ spec.fieldsOf row.tableId from hfield)
            rw [checkField_eq_ok_iff mem_keys_sortBy] at hok
            rw [← hsame] at hok
            rw [(checkField_eq_ok_iff mem_keys_sortBy).2 hok] at hcheck
            cases hcheck
    · rw [checkField_of_validRecord hspec mem_keys_sortBy ((hvalid.each r hr).mono hkeys) hfield]
        at hcheck
      cases hcheck

/-- What a successful decision does to the facts, to the record and to the outside. -/
structure TransitionCorrect (spec : RawAppSpec) (facts : CheckedRecords)
    (request : RawCommandRequest) (prepared : PreparedCommand) (batch : CheckedTransitionBatch)
    (old new : RawRecord) : Prop where
  writes : batch.writes = [new]
  found : facts.find prepared.machine.tableId request.recordId = some old
  identity : new.scope = old.scope ∧ new.tableId = old.tableId ∧ new.id = old.id
  inputs : ∀ field value, request.inputs.get? field = some value →
    new.values.get? field = some value
  unchanged : ∀ field, field ∉ request.inputs.keys → field ≠ prepared.machine.stateField →
    new.values.get? field = old.values.get? field
  owner : new.values.get? prepared.policy.rule.ownerField =
    old.values.get? prepared.policy.rule.ownerField
  references : ∀ id field, spec.field old.tableId id = some field → field.fieldType.isRef = true →
    new.values.get? id = old.values.get? id
  captures : ∀ rule ∈ spec.captureRules, rule.lineTable = old.tableId →
    new.values.get? rule.capturedPriceField = old.values.get? rule.capturedPriceField
  source : old.values.get? prepared.machine.stateField = some (.text prepared.command.fromState)
  live : prepared.command.fromState ∉ prepared.machine.terminalStates.keys
  target : new.values.get? prepared.machine.stateField = some (.text prepared.command.toState)
  guards : ∀ guard ∈ prepared.command.guards, old.values.get? guard.fieldId = some guard.equals
  valid : validateRecords spec facts.scope (setRow new facts.records) =
    .ok ⟨facts.scope, setRow new facts.records⟩
  events : List.Forall₂ (fun intent event => event.eventId = intent.eventId ∧
    ∀ field, event.payload.get? field =
      if field ∈ intent.fields.keys then new.values.get? field else none)
    prepared.command.events batch.events
  readable : ∀ intent ∈ prepared.command.events, ∀ field ∈ intent.fields.keys,
    field ∈ prepared.policy.rule.readFields.keys ∧ ∃ value, new.values.get? field = some value
  revision : batch.prepared = prepared
  receipt : batch.receipt =
    ⟨request.commandId, request.recordId, prepared.command.toState⟩

theorem refuses_of_checkTransition {halt : Halt CommandError}
    (h : checkTransition prepared.command prepared.machine row = .error halt) :
    ∃ e, halt = .fail e ∧ RefusesTransition request e := by
  simp only [checkTransition, bind_eq_error, rejectIf_eq_error] at h
  rcases h with ⟨-, rfl⟩ | ⟨-, -, h⟩
  · exact ⟨_, rfl, trivial⟩
  · obtain ⟨guard, -, -, rfl⟩ := exists_of_rejectAny_eq_error h
    exact ⟨_, rfl, trivial⟩

theorem of_checkTransition {machine : RawStateMachine} {command : RawCommand}
    (hstate : ∃ state ∈ machine.states.keys, row.value machine.stateField = .text state)
    (h : checkTransition command machine row = .ok ()) :
    row.values.get? machine.stateField = some (.text command.fromState) ∧
      command.fromState ∉ machine.terminalStates.keys ∧
      ∀ guard ∈ command.guards, row.values.get? guard.fieldId = some guard.equals := by
  simp only [checkTransition, bind_eq_ok, rejectIf_eq_ok, rejectAny_eq_ok, not_or, not_not] at h
  obtain ⟨-, ⟨hsource, hlive⟩, hguards⟩ := h
  obtain ⟨state, -, hvalue⟩ := hstate
  have hget : row.values.get? machine.stateField = some (.text state) := by
    rw [RawRecord.value] at hvalue
    cases hcase : row.values.get? machine.stateField with
    | none => simp [hcase] at hvalue
    | some v => simpa [hcase] using hvalue
  rw [RawStateMachine.stateOf, hget] at hsource hlive
  exact ⟨hsource ▸ hget, hsource ▸ hlive, hguards⟩

theorem get?_payload {proposed : RawRecord} {intent : RawEventIntent} {event : CheckedEventIntent}
    (h : projectEvent proposed intent = .ok event) :
    event.eventId = intent.eventId ∧ ∀ field, event.payload.get? field =
      if field ∈ intent.fields.keys then proposed.values.get? field else none := by
  simp only [projectEvent, bind_eq_ok, mapM_eq_ok_iff, Exec.expect_eq_ok, Except.ok.injEq] at h
  obtain ⟨entries, hentries, rfl⟩ := h
  refine ⟨rfl, fun field => ?_⟩
  obtain ⟨hkeys, hmem⟩ := entries_of_forall₂ hentries
  have hnodup : (entries.map (·.1)).Nodup := by
    rw [hkeys]
    exact OrdMap.keys_nodup _
  apply Option.ext
  intro v
  rw [OrdMap.get?_ofList_eq_some_iff hnodup, hmem]
  split_ifs with hfield <;> simp [hfield]

theorem projectEvent_ok {proposed : RawRecord} {intent : RawEventIntent}
    (h : ∀ field ∈ intent.fields.keys, ∃ v, proposed.values.get? field = some v) :
    ∃ event, projectEvent proposed intent = .ok event := by
  cases hproject : projectEvent proposed intent with
  | ok event => exact ⟨event, rfl⟩
  | error halt =>
      simp only [projectEvent, bind_eq_error, reduceCtorEq, and_false, exists_false,
        or_false] at hproject
      obtain ⟨field, hfield, hpanic⟩ := exists_of_mapM_eq_error hproject
      obtain ⟨v, hv⟩ := h field hfield
      simp [hv, Exec.expect] at hpanic

theorem field_of_isPlain {table : TableId} {id : FieldId} (h : spec.isPlain table id = true) :
    ∃ field, spec.field table id = some field := by
  unfold RawAppSpec.isPlain at h
  split at h
  · exact ⟨_, ‹_›⟩
  · cases h

/-- The steps of a decision that can fail on valid facts. -/
theorem decideCommand_eq (h : PreparedFor host caller spec facts request prepared)
    (hkeys : (facts.records.map RawRecord.key).Nodup)
    (hrow : facts.find prepared.machine.tableId request.recordId = some row)
    {dataRevision : U64} (hrevision : 0 < dataRevision.val) :
    decideCommand prepared dataRevision = (do
      checkTransition prepared.command prepared.machine row
      let finalFacts ← Exec.lift .kernel
        (validateRecords spec facts.scope (setRow (prepared.proposed row) facts.records))
      let proposed ← Exec.expect "validated row"
        (finalFacts.find prepared.machine.tableId request.recordId)
      rejectIf (¬ prepared.policy.allows prepared.context proposed .write) (.fail (.policy .denied))
      let events ← prepared.command.events.mapM (projectEvent proposed)
      .ok {
        prepared
        expectedRevision := dataRevision
        writes := [proposed]
        events
        receipt := ⟨prepared.command.commandId, request.recordId, prepared.command.toState⟩ }) := by
  have hcontext : prepared.context.scope = facts.scope :=
    (SessionVerifier.scope_of_resolve h.resolved).trans h.inScope.symm
  have hmem : (prepared.proposed row).key ∈ facts.records.map RawRecord.key :=
    List.mem_map.2 ⟨row, (CheckedRecords.find_some hrow).1, rfl⟩
  rw [decideCommand, rejectIf_bind_of_not (by omega), h.facts_eq, h.request_eq, hrow, h.spec_eq,
    hcontext]
  simp only [Exec.expect, ok_bind, replaceRow_eq_some hkeys hmem]

theorem normalized_setRow {new : RawRecord}
    (hkeys : (facts.records.map RawRecord.key).Nodup)
    (hnormal : normalized spec facts.records = facts.records) (hnew : new.normalize spec = new) :
    normalized spec (setRow new facts.records) = setRow new facts.records := by
  obtain ⟨hsorted, hrows⟩ := (normalized_eq_self_iff hkeys).1 hnormal
  refine (normalized_eq_self_iff (by simpa using hkeys)).2 ⟨by simpa using hsorted, ?_⟩
  intro r hr
  rcases mem_setRow hr with rfl | ⟨hr, -⟩
  · exact hnew
  · exact hrows r hr

/-- No command writes the owner field, so the caller who may write the record may write the
changed record. -/
theorem allows_proposed (hspec : WellFormed spec)
    (h : PreparedFor host caller spec facts request prepared) {grant : Grant}
    (hallows : prepared.policy.allows prepared.context row grant) :
    prepared.policy.allows prepared.context (prepared.proposed row) grant := by
  have howner : prepared.policy.rule.ownerField ∉ request.inputs.keys := by
    intro hmem
    obtain ⟨value, hvalue⟩ := OrdMap.mem_keys_iff.1 hmem
    exact (h.plainInput hspec hvalue).ne_owner rfl
  refine ⟨hallows.1, hallows.2.1, ?_⟩
  rw [get?_proposed_of_not_mem h.request_eq row howner (h.command hspec).owner_ne_state]
  exact hallows.2.2

/-- The changed record is correct when the facts with it are valid. -/
theorem transitionCorrect (hspec : WellFormed spec)
    (h : PreparedFor host caller spec facts request prepared) (hfacts : facts.ValidFor spec)
    (hrow : facts.find prepared.machine.tableId request.recordId = some row)
    (hcheck : checkTransition prepared.command prepared.machine row = .ok ())
    (hvalidate : validateRecords spec facts.scope (setRow (prepared.proposed row) facts.records) =
      .ok ⟨facts.scope, setRow (prepared.proposed row) facts.records⟩)
    {batch : CheckedTransitionBatch} (hprepared : batch.prepared = prepared)
    (hwrites : batch.writes = [prepared.proposed row])
    (hreceipt : batch.receipt =
      ⟨prepared.command.commandId, request.recordId, prepared.command.toState⟩)
    (hevents : prepared.command.events.mapM (projectEvent (prepared.proposed row)) =
      .ok batch.events) :
    TransitionCorrect spec facts request prepared batch row (prepared.proposed row) := by
  obtain ⟨hvalid, hnormalized⟩ := (validFor_iff hspec).1 hfacts
  obtain ⟨hmem, htable, -⟩ := CheckedRecords.find_some hrow
  have hcommand := h.command hspec
  have hnormal := ((normalized_eq_self_iff hvalid.keys).1 hnormalized).2 row hmem
  have hstates := (hvalid.each row hmem).states prepared.machine
    (RawAppSpec.machine_some h.hasMachine).1 htable.symm
  obtain ⟨hsource, hlive, hguards⟩ := of_checkTransition hstates hcheck
  have hplain : ∀ {id}, id ∈ request.inputs.keys → ∃ value, PlainInput spec prepared id value := by
    intro id hid
    obtain ⟨value, hvalue⟩ := OrdMap.mem_keys_iff.1 hid
    exact ⟨value, h.plainInput hspec hvalue⟩
  obtain ⟨stateField, hstateField, hstateType⟩ := h.stateField hspec
  refine {
    writes := hwrites
    found := hrow
    identity := ⟨rfl, rfl, rfl⟩
    inputs := ?_
    unchanged := fun field hinput hstate => get?_proposed_of_not_mem h.request_eq row hinput hstate
    owner := ?_
    references := ?_
    captures := ?_
    source := hsource
    live := hlive
    target := get?_proposed_state row
    guards := hguards
    valid := hvalidate
    events := (mapM_eq_ok_iff.1 hevents).imp fun _ _ hproject => get?_payload hproject
    readable := ?_
    revision := hprepared
    receipt := hreceipt.trans (by rw [(RawAppSpec.command_some h.hasCommand).2]) }
  · intro field value hvalue
    rw [get?_proposed h.request_eq, if_neg (h.plainInput hspec hvalue).ne_state, hvalue,
      Option.some_or]
  · refine get?_proposed_of_not_mem h.request_eq row (fun hid => ?_) hcommand.owner_ne_state
    obtain ⟨value, hplainInput⟩ := hplain hid
    exact hplainInput.ne_owner rfl
  · intro id field hfield href
    rw [htable] at hfield
    refine get?_proposed_of_not_mem h.request_eq row (fun hid => ?_) ?_
    · obtain ⟨value, ⟨f, hf, hplainType, -⟩, -⟩ := hplain hid
      obtain rfl : f = field := Option.some.inj (hf.symm.trans hfield)
      simp [href] at hplainType
    · rintro rfl
      obtain rfl : stateField = field := Option.some.inj (hstateField.symm.trans hfield)
      simp [hstateType, FieldType.isRef] at href
  · intro rule hrule hline
    rw [htable] at hline
    refine get?_proposed_of_not_mem h.request_eq row (fun hid => ?_) ?_
    · obtain ⟨value, hplainInput⟩ := hplain hid
      exact hplainInput.free ⟨rule, hrule, hline, .inl rfl⟩
    · intro heq
      obtain ⟨product, haccepted⟩ := hspec.captures rule hrule
      have hmoney := haccepted.target
      rw [hline, heq, RawAppSpec.hasType, hstateField, Option.map_some, hstateType] at hmoney
      cases hmoney
  · intro intent hintent field hfield
    have hread := hcommand.events intent hintent field hfield
    obtain ⟨f, hf⟩ := field_of_isPlain (h.accepted.plain field hread)
    rw [hcommand.table, ← htable] at hf
    refine ⟨hread, OrdMap.mem_keys_iff.1 ?_⟩
    rw [mem_keys_proposed hspec h htable hnormal]
    exact ((normalize_eq_self_iff hspec).1 hnormal field).1 ⟨f, hf⟩

/-- The decision on a prepared command, for valid facts, has the declared effect or is
refused. -/
theorem decideCommand_outcome (hspec : WellFormed spec)
    (h : PreparedFor host caller spec facts request prepared) (hfacts : facts.ValidFor spec)
    {dataRevision : U64} (hrevision : 0 < dataRevision.val) :
    (∀ batch, decideCommand prepared dataRevision = .ok batch →
      ∃ old new, TransitionCorrect spec facts request prepared batch old new) ∧
    ∀ halt, decideCommand prepared dataRevision = .error halt →
      ∃ e, halt = .fail e ∧ RefusesTransition request e := by
  obtain ⟨hvalid, hnormalized⟩ := (validFor_iff hspec).1 hfacts
  obtain ⟨row, hrow, hallows⟩ := h.row
  obtain ⟨hmem, htable, hid⟩ := CheckedRecords.find_some hrow
  have hnormal := ((normalized_eq_self_iff hvalid.keys).1 hnormalized).2 row hmem
  rw [decideCommand_eq h hvalid.keys hrow hrevision]
  cases hcheck : checkTransition prepared.command prepared.machine row with
  | error halt =>
      refine ⟨fun batch hbatch => (by cases hbatch), fun halt' hhalt => ?_⟩
      cases hhalt
      exact refuses_of_checkTransition hcheck
  | ok u =>
      cases hvalidate : validateRecords spec facts.scope
          (setRow (prepared.proposed row) facts.records) with
      | error halt =>
          refine ⟨fun batch hbatch => ?_, fun halt' hhalt => ?_⟩
          · obtain ⟨e, rfl, -⟩ := refuses_of_validateRecords hspec h hfacts hrow hvalidate
            cases hbatch
          · obtain ⟨e, rfl, hrefuses⟩ := refuses_of_validateRecords hspec h hfacts hrow hvalidate
            cases hhalt
            exact ⟨_, rfl, hrefuses⟩
      | ok out =>
          obtain ⟨hfinal, rfl⟩ := (validateRecords_eq_ok_iff hspec).1 hvalidate
          have hsame := normalized_setRow hvalid.keys hnormalized
            (normalize_proposed hspec h htable hnormal)
          rw [hsame] at hvalidate
          have hfound : CheckedRecords.find ⟨facts.scope,
              normalized spec (setRow (prepared.proposed row) facts.records)⟩
              prepared.machine.tableId request.recordId = some (prepared.proposed row) := by
            rw [hsame]
            refine (find_eq_some_iff (by simpa using hvalid.keys)).2 ⟨?_, htable, hid⟩
            exact new_mem_setRow (List.mem_map.2 ⟨row, hmem, rfl⟩)
          have hkeep := allows_proposed hspec h hallows
          simp only [Exec.lift, ok_bind, hfound, Exec.expect, rejectIf, hkeep, not_true_eq_false,
            if_false]
          cases hevents : prepared.command.events.mapM (projectEvent (prepared.proposed row)) with
          | error halt =>
              obtain ⟨intent, hintent, herror⟩ := exists_of_mapM_eq_error hevents
              obtain ⟨event, hevent⟩ := projectEvent_ok fun field hfield => by
                have hread := (h.command hspec).events intent hintent field hfield
                obtain ⟨f, hf⟩ := field_of_isPlain (h.accepted.plain field hread)
                rw [(h.command hspec).table, ← htable] at hf
                refine OrdMap.mem_keys_iff.1 ?_
                rw [mem_keys_proposed hspec h htable hnormal]
                exact ((normalize_eq_self_iff hspec).1 hnormal field).1 ⟨f, hf⟩
              rw [hevent] at herror
              cases herror
          | ok events =>
              refine ⟨fun batch hbatch => ?_, fun halt hhalt => (by cases hhalt)⟩
              cases hbatch
              exact ⟨row, prepared.proposed row,
                transitionCorrect hspec h hfacts hrow hcheck hvalidate rfl rfl rfl hevents⟩

end Decided

/-- The decision on a prepared command, for valid facts and a positive revision: a result is
the one declared write with its events, and a failure is a wrong state, a failed guard, an
input value or a bound of the encoder. -/
theorem decideCommand_exact (spec : CheckedAppSpec) (facts : CheckedRecords)
    (hfacts : facts.ValidFor spec.definition) (host : SessionVerifier) (caller : Caller)
    (request : RawCommandRequest) (prepared : PreparedCommand)
    (hprepared : prepareCommand host caller spec.definition facts request = .ok prepared)
    (dataRevision : U64) (hrevision : 0 < dataRevision.val) :
    (∀ batch, decideCommand prepared dataRevision = .ok batch →
      ∃ old new, TransitionCorrect spec.definition facts request prepared batch old new) ∧
    ∀ halt, decideCommand prepared dataRevision = .error halt →
      ∃ e, halt = .fail e ∧ RefusesTransition request e :=
  decideCommand_outcome (wellFormed spec) (prepareCommand_eq_ok_iff.1 hprepared) hfacts hrevision

theorem decideCommand_exact_ticket : ∃ prepared batch old new,
    prepareCommand (ticketHost ticketActor) ticketCaller ticketDefinition ticketFacts closeTicket =
      .ok prepared ∧
    decideCommand prepared ⟨1, by decide, by decide⟩ = .ok batch ∧
    TransitionCorrect ticketDefinition ticketFacts closeTicket prepared batch old new := by
  have hvalid : ticketFacts.ValidFor ticketSpec.definition :=
    ⟨ticketFacts.records, by decide +kernel⟩
  obtain ⟨batch, hrun⟩ := exists_eq_ok (show (prepareCommand (ticketHost ticketActor) ticketCaller
    ticketDefinition ticketFacts closeTicket >>= fun prepared =>
      decideCommand prepared ⟨1, by decide, by decide⟩).toBool = true by decide +kernel)
  obtain ⟨prepared, hprepare, hdecide⟩ := bind_eq_ok.1 hrun
  obtain ⟨old, new, hcorrect⟩ := (decideCommand_exact ticketSpec ticketFacts hvalid
    (ticketHost ticketActor) ticketCaller closeTicket prepared hprepare _ (by decide)).1 batch hdecide
  exact ⟨prepared, batch, old, new, hprepare, hdecide, hcorrect⟩

end Evobase
