import Evobase.AppSpec.Codec
import Evobase.AppSpec.Declaration
import Evobase.AppSpec.SerdeDefinition

/-!
# Compiling a definition

`compile` bounds the raw definition, puts its lists in the order of their identities and
checks the result. What a compiled definition has been checked for is `WellFormed`; a
`CheckedAppSpec` is a definition that compilation has returned. Compilation of a compiled
definition returns it unchanged (`compile_definition`).

The checks run over lists with an accumulator of what came before (`eachAfter`), so each of them
gives a fact about an element and its predecessors; `WellFormed` states the facts about the whole
lists. Two small definitions, of tickets and of a shop, are what the witnesses of the later
modules run on.
-/

namespace Evobase

open Foundation

def RawTable.canonical (table : RawTable) : RawTable :=
  { table with fields := sortBy (·.id) table.fields }

def RawCommand.canonical (command : RawCommand) : RawCommand :=
  { command with
    inputs := sortBy (·.fieldId) command.inputs
    guards := sortBy (·.fieldId) command.guards
    events := sortBy (·.eventId) command.events }

def CaptureRule.target (rule : CaptureRule) : Lex (TableId × FieldId) :=
  toLex (rule.lineTable, rule.capturedPriceField)

/-- The definition with every list in the order of its identities. -/
def RawAppSpec.canonical (raw : RawAppSpec) : RawAppSpec :=
  { raw with
    tables := (sortBy (·.id) raw.tables).map RawTable.canonical
    captureRules := sortBy CaptureRule.target raw.captureRules
    policies := sortBy (·.ruleId) raw.policies
    submitRules := sortBy (·.ruleId) raw.submitRules
    constraints := sortBy (·.constraintId) raw.constraints
    stateMachines := sortBy (·.machineId) raw.stateMachines
    commands := (sortBy (·.commandId) raw.commands).map RawCommand.canonical }

def checkName (name path : String) : Except Error Unit :=
  rejectIf (name = "" ∨ name.utf8ByteSize > maxNameBytes ∨ name.toList.any isControl = true)
    (.invalidName path)

/-- The checks before the lists are put in order. -/
def checkHeader (raw : RawAppSpec) : Except Error Unit := do
  rejectIf (raw.version.val ≠ 1 ∧ raw.version.val ≠ formatVersion)
    (.unsupportedVersion raw.version.val formatVersion)
  rejectIf (raw.version.val = 1 ∧ raw.constraints ≠ []) (.unsupportedDeclaration 1 "constraints")
  rejectIf (raw.constraints.length > maxConstraints) (.limitExceeded "constraints" maxConstraints)
  rejectIf (raw.version.val = 1 ∧ raw.stateMachines ≠ [])
    (.unsupportedDeclaration 1 "state_machines")
  rejectIf (raw.version.val = 1 ∧ raw.commands ≠ []) (.unsupportedDeclaration 1 "commands")
  checkLimits raw
  rejectIf (raw.tables.length > maxTables) (.limitExceeded "tables" maxTables)
  rejectIf (raw.captureRules.length > maxFields) (.limitExceeded "capture rules" maxFields)
  checkName raw.name "app.name"

/-- A table after the tables before it: field identities are unique across tables. -/
def checkTable (before : List RawTable) (table : RawTable) : Except Error Unit := do
  rejectIf (table.id ∈ before.map (·.id)) (.duplicateTable table.id)
  checkName table.name (table.id.text ++ ".name")
  rejectIf (table.fields.length > maxFieldsPerTable)
    (.limitExceeded "fields per table" maxFieldsPerTable)
  rejectIf ((before.map fun t => t.fields.length).sum + table.fields.length > maxFields)
    (.limitExceeded "fields" maxFields)
  eachAfter (fun seen field => do
    rejectIf (field.id ∈ before.flatMap (fun t => t.fields.map (·.id)) ∨
      field.id ∈ seen.map (·.id)) (.duplicateField table.id field.id)
    checkName field.name (table.id.text ++ "." ++ field.id.text ++ ".name")) [] table.fields

/-- Every reference has a declared target table. -/
def checkReferences (spec : RawAppSpec) : Except Error Unit :=
  each (fun table => each (fun field =>
    match field.fieldType with
    | .ref targetTable =>
        rejectIf (targetTable ∉ spec.tables.map (·.id)) (.unknownTable targetTable)
    | _ => .ok ()) table.fields) spec.tables

def checkCapture (spec : RawAppSpec) (before : List CaptureRule) (rule : CaptureRule) :
    Except Error Unit := do
  rejectIf (rule.target ∈ before.map CaptureRule.target) (.invalidCapture
    ("duplicate capture " ++ rule.lineTable.text ++ "." ++ rule.capturedPriceField.text))
  let reference ← okOr (.unknownField rule.lineTable rule.productRefField)
    (spec.field rule.lineTable rule.productRefField)
  match reference.fieldType with
  | .ref targetTable => do
      rejectIf (toLex (targetTable, rule.productPriceField) ∈
          spec.captureRules.map CaptureRule.target)
        (.invalidCapture "capture sources cannot be captured fields")
      let source ← okOr (.unknownField targetTable rule.productPriceField)
        (spec.field targetTable rule.productPriceField)
      let target ← okOr (.unknownField rule.lineTable rule.capturedPriceField)
        (spec.field rule.lineTable rule.capturedPriceField)
      rejectIf (source.fieldType ≠ .money ∨ target.fieldType ≠ .money)
        (.invalidCapture "capture source and destination must be money")
  | _ => .error (.invalidCapture "capture source must be a reference")

/-- Policies and submit rules: identities unique across both, one policy for a table. -/
def checkRules (spec : RawAppSpec) : Except Error Unit := do
  rejectIf (spec.policies.length > 64 ∨ spec.submitRules.length > 64)
    (.limitExceeded "policy/command rules" 64)
  eachAfter (fun before rule => do
    rejectIf (rule.ruleId ∈ before.map (·.ruleId) ∨ rule.tableId ∈ before.map (·.tableId))
      (.invalidPolicy rule.ruleId)
    let _ ← renameError (fun _ => .invalidPolicy rule.ruleId) (OwnerRolePolicy.check spec rule)
    .ok ()) [] spec.policies
  eachAfter (fun before rule => do
    rejectIf (rule.ruleId ∈ spec.policies.map (·.ruleId) ∨ rule.ruleId ∈ before.map (·.ruleId))
      (.invalidPolicy rule.ruleId)
    let policy ← okOr (.invalidPolicy rule.ruleId) (spec.policy rule.policyRuleId)
    let _ ← renameError (fun _ => .invalidPolicy rule.ruleId)
      (SubmitOrderRule.check spec ⟨spec, policy⟩ rule)
    .ok ()) [] spec.submitRules

/-- The checks of the definition in canonical order. -/
def checkCanonical (spec : RawAppSpec) : Except Error Unit := do
  eachAfter checkTable [] spec.tables
  checkReferences spec
  checkConstraints spec
  eachAfter (checkCapture spec) [] spec.captureRules
  let _ ← boundedEncode spec.toJson
  checkRules spec
  checkDeclarations spec

def compile (raw : RawAppSpec) : Except Error RawAppSpec := do
  checkHeader raw
  checkCanonical raw.canonical
  .ok raw.canonical

/-- A definition that compilation has returned. -/
structure CheckedAppSpec where
  definition : RawAppSpec
  compiled : ∃ raw, compile raw = .ok definition

theorem compile_eq_ok_iff {raw spec : RawAppSpec} :
    compile raw = .ok spec ↔
      checkHeader raw = .ok () ∧ checkCanonical raw.canonical = .ok () ∧ spec = raw.canonical := by
  simp only [compile, bind_eq_ok, Except.ok.injEq]
  constructor
  · rintro ⟨⟨⟩, hheader, ⟨⟩, hcanonical, rfl⟩
    exact ⟨hheader, hcanonical, rfl⟩
  · rintro ⟨hheader, hcanonical, rfl⟩
    exact ⟨(), hheader, (), hcanonical, rfl⟩

@[simp] theorem RawTable.canonical_canonical (table : RawTable) :
    table.canonical.canonical = table.canonical := by
  simp [canonical]

@[simp] theorem RawCommand.canonical_canonical (command : RawCommand) :
    command.canonical.canonical = command.canonical := by
  simp [canonical]

/-- Sorting a list whose elements were changed after it was sorted, their keys apart, and
changing them again. -/
theorem map_sortBy_map {α K : Type} [LinearOrder K] {key : α → K} {f : α → α} {l : List α}
    (hkey : ∀ a, key (f a) = key a) (hf : ∀ a, f (f a) = f a) :
    (sortBy key ((sortBy key l).map f)).map f = (sortBy key l).map f := by
  have hsorted : ((sortBy key l).map f).Pairwise fun a b => key a ≤ key b := by
    simpa [List.pairwise_map, hkey] using pairwise_sortBy key l
  rw [sortBy_of_pairwise key hsorted, List.map_map]
  exact List.map_congr_left fun a _ => hf a

theorem RawAppSpec.canonical_canonical (raw : RawAppSpec) :
    raw.canonical.canonical = raw.canonical := by
  simp only [canonical, sortBy_sortBy, mk.injEq, true_and]
  exact ⟨map_sortBy_map (fun _ => rfl) RawTable.canonical_canonical,
    map_sortBy_map (fun _ => rfl) RawCommand.canonical_canonical⟩

theorem sortBy_eq_nil_iff {α K : Type} [LinearOrder K] {key : α → K} {l : List α} :
    sortBy key l = [] ↔ l = [] := by
  rw [← List.length_eq_zero_iff, length_sortBy, List.length_eq_zero_iff]

theorem checkLimits_canonical {raw : RawAppSpec} :
    checkLimits raw.canonical = .ok () ↔ checkLimits raw = .ok () := by
  simp [checkLimits, bind_eq_ok, each_eq_ok_iff, RawAppSpec.canonical, RawCommand.canonical]

theorem checkHeader_canonical {raw : RawAppSpec} :
    checkHeader raw.canonical = .ok () ↔ checkHeader raw = .ok () := by
  have hlimits : ∀ u, checkLimits raw.canonical = .ok u ↔ checkLimits raw = .ok u :=
    fun _ => checkLimits_canonical
  have hversion : raw.canonical.version = raw.version := rfl
  have hname : raw.canonical.name = raw.name := rfl
  simp only [checkHeader, bind_eq_ok, rejectIf_eq_ok, hlimits, hversion, hname]
  simp [RawAppSpec.canonical, sortBy_eq_nil_iff]

/-- Compiling a compiled definition returns it unchanged. -/
theorem compile_definition (spec : CheckedAppSpec) :
    compile spec.definition = .ok spec.definition := by
  obtain ⟨definition, raw, hcompile⟩ := spec
  obtain ⟨hheader, hcanonical, rfl⟩ := compile_eq_ok_iff.1 hcompile
  rw [compile_eq_ok_iff, RawAppSpec.canonical_canonical]
  exact ⟨checkHeader_canonical.2 hheader, hcanonical, rfl⟩

/-- A capture rule copies a money field of the product into a money field of the line. -/
structure CaptureAccepted (spec : RawAppSpec) (rule : CaptureRule) (product : TableId) :
    Prop where
  reference : spec.hasType rule.lineTable rule.productRefField (.ref product)
  source_free : toLex (product, rule.productPriceField) ∉
    spec.captureRules.map CaptureRule.target
  source : spec.hasType product rule.productPriceField .money
  target : spec.hasType rule.lineTable rule.capturedPriceField .money

/-- What a compiled definition has been checked for. -/
structure WellFormed (spec : RawAppSpec) : Prop where
  tables_sorted : spec.tables.Pairwise fun a b => a.id < b.id
  fields_sorted : ∀ table ∈ spec.tables, table.fields.Pairwise fun a b => a.id < b.id
  fields_le : ∀ table ∈ spec.tables, table.fields.length ≤ maxFieldsPerTable
  references : ∀ table ∈ spec.tables, ∀ field ∈ table.fields, ∀ target,
    field.fieldType = .ref target → target ∈ spec.tables.map (·.id)
  constraints : ∀ rule ∈ spec.constraints, ∃ field,
    spec.field rule.tableId rule.fieldId = some field ∧
      rule.constraint.checkType field.fieldType = .ok ()
  captures : ∀ rule ∈ spec.captureRules, ∃ product, CaptureAccepted spec rule product
  captures_sorted : spec.captureRules.Pairwise fun a b => a.target < b.target
  fits : Fits spec.toJson
  policies : ∀ rule ∈ spec.policies, OwnerRolePolicy.Accepted spec rule
  policyIds : (spec.policies.map (·.ruleId)).Nodup
  policyTables : (spec.policies.map (·.tableId)).Nodup
  submitRules : ∀ rule ∈ spec.submitRules, ∃ policy, spec.policy rule.policyRuleId = some policy ∧
    SubmitOrderRule.Accepted spec ⟨spec, policy⟩ rule
  declarations : DeclarationsAccepted spec

theorem of_checkTable {before : List RawTable} {table : RawTable}
    (h : checkTable before table = .ok ()) :
    table.id ∉ before.map (·.id) ∧ table.fields.length ≤ maxFieldsPerTable ∧
      (table.fields.map (·.id)).Nodup := by
  simp only [checkTable, bind_eq_ok, rejectIf_eq_ok, gt_iff_lt, not_lt] at h
  obtain ⟨-, hid, ⟨⟩, -, -, hlength, -, -, hfields⟩ := h
  refine ⟨hid, hlength, nodup_of_eachAfter _ ?_ hfields⟩
  intro seen field hvisit
  simp only [bind_eq_ok, rejectIf_eq_ok, not_or] at hvisit
  obtain ⟨-, ⟨-, hfresh⟩, -⟩ := hvisit
  exact hfresh

theorem hasType_of_field {spec : RawAppSpec} {table : TableId} {id : FieldId} {field : RawField}
    {fieldType : FieldType} (hfield : spec.field table id = some field)
    (htype : field.fieldType = fieldType) : spec.hasType table id fieldType := by
  rw [RawAppSpec.hasType, hfield, Option.map_some, htype]

theorem of_checkCapture {spec : RawAppSpec} {before : List CaptureRule} {rule : CaptureRule}
    (h : checkCapture spec before rule = .ok ()) :
    rule.target ∉ before.map CaptureRule.target ∧ ∃ product, CaptureAccepted spec rule product := by
  simp only [checkCapture, bind_eq_ok, rejectIf_eq_ok, okOr_eq_ok] at h
  obtain ⟨-, hfresh, reference, hreference, h⟩ := h
  refine ⟨hfresh, ?_⟩
  cases htype : reference.fieldType with
  | ref product =>
      simp only [htype, bind_eq_ok, rejectIf_eq_ok, okOr_eq_ok, not_or, not_not] at h
      obtain ⟨-, hfree, source, hsource, target, htarget, hmoney⟩ := h
      exact ⟨product, hasType_of_field hreference htype, hfree, hasType_of_field hsource hmoney.1,
        hasType_of_field htarget hmoney.2⟩
  | text => simp [htype] at h
  | integer => simp [htype] at h
  | bool => simp [htype] at h
  | money => simp [htype] at h

theorem of_checkReferences {spec : RawAppSpec} (h : checkReferences spec = .ok ())
    {table : RawTable} (htable : table ∈ spec.tables) {field : RawField}
    (hfield : field ∈ table.fields) {target : TableId} (htype : field.fieldType = .ref target) :
    target ∈ spec.tables.map (·.id) := by
  have hvisit := each_eq_ok_iff.1 (each_eq_ok_iff.1 h table htable) field hfield
  simp only [htype, rejectIf_eq_ok, not_not] at hvisit
  exact hvisit

theorem of_checkConstraints {spec : RawAppSpec} (h : checkConstraints spec = .ok ())
    {rule : RawFieldConstraint} (hrule : rule ∈ spec.constraints) :
    ∃ field, spec.field rule.tableId rule.fieldId = some field ∧
      rule.constraint.checkType field.fieldType = .ok () := by
  simp only [checkConstraints, bind_eq_ok] at h
  obtain ⟨-, -, hrules⟩ := h
  obtain ⟨before, hvisit⟩ := visit_of_eachAfter hrules hrule
  simp only [bind_eq_ok, okOr_eq_ok, renameError_eq_ok] at hvisit
  obtain ⟨-, -, field, hfield, htype⟩ := hvisit
  exact ⟨field, hfield, htype⟩

theorem of_checkRules {spec : RawAppSpec} (h : checkRules spec = .ok ()) :
    (∀ rule ∈ spec.policies, OwnerRolePolicy.Accepted spec rule) ∧
      (spec.policies.map (·.ruleId)).Nodup ∧ (spec.policies.map (·.tableId)).Nodup ∧
      ∀ rule ∈ spec.submitRules, ∃ policy, spec.policy rule.policyRuleId = some policy ∧
        SubmitOrderRule.Accepted spec ⟨spec, policy⟩ rule := by
  simp only [checkRules, bind_eq_ok] at h
  obtain ⟨-, -, ⟨⟩, hpolicies, hsubmits⟩ := h
  refine ⟨?_, nodup_of_eachAfter _ ?_ hpolicies, nodup_of_eachAfter _ ?_ hpolicies, ?_⟩
  · intro rule hrule
    obtain ⟨before, hvisit⟩ := visit_of_eachAfter hpolicies hrule
    simp only [bind_eq_ok, renameError_eq_ok, OwnerRolePolicy.check_eq_ok_iff] at hvisit
    obtain ⟨-, -, policy, ⟨haccepted, -⟩, -⟩ := hvisit
    exact haccepted
  · intro before rule hvisit
    simp only [bind_eq_ok, rejectIf_eq_ok, not_or] at hvisit
    obtain ⟨-, ⟨hid, -⟩, -⟩ := hvisit
    exact hid
  · intro before rule hvisit
    simp only [bind_eq_ok, rejectIf_eq_ok, not_or] at hvisit
    obtain ⟨-, ⟨-, htable⟩, -⟩ := hvisit
    exact htable
  · intro rule hrule
    obtain ⟨before, hvisit⟩ := visit_of_eachAfter hsubmits hrule
    simp only [bind_eq_ok, okOr_eq_ok, renameError_eq_ok, SubmitOrderRule.check_eq_ok_iff]
      at hvisit
    obtain ⟨-, -, policy, hpolicy, command, ⟨haccepted, -⟩, -⟩ := hvisit
    exact ⟨policy, hpolicy, haccepted⟩

/-- Every compiled definition is well formed. -/
theorem wellFormed (spec : CheckedAppSpec) : WellFormed spec.definition := by
  obtain ⟨definition, raw, hcompile⟩ := spec
  obtain ⟨-, hcanonical, rfl⟩ := compile_eq_ok_iff.1 hcompile
  simp only [checkCanonical, bind_eq_ok] at hcanonical
  obtain ⟨⟨⟩, htables, ⟨⟩, hreferences, ⟨⟩, hconstraints, ⟨⟩, hcaptures, bytes, hencode, ⟨⟩,
    hrules, hdeclarations⟩ := hcanonical
  have hids : ((sortBy (·.id) raw.tables).map (·.id)).Nodup := by
    have := nodup_of_eachAfter (·.id) (fun before t ht => (of_checkTable ht).1) htables
    simpa [RawAppSpec.canonical, List.map_map, Function.comp_def, RawTable.canonical] using this
  have hvisit : ∀ table ∈ raw.canonical.tables, ∃ before, checkTable before table = .ok () :=
    fun table htable => visit_of_eachAfter htables htable
  obtain ⟨hpolicies, hpolicyIds, hpolicyTables, hsubmits⟩ := of_checkRules hrules
  refine {
    tables_sorted := ?_
    fields_sorted := ?_
    fields_le := ?_
    references := ?_
    constraints := fun rule hrule => of_checkConstraints hconstraints hrule
    captures := ?_
    captures_sorted := ?_
    fits := ((boundedEncode_eq_ok_iff (RawAppSpec.exact_toJson _)).1 hencode).1
    policies := hpolicies
    policyIds := hpolicyIds
    policyTables := hpolicyTables
    submitRules := hsubmits
    declarations := of_checkDeclarations hdeclarations }
  · have hsorted := pairwise_lt_sortBy (·.id) (l := sortBy (·.id) raw.tables) hids
    rw [sortBy_sortBy] at hsorted
    simpa [RawAppSpec.canonical, List.pairwise_map, RawTable.canonical] using hsorted
  · intro table htable
    obtain ⟨before, hcheck⟩ := hvisit table htable
    obtain ⟨t, -, rfl⟩ := List.mem_map.1 htable
    have hnodup := (of_checkTable hcheck).2.2
    have hsorted := pairwise_lt_sortBy (fun field : RawField => field.id) hnodup
    simpa [RawTable.canonical] using hsorted
  · intro table htable
    obtain ⟨before, hcheck⟩ := hvisit table htable
    exact (of_checkTable hcheck).2.1
  · intro table htable field hfield target htype
    exact of_checkReferences hreferences htable hfield htype
  · intro rule hrule
    obtain ⟨before, hcheck⟩ := visit_of_eachAfter hcaptures hrule
    exact (of_checkCapture hcheck).2
  · have hnodup := nodup_of_eachAfter CaptureRule.target
      (fun before r hr => (of_checkCapture hr).1) hcaptures
    have hsorted := pairwise_lt_sortBy CaptureRule.target hnodup
    simpa [RawAppSpec.canonical] using hsorted

def versionTwo : U32 := ⟨2, by decide, by decide⟩

/-- Tickets with an owner, a note and a state, and one command that closes an open
ticket. -/
def ticketDefinition : RawAppSpec where
  version := versionTwo
  appId := ⟨"app_t", by decide⟩
  name := "T"
  tables := [{
    id := ⟨"tbl_t", by decide⟩
    name := "T"
    fields := [⟨⟨"fld_n", by decide⟩, "N", false, .text⟩, ⟨⟨"fld_o", by decide⟩, "O", true, .text⟩,
      ⟨⟨"fld_s", by decide⟩, "S", true, .text⟩] }]
  captureRules := []
  policies := [{
    ruleId := "rule_t"
    revision := U64.one
    tableId := ⟨"tbl_t", by decide⟩
    ownerField := ⟨"fld_o", by decide⟩
    readFields := .ofList [⟨"fld_s", by decide⟩]
    readRoles := .empty
    writeRoles := .empty
    submitRoles := .empty }]
  submitRules := []
  constraints := []
  stateMachines := [{
    machineId := ⟨"machine_t", by decide⟩
    tableId := ⟨"tbl_t", by decide⟩
    stateField := ⟨"fld_s", by decide⟩
    states := .ofList ["closed", "open"]
    terminalStates := .ofList ["closed"] }]
  commands := [{
    commandId := ⟨"cmd_close", by decide⟩
    revision := U64.one
    policyRuleId := "rule_t"
    stateMachineId := ⟨"machine_t", by decide⟩
    fromState := "open"
    toState := "closed"
    inputs := [⟨⟨"fld_n", by decide⟩, false, []⟩]
    guards := []
    events := [⟨⟨"event_closed", by decide⟩, .ofList [⟨"fld_s", by decide⟩]⟩] }]

def ticketSpec : CheckedAppSpec := ⟨ticketDefinition, ticketDefinition, by decide +kernel⟩

def ticketScope : Scope := ⟨"t", ticketDefinition.appId, by decide⟩

/-- An open ticket of an owner. -/
def openTicket (id : RecordId) (owner : String) : RawRecord where
  scope := ticketScope
  id := id
  tableId := ⟨"tbl_t", by decide⟩
  values := .ofList [(⟨"fld_n", by decide⟩, .blank), (⟨"fld_o", by decide⟩, .text owner),
    (⟨"fld_s", by decide⟩, .text "open")]

def fldN : FieldId := ⟨"fld_n", by decide⟩
def fldO : FieldId := ⟨"fld_o", by decide⟩
def cmdClose : CommandId := ⟨"cmd_close", by decide⟩
def machineT : StateMachineId := ⟨"machine_t", by decide⟩
def recA : RecordId := ⟨"rec_a", by decide⟩
def recB : RecordId := ⟨"rec_b", by decide⟩

/-- A shop with products, orders and lines. A line captures the price of its product, which
is at least one. The machine of the orders ends in the state in which a submission begins. -/
def shopDefinition : RawAppSpec where
  version := versionTwo
  appId := ⟨"app_s", by decide⟩
  name := "S"
  tables := [
    { id := ⟨"tbl_l", by decide⟩, name := "L", fields := [
        ⟨⟨"fld_lo", by decide⟩, "O", false, .ref ⟨"tbl_o", by decide⟩⟩,
        ⟨⟨"fld_lp", by decide⟩, "P", false, .ref ⟨"tbl_p", by decide⟩⟩,
        ⟨⟨"fld_lq", by decide⟩, "Q", false, .integer⟩,
        ⟨⟨"fld_lx", by decide⟩, "X", false, .money⟩] },
    { id := ⟨"tbl_o", by decide⟩, name := "O", fields := [
        ⟨⟨"fld_on", by decide⟩, "N", false, .text⟩, ⟨⟨"fld_oo", by decide⟩, "O", true, .text⟩,
        ⟨⟨"fld_os", by decide⟩, "S", true, .text⟩] },
    { id := ⟨"tbl_p", by decide⟩, name := "P", fields := [
        ⟨⟨"fld_px", by decide⟩, "X", false, .money⟩] }]
  captureRules := [⟨⟨"tbl_l", by decide⟩, ⟨"fld_lp", by decide⟩, ⟨"fld_px", by decide⟩,
    ⟨"fld_lx", by decide⟩⟩]
  policies := [{
    ruleId := "rule_o"
    revision := U64.one
    tableId := ⟨"tbl_o", by decide⟩
    ownerField := ⟨"fld_oo", by decide⟩
    readFields := .empty
    readRoles := .empty
    writeRoles := .empty
    submitRoles := .empty }]
  submitRules := [{
    ruleId := "rule_s"
    revision := U64.one
    policyRuleId := "rule_o"
    orderTable := ⟨"tbl_o", by decide⟩
    stateField := ⟨"fld_os", by decide⟩
    notesField := ⟨"fld_on", by decide⟩
    lineTable := ⟨"tbl_l", by decide⟩
    lineOrderField := ⟨"fld_lo", by decide⟩
    quantityField := ⟨"fld_lq", by decide⟩
    capturedPriceField := ⟨"fld_lx", by decide⟩ }]
  constraints := [⟨⟨"constraint_x", by decide⟩, ⟨"tbl_l", by decide⟩, ⟨"fld_lx", by decide⟩,
    .numericRange I64.one ⟨1000, by decide, by decide⟩⟩]
  stateMachines := [{
    machineId := ⟨"machine_o", by decide⟩
    tableId := ⟨"tbl_o", by decide⟩
    stateField := ⟨"fld_os", by decide⟩
    states := .ofList ["draft", "submitted"]
    terminalStates := .ofList ["draft"] }]
  commands := []

def shopSpec : CheckedAppSpec := ⟨shopDefinition, shopDefinition, by decide +kernel⟩

def shopScope : Scope := ⟨"t", shopDefinition.appId, by decide⟩

def shopProduct (id : RecordId) (price : I64) : RawRecord where
  scope := shopScope
  id := id
  tableId := ⟨"tbl_p", by decide⟩
  values := .ofList [(⟨"fld_px", by decide⟩, .money price)]

def draftOrder (id : RecordId) (owner : String) : RawRecord where
  scope := shopScope
  id := id
  tableId := ⟨"tbl_o", by decide⟩
  values := .ofList [(⟨"fld_on", by decide⟩, .blank), (⟨"fld_oo", by decide⟩, .text owner),
    (⟨"fld_os", by decide⟩, .text "draft")]

def shopLine (id order product : RecordId) (price : Value) : RawRecord where
  scope := shopScope
  id := id
  tableId := ⟨"tbl_l", by decide⟩
  values := .ofList [(⟨"fld_lo", by decide⟩, .ref ⟨shopScope, ⟨"tbl_o", by decide⟩, order⟩),
    (⟨"fld_lp", by decide⟩, .ref ⟨shopScope, ⟨"tbl_p", by decide⟩, product⟩),
    (⟨"fld_lq", by decide⟩, .integer I64.one), (⟨"fld_lx", by decide⟩, price)]

def tblL : TableId := ⟨"tbl_l", by decide⟩
def tblO : TableId := ⟨"tbl_o", by decide⟩
def tblP : TableId := ⟨"tbl_p", by decide⟩
def fldLo : FieldId := ⟨"fld_lo", by decide⟩
def fldLq : FieldId := ⟨"fld_lq", by decide⟩
def fldLx : FieldId := ⟨"fld_lx", by decide⟩
def fldOs : FieldId := ⟨"fld_os", by decide⟩
def recL : RecordId := ⟨"rec_l", by decide⟩
def recO : RecordId := ⟨"rec_o", by decide⟩
def recP : RecordId := ⟨"rec_p", by decide⟩

def shopPrice : I64 := ⟨5, by decide, by decide⟩

end Evobase
