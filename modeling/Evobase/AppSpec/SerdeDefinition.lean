import Evobase.AppSpec.SerdeRecord

/-!
# Definitions as JSON

The derived encodings of the declarations and their readers. Field types and
constraints are tagged from inside: the tag is one member among the others, or the
first element of an array. Empty lists of optional declarations are left out.

Each reader comes with its encoding and the two lemmas about them: the encoding is read back
(`ofJson_toJson`), and it is exact (`exact_toJson`), so that it survives the writing of its text.
-/

namespace Evobase

open Foundation

/-- The tag of an internally tagged value, and the value without its tag. -/
def untag? (tag : String) : Json → Option (String × Json)
  | .obj members =>
      match members.filter (fun m => m.1 = tag) with
      | [(_, .str variant)] => some (variant, .obj (members.filter fun m => m.1 ≠ tag))
      | _ => none
  | .arr (.str variant :: rest) => some (variant, .arr rest)
  | _ => none

/-- A tagged value without content: any other members are ignored. -/
def untaggedUnit? : Json → Option Unit
  | .obj _ | .arr [] => some ()
  | _ => none

def FieldType.toJson : FieldType → Json
  | .ref targetTable =>
      .ofFields [("type", some (.str "ref")), ("target_table", some targetTable.toJson)]
  | other => .ofFields [("type", some (.str other.name))]

def FieldType.ofJson (j : Json) : Option FieldType :=
  (untag? "type" j).bind fun (variant, rest) =>
    if variant = "text" then (untaggedUnit? rest).map fun _ => .text
    else if variant = "integer" then (untaggedUnit? rest).map fun _ => .integer
    else if variant = "bool" then (untaggedUnit? rest).map fun _ => .bool
    else if variant = "money" then (untaggedUnit? rest).map fun _ => .money
    else if variant = "ref" then
      match rest.fields? ["target_table"] with
      | some [targetTable] => (targetTable.bind Identity.ofJson).map .ref
      | _ => none
    else none

@[simp] theorem FieldType.ofJson_toJson (t : FieldType) : ofJson t.toJson = some t := by
  cases t <;>
    simp [ofJson, toJson, name, Json.ofFields, Json.present, untag?, untaggedUnit?, Json.fields?]

@[simp] theorem FieldType.exact_toJson (t : FieldType) : t.toJson.Exact := by
  cases t <;> exact Json.exact_ofFields (by simp)

def RawField.toJson (f : RawField) : Json :=
  .ofFields [("id", some f.id.toJson), ("name", some (.str f.name)),
    ("required", some (.bool f.required)), ("field_type", some f.fieldType.toJson)]

def RawField.ofJson (j : Json) : Option RawField :=
  match j.fields? ["id", "name", "required", "field_type"] with
  | some [id, name, required, fieldType] => do
      let id ← id.bind Identity.ofJson
      let name ← name.bind Json.str?
      let required ← Json.boolOrFalse required
      let fieldType ← fieldType.bind FieldType.ofJson
      some ⟨id, name, required, fieldType⟩
  | _ => none

@[simp] theorem RawField.ofJson_toJson (f : RawField) : ofJson f.toJson = some f := by
  simp [ofJson, toJson, Json.fields?_ofFields]

@[simp] theorem RawField.exact_toJson (f : RawField) : f.toJson.Exact :=
  Json.exact_ofFields (by simp)

def RawTable.toJson (t : RawTable) : Json :=
  .ofFields [("id", some t.id.toJson), ("name", some (.str t.name)),
    ("fields", some (.ofList RawField.toJson t.fields))]

def RawTable.ofJson (j : Json) : Option RawTable :=
  match j.fields? ["id", "name", "fields"] with
  | some [id, name, fields] => do
      let id ← id.bind Identity.ofJson
      let name ← name.bind Json.str?
      let fields ← fields.bind (Json.list? RawField.ofJson)
      some ⟨id, name, fields⟩
  | _ => none

@[simp] theorem RawTable.ofJson_toJson (t : RawTable) : ofJson t.toJson = some t := by
  simp [ofJson, toJson, Json.fields?_ofFields, Json.list?_ofList]

@[simp] theorem RawTable.exact_toJson (t : RawTable) : t.toJson.Exact :=
  Json.exact_ofFields (by simp [Json.exact_ofList])

def CaptureRule.toJson (r : CaptureRule) : Json :=
  .ofFields [("line_table", some r.lineTable.toJson),
    ("product_ref_field", some r.productRefField.toJson),
    ("product_price_field", some r.productPriceField.toJson),
    ("captured_price_field", some r.capturedPriceField.toJson)]

def CaptureRule.ofJson (j : Json) : Option CaptureRule :=
  match j.fields? ["line_table", "product_ref_field", "product_price_field",
    "captured_price_field"] with
  | some [lineTable, productRefField, productPriceField, capturedPriceField] => do
      let lineTable ← lineTable.bind Identity.ofJson
      let productRefField ← productRefField.bind Identity.ofJson
      let productPriceField ← productPriceField.bind Identity.ofJson
      let capturedPriceField ← capturedPriceField.bind Identity.ofJson
      some ⟨lineTable, productRefField, productPriceField, capturedPriceField⟩
  | _ => none

@[simp] theorem CaptureRule.ofJson_toJson (r : CaptureRule) : ofJson r.toJson = some r := by
  simp [ofJson, toJson, Json.fields?_ofFields]

@[simp] theorem CaptureRule.exact_toJson (r : CaptureRule) : r.toJson.Exact :=
  Json.exact_ofFields (by simp)

def Constraint.toJson : Constraint → Json
  | .nonEmpty => .ofFields [("kind", some (.str "non_empty"))]
  | .textLength min max =>
      .ofFields [("kind", some (.str "text_length")), ("min", some (.ofU64 min)),
        ("max", some (.ofU64 max))]
  | .numericRange min max =>
      .ofFields [("kind", some (.str "numeric_range")), ("min", some (.ofI64 min)),
        ("max", some (.ofI64 max))]

/-- The two bounds of a constraint. -/
def bounds? {lo hi : Int} (j : Json) : Option (Bounded lo hi × Bounded lo hi) :=
  match j.fields? ["min", "max"] with
  | some [min, max] => do
      let min ← min.bind Json.int?
      let max ← max.bind Json.int?
      some (min, max)
  | _ => none

def Constraint.ofJson (j : Json) : Option Constraint :=
  (untag? "kind" j).bind fun (variant, rest) =>
    if variant = "non_empty" then (untaggedUnit? rest).map fun _ => .nonEmpty
    else if variant = "text_length" then (bounds? rest).map fun b => .textLength b.1 b.2
    else if variant = "numeric_range" then (bounds? rest).map fun b => .numericRange b.1 b.2
    else none

@[simp] theorem Constraint.ofJson_toJson (c : Constraint) : ofJson c.toJson = some c := by
  cases c <;>
    simp [ofJson, toJson, Json.ofFields, Json.present, untag?, untaggedUnit?, bounds?,
      Json.fields?, lookup_cons_ite]

@[simp] theorem Constraint.exact_toJson (c : Constraint) : c.toJson.Exact := by
  cases c <;> exact Json.exact_ofFields (by simp)

def RawFieldConstraint.toJson (r : RawFieldConstraint) : Json :=
  .ofFields [("constraint_id", some r.constraintId.toJson), ("table_id", some r.tableId.toJson),
    ("field_id", some r.fieldId.toJson), ("constraint", some r.constraint.toJson)]

def RawFieldConstraint.ofJson (j : Json) : Option RawFieldConstraint :=
  match j.fields? ["constraint_id", "table_id", "field_id", "constraint"] with
  | some [constraintId, tableId, fieldId, constraint] => do
      let constraintId ← constraintId.bind Identity.ofJson
      let tableId ← tableId.bind Identity.ofJson
      let fieldId ← fieldId.bind Identity.ofJson
      let constraint ← constraint.bind Constraint.ofJson
      some ⟨constraintId, tableId, fieldId, constraint⟩
  | _ => none

@[simp] theorem RawFieldConstraint.ofJson_toJson (r : RawFieldConstraint) :
    ofJson r.toJson = some r := by
  simp [ofJson, toJson, Json.fields?_ofFields]

@[simp] theorem RawFieldConstraint.exact_toJson (r : RawFieldConstraint) : r.toJson.Exact :=
  Json.exact_ofFields (by simp)

def RoleId.toJson (r : RoleId) : Json := .str r.text

def RoleId.ofJson (j : Json) : Option RoleId := j.str?.bind RoleId.ofText?

@[simp] theorem RoleId.ofJson_toJson (r : RoleId) : ofJson r.toJson = some r :=
  RoleId.ofText?_text r

@[simp] theorem RoleId.exact_toJson (r : RoleId) : r.toJson.Exact := trivial

def RawOwnerRolePolicy.toJson (p : RawOwnerRolePolicy) : Json :=
  .ofFields [("rule_id", some (.str p.ruleId)), ("revision", some (.ofU64 p.revision)),
    ("table_id", some p.tableId.toJson), ("owner_field", some p.ownerField.toJson),
    ("read_fields", some (.ofSet Identity.toJson p.readFields)),
    ("read_roles", some (.ofSet RoleId.toJson p.readRoles)),
    ("write_roles", some (.ofSet RoleId.toJson p.writeRoles)),
    ("submit_roles", some (.ofSet RoleId.toJson p.submitRoles))]

def RawOwnerRolePolicy.ofJson (j : Json) : Option RawOwnerRolePolicy :=
  match j.fields? ["rule_id", "revision", "table_id", "owner_field", "read_fields",
    "read_roles", "write_roles", "submit_roles"] with
  | some [ruleId, revision, tableId, ownerField, readFields, readRoles, writeRoles,
      submitRoles] => do
      let ruleId ← ruleId.bind Json.str?
      let revision ← revision.bind Json.int?
      let tableId ← tableId.bind Identity.ofJson
      let ownerField ← ownerField.bind Identity.ofJson
      let readFields ← readFields.bind (Json.set? Identity.ofJson)
      let readRoles ← readRoles.bind (Json.set? RoleId.ofJson)
      let writeRoles ← writeRoles.bind (Json.set? RoleId.ofJson)
      let submitRoles ← submitRoles.bind (Json.set? RoleId.ofJson)
      some ⟨ruleId, revision, tableId, ownerField, readFields, readRoles, writeRoles,
        submitRoles⟩
  | _ => none

@[simp] theorem RawOwnerRolePolicy.ofJson_toJson (p : RawOwnerRolePolicy) :
    ofJson p.toJson = some p := by
  simp [ofJson, toJson, Json.fields?_ofFields, Json.set?_ofSet]

@[simp] theorem RawOwnerRolePolicy.exact_toJson (p : RawOwnerRolePolicy) : p.toJson.Exact :=
  Json.exact_ofFields (by simp [Json.exact_ofSet])

def RawSubmitOrderRule.toJson (r : RawSubmitOrderRule) : Json :=
  .ofFields [("rule_id", some (.str r.ruleId)), ("revision", some (.ofU64 r.revision)),
    ("policy_rule_id", some (.str r.policyRuleId)), ("order_table", some r.orderTable.toJson),
    ("state_field", some r.stateField.toJson), ("notes_field", some r.notesField.toJson),
    ("line_table", some r.lineTable.toJson),
    ("line_order_field", some r.lineOrderField.toJson),
    ("quantity_field", some r.quantityField.toJson),
    ("captured_price_field", some r.capturedPriceField.toJson)]

def RawSubmitOrderRule.ofJson (j : Json) : Option RawSubmitOrderRule :=
  match j.fields? ["rule_id", "revision", "policy_rule_id", "order_table", "state_field",
    "notes_field", "line_table", "line_order_field", "quantity_field",
    "captured_price_field"] with
  | some [ruleId, revision, policyRuleId, orderTable, stateField, notesField, lineTable,
      lineOrderField, quantityField, capturedPriceField] => do
      let ruleId ← ruleId.bind Json.str?
      let revision ← revision.bind Json.int?
      let policyRuleId ← policyRuleId.bind Json.str?
      let orderTable ← orderTable.bind Identity.ofJson
      let stateField ← stateField.bind Identity.ofJson
      let notesField ← notesField.bind Identity.ofJson
      let lineTable ← lineTable.bind Identity.ofJson
      let lineOrderField ← lineOrderField.bind Identity.ofJson
      let quantityField ← quantityField.bind Identity.ofJson
      let capturedPriceField ← capturedPriceField.bind Identity.ofJson
      some ⟨ruleId, revision, policyRuleId, orderTable, stateField, notesField, lineTable,
        lineOrderField, quantityField, capturedPriceField⟩
  | _ => none

@[simp] theorem RawSubmitOrderRule.ofJson_toJson (r : RawSubmitOrderRule) :
    ofJson r.toJson = some r := by
  simp [ofJson, toJson, Json.fields?_ofFields]

@[simp] theorem RawSubmitOrderRule.exact_toJson (r : RawSubmitOrderRule) : r.toJson.Exact :=
  Json.exact_ofFields (by simp)

def RawStateMachine.toJson (m : RawStateMachine) : Json :=
  .ofFields [("machine_id", some m.machineId.toJson), ("table_id", some m.tableId.toJson),
    ("state_field", some m.stateField.toJson), ("states", some (.ofSet .str m.states)),
    ("terminal_states", Json.setUnlessEmpty .str m.terminalStates)]

def RawStateMachine.ofJson (j : Json) : Option RawStateMachine :=
  match j.fields? ["machine_id", "table_id", "state_field", "states", "terminal_states"] with
  | some [machineId, tableId, stateField, states, terminalStates] => do
      let machineId ← machineId.bind Identity.ofJson
      let tableId ← tableId.bind Identity.ofJson
      let stateField ← stateField.bind Identity.ofJson
      let states ← states.bind (Json.set? Json.str?)
      let terminalStates ← Json.setOrEmpty Json.str? terminalStates
      some ⟨machineId, tableId, stateField, states, terminalStates⟩
  | _ => none

@[simp] theorem RawStateMachine.ofJson_toJson (m : RawStateMachine) :
    ofJson m.toJson = some m := by
  have hstates : Json.set? Json.str? (Json.ofSet Json.str m.states) = some m.states :=
    Json.set?_ofSet fun s _ => Json.str?_str s
  have hterminal : Json.setOrEmpty Json.str? (Json.setUnlessEmpty Json.str m.terminalStates) =
      some m.terminalStates :=
    Json.setOrEmpty_setUnlessEmpty fun s _ => Json.str?_str s
  simp [ofJson, toJson, Json.fields?_ofFields, hstates, hterminal]

@[simp] theorem RawStateMachine.exact_toJson (m : RawStateMachine) : m.toJson.Exact := by
  have hterminal : ∀ j ∈ Json.setUnlessEmpty .str m.terminalStates, j.Exact :=
    Json.exact_unlessEmpty fun s _ => Json.exact_str s
  exact Json.exact_ofFields (by simpa [Json.exact_ofSet] using hterminal)

def CommandInput.toJson (i : CommandInput) : Json :=
  .ofFields [("field_id", some i.fieldId.toJson), ("required", some (.bool i.required)),
    ("constraints", Json.unlessEmpty Constraint.toJson i.constraints)]

def CommandInput.ofJson (j : Json) : Option CommandInput :=
  match j.fields? ["field_id", "required", "constraints"] with
  | some [fieldId, required, constraints] => do
      let fieldId ← fieldId.bind Identity.ofJson
      let required ← Json.boolOrFalse required
      let constraints ← Json.listOrEmpty Constraint.ofJson constraints
      some ⟨fieldId, required, constraints⟩
  | _ => none

@[simp] theorem CommandInput.ofJson_toJson (i : CommandInput) : ofJson i.toJson = some i := by
  simp [ofJson, toJson, Json.fields?_ofFields, Json.listOrEmpty_unlessEmpty]

@[simp] theorem CommandInput.exact_toJson (i : CommandInput) : i.toJson.Exact := by
  have hconstraints : ∀ j ∈ Json.unlessEmpty Constraint.toJson i.constraints, j.Exact :=
    Json.exact_unlessEmpty fun c _ => c.exact_toJson
  exact Json.exact_ofFields (by simpa using hconstraints)

def CommandGuard.toJson (g : CommandGuard) : Json :=
  .ofFields [("field_id", some g.fieldId.toJson), ("equals", some g.equals.toJson)]

def CommandGuard.ofJson (j : Json) : Option CommandGuard :=
  match j.fields? ["field_id", "equals"] with
  | some [fieldId, equals] => do
      let fieldId ← fieldId.bind Identity.ofJson
      let equals ← equals.bind Value.ofJson
      some ⟨fieldId, equals⟩
  | _ => none

@[simp] theorem CommandGuard.ofJson_toJson (g : CommandGuard) : ofJson g.toJson = some g := by
  simp [ofJson, toJson, Json.fields?_ofFields]

@[simp] theorem CommandGuard.exact_toJson (g : CommandGuard) : g.toJson.Exact :=
  Json.exact_ofFields (by simp)

def RawEventIntent.toJson (e : RawEventIntent) : Json :=
  .ofFields [("event_id", some e.eventId.toJson),
    ("fields", some (.ofSet Identity.toJson e.fields))]

def RawEventIntent.ofJson (j : Json) : Option RawEventIntent :=
  match j.fields? ["event_id", "fields"] with
  | some [eventId, fields] => do
      let eventId ← eventId.bind Identity.ofJson
      let fields ← fields.bind (Json.set? Identity.ofJson)
      some ⟨eventId, fields⟩
  | _ => none

@[simp] theorem RawEventIntent.ofJson_toJson (e : RawEventIntent) : ofJson e.toJson = some e := by
  simp [ofJson, toJson, Json.fields?_ofFields, Json.set?_ofSet]

@[simp] theorem RawEventIntent.exact_toJson (e : RawEventIntent) : e.toJson.Exact :=
  Json.exact_ofFields (by simp [Json.exact_ofSet])

def RawCommand.toJson (c : RawCommand) : Json :=
  .ofFields [("command_id", some c.commandId.toJson), ("revision", some (.ofU64 c.revision)),
    ("policy_rule_id", some (.str c.policyRuleId)),
    ("state_machine_id", some c.stateMachineId.toJson),
    ("from_state", some (.str c.fromState)), ("to_state", some (.str c.toState)),
    ("inputs", Json.unlessEmpty CommandInput.toJson c.inputs),
    ("guards", Json.unlessEmpty CommandGuard.toJson c.guards),
    ("events", Json.unlessEmpty RawEventIntent.toJson c.events)]

def RawCommand.ofJson (j : Json) : Option RawCommand :=
  match j.fields? ["command_id", "revision", "policy_rule_id", "state_machine_id", "from_state",
    "to_state", "inputs", "guards", "events"] with
  | some [commandId, revision, policyRuleId, stateMachineId, fromState, toState, inputs, guards,
      events] => do
      let commandId ← commandId.bind Identity.ofJson
      let revision ← revision.bind Json.int?
      let policyRuleId ← policyRuleId.bind Json.str?
      let stateMachineId ← stateMachineId.bind Identity.ofJson
      let fromState ← fromState.bind Json.str?
      let toState ← toState.bind Json.str?
      let inputs ← Json.listOrEmpty CommandInput.ofJson inputs
      let guards ← Json.listOrEmpty CommandGuard.ofJson guards
      let events ← Json.listOrEmpty RawEventIntent.ofJson events
      some ⟨commandId, revision, policyRuleId, stateMachineId, fromState, toState, inputs,
        guards, events⟩
  | _ => none

@[simp] theorem RawCommand.ofJson_toJson (c : RawCommand) : ofJson c.toJson = some c := by
  simp [ofJson, toJson, Json.fields?_ofFields, Json.listOrEmpty_unlessEmpty]

@[simp] theorem RawCommand.exact_toJson (c : RawCommand) : c.toJson.Exact := by
  have hinputs : ∀ j ∈ Json.unlessEmpty CommandInput.toJson c.inputs, j.Exact :=
    Json.exact_unlessEmpty fun i _ => i.exact_toJson
  have hguards : ∀ j ∈ Json.unlessEmpty CommandGuard.toJson c.guards, j.Exact :=
    Json.exact_unlessEmpty fun g _ => g.exact_toJson
  have hevents : ∀ j ∈ Json.unlessEmpty RawEventIntent.toJson c.events, j.Exact :=
    Json.exact_unlessEmpty fun e _ => e.exact_toJson
  refine Json.exact_ofFields ?_
  simp only [List.forall_mem_cons, List.not_mem_nil, false_implies, implies_true, and_true]
  exact ⟨by simp, by simp, by simp, by simp, by simp, by simp, hinputs, hguards, hevents⟩

def RawAppSpec.toJson (spec : RawAppSpec) : Json :=
  .ofFields [("version", some (.ofU32 spec.version)), ("app_id", some spec.appId.toJson),
    ("name", some (.str spec.name)), ("tables", some (.ofList RawTable.toJson spec.tables)),
    ("capture_rules", Json.unlessEmpty CaptureRule.toJson spec.captureRules),
    ("policies", Json.unlessEmpty RawOwnerRolePolicy.toJson spec.policies),
    ("submit_rules", Json.unlessEmpty RawSubmitOrderRule.toJson spec.submitRules),
    ("constraints", Json.unlessEmpty RawFieldConstraint.toJson spec.constraints),
    ("state_machines", Json.unlessEmpty RawStateMachine.toJson spec.stateMachines),
    ("commands", Json.unlessEmpty RawCommand.toJson spec.commands)]

def RawAppSpec.ofJson (j : Json) : Option RawAppSpec :=
  match j.fields? ["version", "app_id", "name", "tables", "capture_rules", "policies",
    "submit_rules", "constraints", "state_machines", "commands"] with
  | some [version, appId, name, tables, captureRules, policies, submitRules, constraints,
      stateMachines, commands] => do
      let version ← version.bind Json.int?
      let appId ← appId.bind Identity.ofJson
      let name ← name.bind Json.str?
      let tables ← tables.bind (Json.list? RawTable.ofJson)
      let captureRules ← Json.listOrEmpty CaptureRule.ofJson captureRules
      let policies ← Json.listOrEmpty RawOwnerRolePolicy.ofJson policies
      let submitRules ← Json.listOrEmpty RawSubmitOrderRule.ofJson submitRules
      let constraints ← Json.listOrEmpty RawFieldConstraint.ofJson constraints
      let stateMachines ← Json.listOrEmpty RawStateMachine.ofJson stateMachines
      let commands ← Json.listOrEmpty RawCommand.ofJson commands
      some ⟨version, appId, name, tables, captureRules, policies, submitRules, constraints,
        stateMachines, commands⟩
  | _ => none

@[simp] theorem RawAppSpec.ofJson_toJson (spec : RawAppSpec) :
    ofJson spec.toJson = some spec := by
  simp [ofJson, toJson, Json.fields?_ofFields, Json.list?_ofList, Json.listOrEmpty_unlessEmpty]

@[simp] theorem RawAppSpec.exact_toJson (spec : RawAppSpec) : spec.toJson.Exact := by
  have hcaptures : ∀ j ∈ Json.unlessEmpty CaptureRule.toJson spec.captureRules, j.Exact :=
    Json.exact_unlessEmpty fun r _ => r.exact_toJson
  have hpolicies : ∀ j ∈ Json.unlessEmpty RawOwnerRolePolicy.toJson spec.policies, j.Exact :=
    Json.exact_unlessEmpty fun p _ => p.exact_toJson
  have hsubmits : ∀ j ∈ Json.unlessEmpty RawSubmitOrderRule.toJson spec.submitRules, j.Exact :=
    Json.exact_unlessEmpty fun r _ => r.exact_toJson
  have hconstraints :
      ∀ j ∈ Json.unlessEmpty RawFieldConstraint.toJson spec.constraints, j.Exact :=
    Json.exact_unlessEmpty fun r _ => r.exact_toJson
  have hmachines : ∀ j ∈ Json.unlessEmpty RawStateMachine.toJson spec.stateMachines, j.Exact :=
    Json.exact_unlessEmpty fun m _ => m.exact_toJson
  have hcommands : ∀ j ∈ Json.unlessEmpty RawCommand.toJson spec.commands, j.Exact :=
    Json.exact_unlessEmpty fun c _ => c.exact_toJson
  refine Json.exact_ofFields ?_
  simp only [List.forall_mem_cons, List.not_mem_nil, false_implies, implies_true, and_true]
  exact ⟨by simp, by simp, by simp, by simp [Json.exact_ofList], hcaptures, hpolicies, hsubmits,
    hconstraints, hmachines, hcommands⟩

end Evobase
