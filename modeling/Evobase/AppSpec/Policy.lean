import Evobase.AppSpec.Authority

/-!
# Row policies and submit rules

A policy lets a caller reach a row of its table when the owner field names the caller or
when the caller has one of the roles of the grant. A submit rule names the fields of an
order and of its lines. Both are checked against the definition that declares them.
-/

namespace Evobase

open Foundation

inductive PolicyError where
  | authority (error : AuthorityError)
  | invalidPolicy
  | scopeMismatch
  | denied
  | invalidInput
  | immutableField
  | notDraft
  | emptyOrder
  | invalidQuantity
  | intentConflict
  | overflow
deriving DecidableEq, Repr

/-- A policy together with the definition it was checked against. -/
structure OwnerRolePolicy where
  definition : RawAppSpec
  rule : RawOwnerRolePolicy
deriving DecidableEq

def RawAppSpec.hasType (spec : RawAppSpec) (table : TableId) (field : FieldId)
    (fieldType : FieldType) : Prop :=
  (spec.field table field).map (·.fieldType) = some fieldType

instance (spec : RawAppSpec) (table : TableId) (field : FieldId) (fieldType : FieldType) :
    Decidable (spec.hasType table field fieldType) :=
  inferInstanceAs (Decidable (_ = _))

/-- The field is declared in the table and is not a reference. -/
def RawAppSpec.isPlain (spec : RawAppSpec) (table : TableId) (field : FieldId) : Bool :=
  match spec.field table field with
  | some f => !f.fieldType.isRef
  | none => false

namespace OwnerRolePolicy

def check (spec : RawAppSpec) (rule : RawOwnerRolePolicy) : Except PolicyError OwnerRolePolicy := do
  rejectIf (boundedId rule.ruleId "rule_" = false ∨ rule ∉ spec.policies ∨
    rule.revision.val = 0 ∨ rule.readFields.keys.length > 256 ∨
    rule.readRoles.keys.length > 64 ∨ rule.writeRoles.keys.length > 64 ∨
    rule.submitRoles.keys.length > 64 ∨ ¬ spec.hasType rule.tableId rule.ownerField .text ∨
    ∃ field ∈ rule.readFields.keys, spec.isPlain rule.tableId field = false) .invalidPolicy
  .ok ⟨spec, rule⟩

/-- The roles that reach every row of the table with the grant. -/
def roles (policy : OwnerRolePolicy) : Grant → OrdSet RoleId
  | .read => policy.rule.readRoles
  | .submit => policy.rule.submitRoles
  | _ => policy.rule.writeRoles

/-- The caller may use the grant on the row. -/
def allows (policy : OwnerRolePolicy) (context : TrustedContext) (row : RawRecord)
    (grant : Grant) : Prop :=
  row.scope = context.scope ∧ row.tableId = policy.rule.tableId ∧
    (row.values.get? policy.rule.ownerField = some (.text context.actor.text) ∨
      ∃ role ∈ (policy.roles grant).keys, role ∈ context.roles.keys)

instance (policy : OwnerRolePolicy) (context : TrustedContext) (row : RawRecord)
    (grant : Grant) : Decidable (policy.allows context row grant) :=
  inferInstanceAs (Decidable (_ ∧ _ ∧ _))

/-- What a checked policy has been checked for. -/
structure Accepted (spec : RawAppSpec) (rule : RawOwnerRolePolicy) : Prop where
  ruleId : boundedId rule.ruleId "rule_" = true
  declared : rule ∈ spec.policies
  revision : rule.revision.val ≠ 0
  readFields_le : rule.readFields.keys.length ≤ 256
  readRoles_le : rule.readRoles.keys.length ≤ 64
  writeRoles_le : rule.writeRoles.keys.length ≤ 64
  submitRoles_le : rule.submitRoles.keys.length ≤ 64
  owner : spec.hasType rule.tableId rule.ownerField .text
  plain : ∀ field ∈ rule.readFields.keys, spec.isPlain rule.tableId field = true

theorem check_eq_ok_iff {spec : RawAppSpec} {rule : RawOwnerRolePolicy}
    {policy : OwnerRolePolicy} :
    check spec rule = .ok policy ↔ Accepted spec rule ∧ policy = ⟨spec, rule⟩ := by
  simp only [check, bind_eq_ok, rejectIf_eq_ok, not_or, Bool.not_eq_false, not_not, gt_iff_lt,
    not_lt, not_exists, not_and, Except.ok.injEq]
  constructor
  · rintro ⟨-, ⟨hid, hdecl, hrev, hfields, hread, hwrite, hsubmit, howner, hplain⟩, rfl⟩
    exact ⟨⟨hid, hdecl, hrev, hfields, hread, hwrite, hsubmit, howner, hplain⟩, rfl⟩
  · rintro ⟨⟨hid, hdecl, hrev, hfields, hread, hwrite, hsubmit, howner, hplain⟩, rfl⟩
    exact ⟨(), ⟨hid, hdecl, hrev, hfields, hread, hwrite, hsubmit, howner, hplain⟩, rfl⟩

end OwnerRolePolicy

/-- A submit rule together with the definition it was checked against. -/
structure SubmitOrderRule where
  definition : RawAppSpec
  rule : RawSubmitOrderRule
deriving DecidableEq

namespace SubmitOrderRule

def check (spec : RawAppSpec) (policy : OwnerRolePolicy) (rule : RawSubmitOrderRule) :
    Except PolicyError SubmitOrderRule := do
  rejectIf (boundedId rule.ruleId "rule_" = false ∨ rule ∉ spec.submitRules ∨
    rule.revision.val = 0 ∨ rule.policyRuleId ≠ policy.rule.ruleId ∨
    rule.orderTable ≠ policy.rule.tableId ∨ rule.lineTable = rule.orderTable ∨
    policy.definition.appId ≠ spec.appId ∨ policy.definition ≠ spec ∨
    ¬ spec.hasType rule.orderTable rule.stateField .text ∨
    ¬ spec.hasType rule.orderTable rule.notesField .text ∨
    ¬ spec.hasType rule.lineTable rule.quantityField .integer ∨
    ¬ spec.hasType rule.lineTable rule.capturedPriceField .money ∨
    ¬ spec.hasType rule.lineTable rule.lineOrderField (.ref rule.orderTable) ∨
    (¬ ∃ capture ∈ spec.captureRules, capture.lineTable = rule.lineTable ∧
      capture.capturedPriceField = rule.capturedPriceField) ∨
    rule.stateField = rule.notesField ∨ rule.notesField = policy.rule.ownerField ∨
    rule.stateField = policy.rule.ownerField ∨ rule.lineOrderField = rule.quantityField ∨
    rule.capturedPriceField = rule.quantityField) .invalidPolicy
  .ok ⟨spec, rule⟩

/-- What a checked submit rule has been checked for. -/
structure Accepted (spec : RawAppSpec) (policy : OwnerRolePolicy) (rule : RawSubmitOrderRule) :
    Prop where
  ruleId : boundedId rule.ruleId "rule_" = true
  declared : rule ∈ spec.submitRules
  revision : rule.revision.val ≠ 0
  policyRule : rule.policyRuleId = policy.rule.ruleId
  orderTable : rule.orderTable = policy.rule.tableId
  tables_ne : rule.lineTable ≠ rule.orderTable
  definition : policy.definition = spec
  state : spec.hasType rule.orderTable rule.stateField .text
  notes : spec.hasType rule.orderTable rule.notesField .text
  quantity : spec.hasType rule.lineTable rule.quantityField .integer
  price : spec.hasType rule.lineTable rule.capturedPriceField .money
  lineOrder : spec.hasType rule.lineTable rule.lineOrderField (.ref rule.orderTable)
  captured : ∃ capture ∈ spec.captureRules, capture.lineTable = rule.lineTable ∧
    capture.capturedPriceField = rule.capturedPriceField
  state_ne_notes : rule.stateField ≠ rule.notesField
  notes_ne_owner : rule.notesField ≠ policy.rule.ownerField
  state_ne_owner : rule.stateField ≠ policy.rule.ownerField
  lineOrder_ne_quantity : rule.lineOrderField ≠ rule.quantityField
  price_ne_quantity : rule.capturedPriceField ≠ rule.quantityField

theorem check_eq_ok_iff {spec : RawAppSpec} {policy : OwnerRolePolicy}
    {rule : RawSubmitOrderRule} {command : SubmitOrderRule} :
    check spec policy rule = .ok command ↔
      Accepted spec policy rule ∧ command = ⟨spec, rule⟩ := by
  simp only [check, bind_eq_ok, rejectIf_eq_ok, not_or, Bool.not_eq_false, not_not, ne_eq,
    Except.ok.injEq]
  constructor
  · rintro ⟨-, ⟨h₁, h₂, h₃, h₄, h₅, h₆, -, h₈, h₉, h₁₀, h₁₁, h₁₂, h₁₃, h₁₄, h₁₅, h₁₆, h₁₇, h₁₈,
      h₁₉⟩, rfl⟩
    exact ⟨⟨h₁, h₂, h₃, h₄, h₅, h₆, h₈, h₉, h₁₀, h₁₁, h₁₂, h₁₃, h₁₄, h₁₅, h₁₆, h₁₇, h₁₈, h₁₉⟩, rfl⟩
  · rintro ⟨⟨h₁, h₂, h₃, h₄, h₅, h₆, h₈, h₉, h₁₀, h₁₁, h₁₂, h₁₃, h₁₄, h₁₅, h₁₆, h₁₇, h₁₈, h₁₉⟩, rfl⟩
    exact ⟨(), ⟨h₁, h₂, h₃, h₄, h₅, h₆, by rw [h₈], h₈, h₉, h₁₀, h₁₁, h₁₂, h₁₃, h₁₄, h₁₅, h₁₆,
      h₁₇, h₁₈, h₁₉⟩, rfl⟩

end SubmitOrderRule

end Evobase
