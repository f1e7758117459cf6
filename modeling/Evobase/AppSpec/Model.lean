import Evobase.AppSpec.Error

/-!
# The data model of a definition and of its records

The raw declarations are what a definition file holds; records are rows of the
declared tables. Maps and sets are ordered as in the source, so equal values have
equal representations and one encoding.
-/

namespace Evobase

open Foundation

/-- A reference to a record of a table of a scope. -/
structure RecordRef where
  scope : Scope
  tableId : TableId
  recordId : RecordId
deriving DecidableEq, Repr

/-- A cell. Money is a signed number of minor units. -/
inductive Value where
  | blank
  | null
  | text (text : String)
  | integer (value : I64)
  | bool (value : Bool)
  | money (value : I64)
  | ref (reference : RecordRef)
deriving DecidableEq, Repr

def Value.isEmpty : Value → Bool
  | .blank | .null => true
  | _ => false

/-- A row as it is written, before any check. -/
structure RawRecord where
  scope : Scope
  id : RecordId
  tableId : TableId
  values : OrdMap FieldId Value
deriving DecidableEq

/-- A record is identified by its table and its id, ordered by table first. -/
abbrev RecordKey := Lex (TableId × RecordId)

instance : LawfulBEq RecordKey := inferInstance

def RawRecord.key (row : RawRecord) : RecordKey := toLex (row.tableId, row.id)

/-- The type of a field. -/
inductive FieldType where
  | text
  | integer
  | bool
  | money
  | ref (targetTable : TableId)
deriving DecidableEq, Repr

/-- The name of a type in an error. -/
def FieldType.name : FieldType → String
  | .text => "text"
  | .integer => "integer"
  | .bool => "bool"
  | .money => "money"
  | .ref _ => "ref"

def FieldType.isRef : FieldType → Bool
  | .ref _ => true
  | _ => false

structure RawField where
  id : FieldId
  name : String
  required : Bool
  fieldType : FieldType
deriving DecidableEq, Repr

structure RawTable where
  id : TableId
  name : String
  fields : List RawField
deriving DecidableEq, Repr

/-- A line of `lineTable` keeps, in `capturedPriceField`, the price that the product
named by `productRefField` had when the line was inserted. -/
structure CaptureRule where
  lineTable : TableId
  productRefField : FieldId
  productPriceField : FieldId
  capturedPriceField : FieldId
deriving DecidableEq, Repr

/-- A refinement of the values of a field. -/
inductive Constraint where
  | nonEmpty
  | textLength (min max : U64)
  | numericRange (min max : I64)
deriving DecidableEq, Repr

structure RawFieldConstraint where
  constraintId : ConstraintId
  tableId : TableId
  fieldId : FieldId
  constraint : Constraint
deriving DecidableEq, Repr

/-- Rows of a table belong to the actor named in `ownerField`; the roles reach every
row of the table. -/
structure RawOwnerRolePolicy where
  ruleId : String
  revision : U64
  tableId : TableId
  ownerField : FieldId
  readFields : OrdSet FieldId
  readRoles : OrdSet RoleId
  writeRoles : OrdSet RoleId
  submitRoles : OrdSet RoleId
deriving DecidableEq

structure RawSubmitOrderRule where
  ruleId : String
  revision : U64
  policyRuleId : String
  orderTable : TableId
  stateField : FieldId
  notesField : FieldId
  lineTable : TableId
  lineOrderField : FieldId
  quantityField : FieldId
  capturedPriceField : FieldId
deriving DecidableEq, Repr

structure RawStateMachine where
  machineId : StateMachineId
  tableId : TableId
  stateField : FieldId
  states : OrdSet String
  terminalStates : OrdSet String
deriving DecidableEq

structure CommandInput where
  fieldId : FieldId
  required : Bool
  constraints : List Constraint
deriving DecidableEq, Repr

structure CommandGuard where
  fieldId : FieldId
  equals : Value
deriving DecidableEq, Repr

structure RawEventIntent where
  eventId : EventId
  fields : OrdSet FieldId
deriving DecidableEq

structure RawCommand where
  commandId : CommandId
  revision : U64
  policyRuleId : String
  stateMachineId : StateMachineId
  fromState : String
  toState : String
  inputs : List CommandInput
  guards : List CommandGuard
  events : List RawEventIntent
deriving DecidableEq

structure RawAppSpec where
  version : U32
  appId : AppId
  name : String
  tables : List RawTable
  captureRules : List CaptureRule
  policies : List RawOwnerRolePolicy
  submitRules : List RawSubmitOrderRule
  constraints : List RawFieldConstraint
  stateMachines : List RawStateMachine
  commands : List RawCommand
deriving DecidableEq

namespace RawAppSpec

def table (spec : RawAppSpec) (id : TableId) : Option RawTable :=
  spec.tables.find? fun table => table.id = id

def field (spec : RawAppSpec) (table : TableId) (id : FieldId) : Option RawField :=
  (spec.table table).bind fun table => table.fields.find? fun field => field.id = id

theorem table_some {spec : RawAppSpec} {id : TableId} {table : RawTable}
    (h : spec.table id = some table) : table ∈ spec.tables ∧ table.id = id :=
  ⟨List.mem_of_find?_eq_some h, by simpa using List.find?_some h⟩

theorem field_some {spec : RawAppSpec} {table : TableId} {id : FieldId} {field : RawField}
    (h : spec.field table id = some field) :
    ∃ t, spec.table table = some t ∧ field ∈ t.fields ∧ field.id = id := by
  obtain ⟨t, ht, hfield⟩ := Option.bind_eq_some_iff.1 h
  exact ⟨t, ht, List.mem_of_find?_eq_some hfield, by simpa using List.find?_some hfield⟩

end RawAppSpec

/-- A request to run a declared command on a record. -/
structure RawCommandRequest where
  commandId : CommandId
  recordId : RecordId
  idempotencyKey : String
  inputs : OrdMap FieldId Value
deriving DecidableEq

end Evobase
