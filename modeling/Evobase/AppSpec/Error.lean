import Evobase.AppSpec.Id
import Evobase.Foundation.Outcome

/-!
# Errors and limits of the definition kernel

The error values carry the same data as the source: the identities and paths they
name, the resource and the bound of a limit, and the fixed reasons.
-/

namespace Evobase

open Foundation

def formatVersion : Int := 2
def maxBytes : Nat := 1048576
def maxDepth : Nat := 16
def maxNodes : Nat := 20000
def maxTables : Nat := 64
def maxFieldsPerTable : Nat := 256
def maxFields : Nat := 2048
def maxRecords : Nat := 4096
def maxNameBytes : Nat := 256
def maxTextBytes : Nat := 16384
def maxConstraints : Nat := 256
def maxCommands : Nat := 64
def maxStateMachines : Nat := 64
def maxStates : Nat := 64
def maxCommandInputs : Nat := 64
def maxGuards : Nat := 32
def maxEvents : Nat := 16

/-- The errors of the definition kernel. -/
inductive Error where
  | invalidId (kind : String) (value : String)
  | invalidTenant
  | invalidJson (message : String)
  | unsupportedVersion (found supported : Int)
  | unsupportedDeclaration (version : Nat) (declaration : String)
  | limitExceeded (resource : String) (limit : Nat)
  | invalidName (path : String)
  | duplicateTable (table : TableId)
  | duplicateField (table : TableId) (field : FieldId)
  | unknownTable (table : TableId)
  | unknownField (table : TableId) (field : FieldId)
  | invalidCapture (reason : String)
  | invalidPolicy (ruleId : String)
  | invalidConstraint (constraint : ConstraintId) (reason : String)
  | constraintViolation (record : RecordId) (field : FieldId) (constraint : ConstraintId)
  | invalidStateMachine (machine : StateMachineId) (reason : String)
  | invalidCommand (command : CommandId) (reason : String)
  | invalidStateValue (record : RecordId) (field : FieldId) (machine : StateMachineId)
  | wrongApp (expected actual : AppId)
  | crossScope (record : RecordId)
  | duplicateRecord (table : TableId) (record : RecordId)
  | required (record : RecordId) (field : FieldId)
  | wrongType (record : RecordId) (field : FieldId) (expected : String)
  | wrongReferenceTable (record : RecordId) (expected actual : TableId)
  | missingReference (table : TableId) (record : RecordId)
  | ambiguousReference (table : TableId) (label : String)
  | invalidCell (expected input : String)
  | overflow (kind : String)
deriving DecidableEq, Repr

/-- The identity of a kind with the given text. -/
def Identity.new (kind : IdKind) (value : String) : Except Error (Identity kind) :=
  match Identity.ofText? kind value with
  | some id => .ok id
  | none => .error (.invalidId kind.name value)

/-- The scope of a tenant and an app. -/
def Scope.new (tenantId : String) (appId : AppId) : Except Error Scope :=
  match Scope.ofParts? tenantId appId with
  | some scope => .ok scope
  | none => .error .invalidTenant

end Evobase
