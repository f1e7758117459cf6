import Evobase.AppSpec.Available
import Evobase.AppSpec.Projection
import Evobase.Host.State

/-!
# What the host shows

A list shows the first of the rows of a table that its caller may read, and the metadata show
the tables in which the caller sees something with the commands that the caller is offered. Both
are made under access facts that are pinned for the operation, and neither is released before
the authority of the caller has been resolved once more, to the same context
(`ReleasedUnder`).
-/

namespace Evobase

open Foundation

namespace HostState

variable (host : HostState)

def listLimit (query : Option String) : Except ApiFailure Nat :=
  match query with
  | none => .ok 100
  | some query => okOr .unsupported do
      let digits ← stripPrefix? "limit=" query
      guard (digits ≠ "" ∧ digits.toList.all Char.isDigit)
      let limit := Json.digitsValue (Json.utf8 digits.toList)
      guard (1 ≤ limit ∧ limit ≤ maxListLimit)
      some limit

def recordDto (row : VisibleRecord) : Except ApiFailure RecordDto := do
  let values ← renameError (fun _ => .internal) (row.values.entries.mapM fun entry => do
    let value ← ValueDto.fromDomain entry.2 host.scope
    .ok (entry.1, value))
  .ok ⟨row.id, .ofList values⟩

/-- The first rows of a projection. -/
def listResponse (snapshot : Snapshot) (table : TableId) (limit : Nat)
    (projection : CheckedProjection) : Except ApiFailure ListResponseDto := do
  let records ← (projection.rows.take limit).mapM host.recordDto
  .ok {
    apiVersion := apiVersionNumber
    appId := host.scope.appId
    tableId := table
    releaseId := snapshot.specIdentity
    revision := ⟨snapshot.revision⟩
    records
    hasMore := projection.rows.length > limit }

/-- The list of a table of a snapshot for an authorized caller. -/
def listOf (snapshot : Snapshot) (caller : Caller) (table : TableId) (limit : Nat)
    (moments : Moments) : Exec ApiFailure ListResponseDto := do
  let rawPolicy ← okOr (.fail .denied)
    (snapshot.spec.policies.find? fun policy => policy.tableId = table)
  let policy ← Exec.ofExcept (fun _ => .internal) (OwnerRolePolicy.check snapshot.spec rawPolicy)
  let access ← Exec.ofExcept (fun _ => .denied) (moments 0).current
  let original ← Exec.ofExcept (fun _ => .denied)
    ((host.verifier.pinned access (moments 1)).resolve caller .read)
  let projection ← Exec.lift (fun _ => .denied)
    (project (host.verifier.pinned access (moments 2)) caller snapshot.facts policy .query)
  let response ← Exec.ofExcept id (host.listResponse snapshot table limit projection)
  let current ← Exec.ofExcept (fun _ => .denied)
    ((host.verifier.asked (moments 3)).resolve caller .read)
  rejectIf (current ≠ original) (.fail .denied)
  .ok response

def list (backend : Backend) (tables : Tables) (moments : Moments) (request : HttpRequest)
    (app table : String) : Exec ApiFailure ListResponseDto := do
  let caller ← Exec.ofExcept id
    (host.authorize request app .read false (moments 0).clock (moments 1))
  let limit ← Exec.ofExcept id (listLimit request.query)
  let table ← okOr (.fail .validation) (Identity.ofText? .table table)
  let snapshot ← host.snapshot backend tables
  host.listOf snapshot caller table limit fun i => moments (i + 2)

def fieldMetadata (field : RawField) : FieldMetadataDto :=
  ⟨field.id, field.name, field.fieldType, field.required⟩

/-- A table with its readable fields, or with all of them for design. -/
def tableMetadata (design : Bool) (policy : Option RawOwnerRolePolicy) (table : RawTable) :
    TableMetadataDto where
  tableId := table.id
  name := table.name
  fields := (table.fields.filter fun field =>
    design || policy.any fun policy => field.id ∈ policy.readFields.keys).map fieldMetadata

/-- The metadata of a table: a caller at work sees it when some row of it is visible. -/
def showTable (snapshot : Snapshot) (design : Bool) (caller : Caller) (access : PilotAccess)
    (table : RawTable) (moment : Moment) : Exec ApiFailure (Option TableMetadataDto) :=
  let policy := snapshot.spec.policies.find? fun policy => policy.tableId = table.id
  if design then .ok (some (tableMetadata design policy table))
  else match policy with
    | none => .ok none
    | some rawPolicy => do
        let checked ← Exec.ofExcept (fun _ => .internal)
          (OwnerRolePolicy.check snapshot.spec rawPolicy)
        let visible ← Exec.lift (fun _ => .denied)
          (project (host.verifier.pinned access moment) caller snapshot.facts checked .query)
        .ok (if visible.rows = [] then none else some (tableMetadata design policy table))

/-- The commands that are declared for design, or offered to a caller at work. -/
def declarations (snapshot : Snapshot) (design : Bool) (caller : Caller) (access : PilotAccess)
    (reading writing : Moment) : Exec ApiFailure (List (RawCommand × List RecordId)) :=
  if design then .ok (snapshot.spec.commands.map fun command => (command, []))
  else match availableCommandRecords (host.verifier.pinned access reading)
      (host.verifier.pinned access writing) caller snapshot.spec snapshot.facts with
    | .ok commands => .ok commands
    | .error (.fail (.authority .missingGrant)) => .ok []
    | .error (.fail error) => .error (.fail (.commandError error))
    | .error (.panic site) => .error (.panic site)
    | .error .diverge => .error .diverge

/-- A command, when its table and all of its inputs are among what is shown. -/
def commandMetadata (spec : RawAppSpec) (tables : List TableMetadataDto) (command : RawCommand)
    (eligibleRecordIds : List RecordId) : Option CommandMetadataDto := do
  let machine ← spec.stateMachines.find? fun machine => machine.machineId = command.stateMachineId
  let table ← tables.find? fun table => table.tableId = machine.tableId
  let inputFields ← command.inputs.mapM fun input =>
    (table.fields.find? fun field => field.fieldId = input.fieldId).map fun field =>
      { field with required := input.required }
  some ⟨command.commandId.text, command.commandId.text, machine.tableId, inputFields,
    eligibleRecordIds⟩

/-- Commands are shown to a caller at work who still has the grant to run them. -/
def releaseCommands (design : Bool) (caller : Caller) (original : TrustedContext)
    (commands : List CommandMetadataDto) (moment : Moment) :
    Except ApiFailure (List CommandMetadataDto) :=
  if design ∨ commands = [] then .ok commands
  else match (host.verifier.asked moment).resolve caller .write with
    | .ok context => do
        rejectIf (context ≠ original) .denied
        .ok commands
    | .error .missingGrant => .ok []
    | .error _ => .error .denied

/-- The canonical text of the definition, for design only. -/
def canonicalAppspec (spec : RawAppSpec) (design : Bool) : Except ApiFailure (Option String) :=
  if design then do
    let bytes ← renameError (fun _ => .internal) (boundedEncode spec.toJson)
    let text ← okOr .internal (Json.stringOfBytes bytes)
    .ok (some text)
  else .ok none

def supported : List String :=
  ["owner_role_scalar_read", "first_page_limit_1_256", "declared_commands", "receipt_recovery"]

def metadataResponse (snapshot : Snapshot) (design : Bool) (caller : Caller) (moments : Moments) :
    Exec ApiFailure MetadataResponseDto := do
  let access ← Exec.ofExcept (fun _ => .denied) (moments 0).current
  let grant : Grant := if design then .design else .read
  let original ← Exec.ofExcept (fun _ => .denied)
    ((host.verifier.pinned access (moments 1)).resolve caller grant)
  let shown ← snapshot.spec.tables.zipIdx.mapM fun table =>
    host.showTable snapshot design caller access table.1 (moments (table.2 + 6))
  let tables := shown.reduceOption
  let declarations ← host.declarations snapshot design caller access (moments 2) (moments 3)
  let commands := declarations.filterMap fun command =>
    commandMetadata snapshot.spec tables command.1 command.2
  let current ← Exec.ofExcept (fun _ => .denied)
    ((host.verifier.asked (moments 4)).resolve caller grant)
  rejectIf (current ≠ original) (.fail .denied)
  let commands ← Exec.ofExcept id
    (host.releaseCommands design caller original commands (moments 5))
  let canonicalAppspec ← Exec.ofExcept id (canonicalAppspec snapshot.spec design)
  .ok {
    apiVersion := apiVersionNumber
    appId := host.scope.appId
    releaseId := snapshot.specIdentity
    revision := ⟨snapshot.revision⟩
    canonicalAppspec
    supported
    tables
    commands }

/-- The metadata of the app for design, or for a caller at work. The request is authorized
before and after the snapshot is read. -/
def metadata (design : Bool) (backend : Backend) (tables : Tables) (moments : Moments)
    (request : HttpRequest) (app : String) : Exec ApiFailure MetadataResponseDto := do
  let grant : Grant := if design then .design else .read
  let _ ← Exec.ofExcept id (host.authorize request app grant false (moments 0).clock (moments 1))
  Exec.ofExcept id request.noQuery
  let snapshot ← host.snapshot backend tables
  let caller ← Exec.ofExcept id
    (host.authorize request app grant false (moments 2).clock (moments 3))
  host.metadataResponse snapshot design caller fun i => moments (i + 4)

def designMetadata (backend : Backend) (tables : Tables) (moments : Moments)
    (request : HttpRequest) (app : String) : Exec ApiFailure MetadataResponseDto :=
  host.metadata true backend tables moments request app

def runtimeMetadata (backend : Backend) (tables : Tables) (moments : Moments)
    (request : HttpRequest) (app : String) : Exec ApiFailure MetadataResponseDto :=
  host.metadata false backend tables moments request app

end HostState

end Evobase
