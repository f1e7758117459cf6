import Evobase.AppSpec.Canonical
import Evobase.AppSpec.FactCodec
import Evobase.AppSpec.Transition

/-!
# The tables of a store

A store keeps the data of one tenant in five tables of fixed layout: the released
definitions, the applications with their facts and revision, and the receipts, the
events and the audit of committed commands. Rows hold the JSON text of what they record,
and the insertion of a row fails when it breaks a check or repeats a primary key.

`load` reads a snapshot back and trusts nothing of what it reads: the definition must
have the identity it is filed under, and the definition and the facts must be in their
canonical text.
-/

namespace Evobase

open Foundation

inductive StoreError where
  | database
  | appSpec (error : Error)
  | scopeMismatch
  | appNotFound
  | appAlreadyExists
  | corruptSnapshot
  | authority (error : AuthorityError)
  | command (error : CommandError)
  | conflict (expected actual : U64)
  | intentConflict
  | bindingMismatch
  | authorityChanged
  | revisionOverflow
  | payloadLimit
  | invalidReceiptKey
  | injectedFailure
deriving DecidableEq, Repr

structure ReleaseRow where
  appId : AppId
  specIdentity : String
  specJson : List UInt8
deriving DecidableEq

structure ApplicationRow where
  appId : AppId
  specIdentity : String
  revision : I64
  factsJson : List UInt8
deriving DecidableEq

structure ReceiptRow where
  appId : AppId
  actorId : ActorId
  requestKey : String
  intentJson : List UInt8
  requestJson : List UInt8
  receiptJson : List UInt8
deriving DecidableEq

structure EventRow where
  appId : AppId
  revision : I64
  eventIndex : Nat
  eventJson : List UInt8
deriving DecidableEq

structure AuditRow where
  appId : AppId
  revision : I64
  auditJson : List UInt8
deriving DecidableEq

def ReleaseRow.key (row : ReleaseRow) : AppId × String := (row.appId, row.specIdentity)

def ReceiptRow.key (row : ReceiptRow) : AppId × ActorId × String :=
  (row.appId, row.actorId, row.requestKey)

def EventRow.key (row : EventRow) : AppId × I64 × Nat := (row.appId, row.revision, row.eventIndex)

def AuditRow.key (row : AuditRow) : AppId × I64 := (row.appId, row.revision)

def ReleaseRow.check (row : ReleaseRow) : Bool := row.specJson.length ≤ maxBytes

def ApplicationRow.check (row : ApplicationRow) : Bool :=
  0 < row.revision.val && row.factsJson.length ≤ maxBytes

def ReceiptRow.check (row : ReceiptRow) : Bool :=
  row.intentJson.length ≤ maxBytes && row.requestJson.length ≤ maxBytes &&
    row.receiptJson.length ≤ maxBytes

def EventRow.check (row : EventRow) : Bool :=
  0 < row.revision.val && row.eventJson.length ≤ maxBytes

def AuditRow.check (row : AuditRow) : Bool :=
  0 < row.revision.val && row.auditJson.length ≤ maxBytes

theorem ReceiptRow.check_iff {row : ReceiptRow} :
    row.check = true ↔ row.intentJson.length ≤ maxBytes ∧ row.requestJson.length ≤ maxBytes ∧
      row.receiptJson.length ≤ maxBytes := by
  simp [check, and_assoc]

theorem AuditRow.check_iff {row : AuditRow} :
    row.check = true ↔ 0 < row.revision.val ∧ row.auditJson.length ≤ maxBytes := by
  simp [check]

structure Tables where
  releases : List ReleaseRow
  applications : List ApplicationRow
  receipts : List ReceiptRow
  events : List EventRow
  audits : List AuditRow
deriving DecidableEq

/-- A table with one more row, unless the row breaks a check or repeats a primary key. -/
def insertRow {Row Key : Type} [DecidableEq Key] (key : Row → Key) (check : Row → Bool)
    (rows : List Row) (row : Row) : Except StoreError (List Row) := do
  rejectIf (check row = false ∨ key row ∈ rows.map key) .database
  .ok (rows ++ [row])

theorem insertRow_eq_ok {Row Key : Type} [DecidableEq Key] {key : Row → Key} {check : Row → Bool}
    {rows out : List Row} {row : Row} :
    insertRow key check rows row = .ok out ↔
      check row = true ∧ key row ∉ rows.map key ∧ out = rows ++ [row] := by
  simp only [insertRow, bind_eq_ok, rejectIf_eq_ok, not_or, Bool.not_eq_false, Except.ok.injEq]
  constructor
  · rintro ⟨-, ⟨hcheck, hkey⟩, rfl⟩
    exact ⟨hcheck, hkey, rfl⟩
  · rintro ⟨hcheck, hkey, rfl⟩
    exact ⟨(), ⟨hcheck, hkey⟩, rfl⟩

def TransitionReceipt.toJson (r : TransitionReceipt) : Json :=
  .ofFields [("command_id", some r.commandId.toJson), ("record_id", some r.recordId.toJson),
    ("state", some (.str r.state))]

def TransitionReceipt.ofJson (j : Json) : Option TransitionReceipt :=
  match j.allFields? ["command_id", "record_id", "state"] with
  | some [commandId, recordId, state] => do
      let commandId ← commandId.bind Identity.ofJson
      let recordId ← recordId.bind Identity.ofJson
      let state ← state.bind Json.str?
      some ⟨commandId, recordId, state⟩
  | _ => none

@[simp] theorem TransitionReceipt.ofJson_toJson (r : TransitionReceipt) :
    ofJson r.toJson = some r := by
  simp [ofJson, toJson, Json.allFields?_ofFields]

@[simp] theorem TransitionReceipt.exact_toJson (r : TransitionReceipt) : r.toJson.Exact :=
  Json.exact_ofFields (by simp)

/-- The receipt of a committed command. -/
structure CommitReceipt where
  transition : TransitionReceipt
  requestKey : String
  replayed : Bool
  revision : U64
  expectedRevision : U64
  specIdentity : String
deriving DecidableEq, Repr

namespace CommitReceipt

def toJson (r : CommitReceipt) : Json :=
  .ofFields [("transition", some r.transition.toJson), ("request_key", some (.str r.requestKey)),
    ("replayed", some (.bool r.replayed)), ("revision", some (.ofU64 r.revision)),
    ("expected_revision", some (.ofU64 r.expectedRevision)),
    ("spec_identity", some (.str r.specIdentity))]

def ofJson (j : Json) : Option CommitReceipt :=
  match j.allFields? ["transition", "request_key", "replayed", "revision", "expected_revision",
    "spec_identity"] with
  | some [transition, requestKey, replayed, revision, expectedRevision, specIdentity] => do
      let transition ← transition.bind TransitionReceipt.ofJson
      let requestKey ← requestKey.bind Json.str?
      let replayed ← replayed.bind Json.bool?
      let revision ← revision.bind Json.int?
      let expectedRevision ← expectedRevision.bind Json.int?
      let specIdentity ← specIdentity.bind Json.str?
      some ⟨transition, requestKey, replayed, revision, expectedRevision, specIdentity⟩
  | _ => none

@[simp] theorem ofJson_toJson (r : CommitReceipt) : ofJson r.toJson = some r := by
  simp [ofJson, toJson, Json.allFields?_ofFields]

@[simp] theorem exact_toJson (r : CommitReceipt) : r.toJson.Exact :=
  Json.exact_ofFields (by simp)

end CommitReceipt

/-- A request with the revision it expects. -/
structure RequestEnvelope where
  expectedRevision : U64
  request : RawCommandRequest
deriving DecidableEq

namespace RequestEnvelope

def toJson (r : RequestEnvelope) : Json :=
  .ofFields [("expected_revision", some (.ofU64 r.expectedRevision)),
    ("request", some r.request.toJson)]

def ofJson (j : Json) : Option RequestEnvelope :=
  match j.allFields? ["expected_revision", "request"] with
  | some [expectedRevision, request] => do
      let expectedRevision ← expectedRevision.bind Json.int?
      let request ← request.bind RawCommandRequest.ofJson
      some ⟨expectedRevision, request⟩
  | _ => none

theorem ofJson_toJson {r : RequestEnvelope}
    (h : r.request.inputs.entries.length ≤ maxFieldsPerTable) : ofJson r.toJson = some r := by
  simp [ofJson, toJson, Json.allFields?_ofFields, RawCommandRequest.ofJson_toJson h]

@[simp] theorem exact_toJson (r : RequestEnvelope) : r.toJson.Exact :=
  Json.exact_ofFields (by simp)

end RequestEnvelope

/-- A store of a tenant, with the JSON library it reads with and the hexadecimal SHA-256
digest it files definitions under. -/
structure Store where
  tenantId : String
  reader : JsonReader
  digest : List UInt8 → String

structure Snapshot where
  spec : RawAppSpec
  facts : CheckedRecords
  revision : U64
  specIdentity : String
deriving DecidableEq

namespace Store

def bindingId (store : Store) : String := "store:" ++ store.tenantId

def specIdentity (store : Store) (bytes : List UInt8) : String := "sha256:" ++ store.digest bytes

def checkScope (store : Store) (scope : Scope) : Exec StoreError Unit :=
  rejectIf (scope.tenantId ≠ store.tenantId) (.fail .scopeMismatch)

def encode (j : Json) : Except StoreError (List UInt8) := do
  rejectIf (j.print.length > maxBytes) .payloadLimit
  .ok j.print

@[simp] theorem encode_eq_ok {j : Json} {bytes : List UInt8} :
    encode j = .ok bytes ↔ j.print.length ≤ maxBytes ∧ bytes = j.print := by
  simp only [encode, bind_eq_ok, rejectIf_eq_ok, gt_iff_lt, not_lt, Except.ok.injEq]
  constructor
  · rintro ⟨-, hlength, rfl⟩
    exact ⟨hlength, rfl⟩
  · rintro ⟨hlength, rfl⟩
    exact ⟨(), hlength, rfl⟩

/-- The rows of an app that hold its current definition and facts. -/
def selectApplication (tables : Tables) (appId : AppId) : Option (ApplicationRow × ReleaseRow) := do
  let application ← tables.applications.find? fun row => row.appId = appId
  let release ← tables.releases.find? fun row =>
    row.appId = appId ∧ row.specIdentity = application.specIdentity
  some (application, release)

/-- The snapshot of an app. -/
def load (store : Store) (tables : Tables) (scope : Scope) : Exec StoreError Snapshot := do
  let (application, release) ← okOr (.fail .appNotFound) (selectApplication tables scope.appId)
  let revision ← okOr (.fail .corruptSnapshot)
    (Bounded.ofInt? application.revision.val : Option U64)
  rejectIf (revision.val = 0) (.fail .corruptSnapshot)
  let spec ← Exec.ofExcept .appSpec (decode store.reader release.specJson)
  rejectIf (store.specIdentity release.specJson ≠ application.specIdentity) (.fail .corruptSnapshot)
  let specJson ← Exec.ofExcept .appSpec (boundedEncode spec.toJson)
  rejectIf (specJson ≠ release.specJson) (.fail .corruptSnapshot)
  let facts ← Exec.lift .appSpec
    (decodeRecords store.reader spec scope application.factsJson)
  let factsJson ← Exec.ofExcept .appSpec facts.encode
  rejectIf (factsJson ≠ application.factsJson) (.fail .corruptSnapshot)
  .ok ⟨spec, facts, revision, application.specIdentity⟩

def snapshot (store : Store) (tables : Tables) (scope : Scope) : Exec StoreError Snapshot := do
  store.checkScope scope
  store.load tables scope

/-- A stored receipt: its intent, the receipt and the request. -/
def loadReceipt (store : Store) (tables : Tables) (scope : Scope) (actor : ActorId)
    (key : String) :
    Exec StoreError (Option (List UInt8 × CommitReceipt × RequestEnvelope)) :=
  match tables.receipts.find? fun row => row.key = (scope.appId, actor, key) with
  | none => .ok none
  | some row => do
      rejectIf (row.intentJson.length > maxBytes ∨ row.receiptJson.length > maxBytes ∨
        row.requestJson.length > maxBytes) (.fail .payloadLimit)
      let receipt ← okOr (.fail .corruptSnapshot)
        ((store.reader.parse row.receiptJson).bind CommitReceipt.ofJson)
      let request ← okOr (.fail .corruptSnapshot)
        ((store.reader.parse row.requestJson).bind RequestEnvelope.ofJson)
      rejectIf (request.request.idempotencyKey ≠ key) (.fail .corruptSnapshot)
      .ok (some (row.intentJson, receipt, request))

/-- What a request asks of a snapshot, as bytes that two requests share exactly when they
ask for the same. -/
def normalizedIdentity (store : Store) (snapshot : Snapshot) (expectedRevision : U64)
    (semanticIntent : List UInt8) : Except StoreError (List UInt8) := do
  let semantic ← okOr .corruptSnapshot (store.reader.parse semanticIntent)
  encode (Json.sortKeys (.ofFields [("spec_identity", some (.str snapshot.specIdentity)),
    ("expected_revision", some (.ofU64 expectedRevision)), ("semantic_intent", some semantic)]))

def checkBinding (store : Store) (context : TrustedContext) : Exec StoreError Unit :=
  rejectIf (context.bindingId ≠ store.bindingId) (.fail .bindingMismatch)

def nextRevision (revision : U64) : Option U64 :=
  revision.checkedAdd U64.one

/-- A stored receipt is the receipt of the request at the snapshot. -/
def validateReceipt (snapshot : Snapshot) (request : RawCommandRequest) (expectedRevision : U64)
    (receipt : CommitReceipt) : Exec StoreError Unit :=
  rejectIf (receipt.expectedRevision ≠ expectedRevision ∨
    receipt.requestKey ≠ request.idempotencyKey ∨ receipt.replayed = true ∨
    some receipt.revision ≠ nextRevision expectedRevision ∨
    receipt.revision.val > snapshot.revision.val ∨
    receipt.specIdentity ≠ snapshot.specIdentity ∨
    receipt.transition.commandId ≠ request.commandId ∨
    receipt.transition.recordId ≠ request.recordId ∨
    ¬ ∃ command ∈ snapshot.spec.commands, command.commandId = request.commandId ∧
      command.toState = receipt.transition.state) (.fail .corruptSnapshot)

/-- The authority at the end of an operation is the authority at its start. -/
def revalidate (store : Store) (host : SessionVerifier) (caller : Caller)
    (previous : TrustedContext) : Exec StoreError Unit := do
  let current ← Exec.ofExcept .authority (host.resolve caller .write)
  store.checkBinding current
  rejectIf (current ≠ previous) (.fail .authorityChanged)

theorem revalidate_eq_ok {store : Store} {host : SessionVerifier} {caller : Caller}
    {previous : TrustedContext} {u : Unit} :
    store.revalidate host caller previous = .ok u ↔
      host.resolve caller .write = .ok previous ∧ previous.bindingId = store.bindingId := by
  simp only [revalidate, checkBinding, bind_eq_ok, Exec.ofExcept_eq_ok, rejectIf_eq_ok, ne_eq,
    not_not]
  constructor
  · rintro ⟨current, hresolve, -, hbinding, rfl⟩
    exact ⟨hresolve, hbinding⟩
  · rintro ⟨hresolve, hbinding⟩
    exact ⟨previous, hresolve, (), hbinding, rfl⟩

end Store

end Evobase
