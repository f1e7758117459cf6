import Evobase.AppSpec.Lifecycle
import Evobase.Store.Tables

/-!
# The operations of a store

Every operation runs in one transaction over the tables and is undone when it fails. A
command is executed once: its request is prepared against the current facts, answered
from its receipt when the same actor has already committed it under the same key, and
otherwise committed at the revision that it expects, as a change of the facts, a row of
the audit, the rows of its events and a receipt. The authority of the caller is resolved
when the operation opens, while the request is prepared, and again before it closes.
-/

namespace Evobase

open Foundation

/-- Where a failure is injected into a commit. -/
inductive CommitStage where
  | facts
  | audit
  | events
  | receipt
deriving DecidableEq, Repr

/-- What becomes of a commit: it is applied, it is refused and reported, or it is applied
although a failure is reported. -/
inductive CommitOutcome where
  | applied
  | refused
  | unreported
deriving DecidableEq, Repr

/-- The database during one operation: some statement fails, or all of them are run. -/
inductive Backend where
  | down
  | up (commit : CommitOutcome)
deriving DecidableEq, Repr

/-- The answers of the host to the three resolutions of an operation. -/
structure Answers where
  opening : SessionVerifier
  preparing : SessionVerifier
  closing : SessionVerifier

/-- An operation as one transaction: its result and the tables after it. -/
def transact {α : Type} (backend : Backend) (tables : Tables)
    (operation : Exec StoreError (α × Tables)) : Exec StoreError α × Tables :=
  match backend, operation with
  | .down, _ => (.error (.fail .database), tables)
  | .up _, .error halt => (.error halt, tables)
  | .up .applied, .ok (result, after) => (.ok result, after)
  | .up .refused, .ok _ => (.error (.fail .database), tables)
  | .up .unreported, .ok (_, after) => (.error (.fail .database), after)

theorem transact_eq_ok {α : Type} {backend : Backend} {tables after : Tables}
    {operation : Exec StoreError (α × Tables)} {result : α} :
    transact backend tables operation = (.ok result, after) ↔
      backend = .up .applied ∧ operation = .ok (result, after) := by
  unfold transact
  split <;> simp

/-- A transaction that reports an error leaves the tables as they are, unless its commit
was applied without being reported. -/
theorem transact_error {α : Type} {backend : Backend} {tables after : Tables}
    {operation : Exec StoreError (α × Tables)} {halt : Halt StoreError}
    (h : transact backend tables operation = (.error halt, after)) :
    after = tables ∨ backend = .up .unreported ∧ ∃ result, operation = .ok (result, after) := by
  unfold transact at h
  split at h
  · exact .inl (Prod.mk.inj h).2.symm
  · exact .inl (Prod.mk.inj h).2.symm
  · cases h
  · exact .inl (Prod.mk.inj h).2.symm
  · obtain ⟨-, rfl⟩ := Prod.mk.inj h
    exact .inr ⟨rfl, _, rfl⟩

def failAt (selected : Option CommitStage) (stage : CommitStage) : Exec StoreError Unit :=
  rejectIf (selected = some stage) (.fail .injectedFailure)

/-- The arguments of an execution that do not come from the tables. -/
structure ExecuteCall where
  answers : Answers
  caller : Caller
  expectedRevision : U64
  request : RawCommandRequest
  fault : Option CommitStage
  backend : Backend

/-- The arguments of a recovery that do not come from the tables. -/
structure ReceiptCall where
  answers : Answers
  caller : Caller
  requestKey : String
  backend : Backend

/-- The arguments of a bootstrap that do not come from the tables. -/
structure BootstrapCall where
  spec : CheckedAppSpec
  facts : CheckedRecords
  backend : Backend

/-- What the audit keeps of a commit. -/
def auditJson (batch : CheckedTransitionBatch) (scope : Scope) (request : RawCommandRequest)
    (expectedRevision revision : U64) (specIdentity : String) (now : U64) : Json :=
  Json.sortKeys (.ofFields [("actor_id", some (.str batch.prepared.context.actor.text)),
    ("scope", some scope.toJson), ("binding_id", some (.str batch.prepared.context.bindingId)),
    ("membership_revision", some (.ofU64 batch.prepared.context.membershipRevision)),
    ("policy_revision", some (.ofU64 batch.prepared.policy.rule.revision)),
    ("command_id", some request.commandId.toJson), ("record_id", some request.recordId.toJson),
    ("expected_revision", some (.ofU64 expectedRevision)), ("revision", some (.ofU64 revision)),
    ("spec_identity", some (.str specIdentity)), ("host_time", some (.ofU64 now))])

/-- What is stored of an event. -/
def eventJson (event : CheckedEventIntent) (revision : U64) (specIdentity : String) : Json :=
  Json.sortKeys (.ofFields [("event_id", some event.eventId.toJson),
    ("payload", some (valuesToJson event.payload)), ("revision", some (.ofU64 revision)),
    ("spec_identity", some (.str specIdentity))])

def commitReceipt (batch : CheckedTransitionBatch) (request : RawCommandRequest)
    (expectedRevision revision : U64) (specIdentity : String) : CommitReceipt :=
  ⟨batch.receipt, request.idempotencyKey, false, revision, expectedRevision, specIdentity⟩

namespace Store

/-- The applications after an update of one app at a revision and a definition, and how
many rows have changed. -/
def updateApplication (applications : List ApplicationRow) (appId : AppId) (expected : I64)
    (specIdentity : String) (factsJson : List UInt8) (revision : I64) :
    Except StoreError (Nat × List ApplicationRow) := do
  let hit := fun row : ApplicationRow =>
    row.appId = appId ∧ row.revision = expected ∧ row.specIdentity = specIdentity
  let update := fun row : ApplicationRow => { row with factsJson, revision }
  each (fun row => rejectIf (hit row ∧ (update row).check = false) .database) applications
  .ok (applications.countP fun row => hit row,
    applications.map fun row => if hit row then update row else row)

/-- The events with the events of a commit, numbered from zero. -/
def insertEvents (rows : List EventRow) (appId : AppId) (sqlRevision : I64) (revision : U64)
    (specIdentity : String) (events : List CheckedEventIntent) :
    Except StoreError (List EventRow) :=
  events.zipIdx.foldlM (fun rows event => do
    let eventJson ← encode (eventJson event.1 revision specIdentity)
    insertRow EventRow.key EventRow.check rows ⟨appId, sqlRevision, event.2, eventJson⟩) rows

/-- A prepared request that has no receipt is committed at the expected revision. -/
def commitIn (store : Store) (tables : Tables) (answers : Answers) (caller : Caller)
    (snapshot : Snapshot) (context : TrustedContext) (prepared : PreparedCommand)
    (intent : List UInt8) (expectedRevision : U64) (request : RawCommandRequest)
    (fault : Option CommitStage) : Exec StoreError (CommitReceipt × Tables) := do
  rejectIf (expectedRevision ≠ snapshot.revision)
    (.fail (.conflict expectedRevision snapshot.revision))
  let batch ← Exec.lift .command (decideCommand prepared snapshot.revision)
  let finalRows ← okOr (.fail .corruptSnapshot) (applyWrites snapshot.facts.toRaw batch.writes)
  let finalFacts ← Exec.lift .appSpec (validateRecords snapshot.spec caller.scope finalRows)
  let revision ← okOr (.fail .revisionOverflow) (nextRevision snapshot.revision)
  let sqlRevision ← okOr (.fail .revisionOverflow) (Bounded.ofInt? revision.val : Option I64)
  let factsJson ← Exec.ofExcept .appSpec finalFacts.encode
  let sqlExpected ← okOr (.fail .revisionOverflow)
    (Bounded.ofInt? expectedRevision.val : Option I64)
  let (changed, applications) ← Exec.ofExcept id (updateApplication tables.applications
    caller.scope.appId sqlExpected snapshot.specIdentity factsJson sqlRevision)
  rejectIf (changed ≠ 1) (.fail (.conflict expectedRevision snapshot.revision))
  failAt fault .facts
  let audit ← Exec.ofExcept id (encode (auditJson batch caller.scope request expectedRevision
    revision snapshot.specIdentity caller.now))
  let audits ← Exec.ofExcept id (insertRow AuditRow.key AuditRow.check tables.audits
    ⟨caller.scope.appId, sqlRevision, audit⟩)
  failAt fault .audit
  let events ← Exec.ofExcept id (insertEvents tables.events caller.scope.appId sqlRevision
    revision snapshot.specIdentity batch.events)
  failAt fault .events
  let receipt := commitReceipt batch request expectedRevision revision snapshot.specIdentity
  let requestJson ← Exec.ofExcept id (encode (RequestEnvelope.toJson ⟨expectedRevision, request⟩))
  let receiptJson ← Exec.ofExcept id (encode receipt.toJson)
  let receipts ← Exec.ofExcept id (insertRow ReceiptRow.key ReceiptRow.check tables.receipts
    ⟨caller.scope.appId, batch.prepared.context.actor, request.idempotencyKey, intent,
      requestJson, receiptJson⟩)
  failAt fault .receipt
  store.revalidate answers.closing caller context
  .ok (receipt, { tables with applications, receipts, events, audits })

def executeIn (store : Store) (tables : Tables) (answers : Answers) (caller : Caller)
    (expectedRevision : U64) (request : RawCommandRequest) (fault : Option CommitStage) :
    Exec StoreError (CommitReceipt × Tables) := do
  let context ← Exec.ofExcept .authority (answers.opening.resolve caller .write)
  store.checkBinding context
  let snapshot ← store.load tables caller.scope
  let prepared ← Exec.lift .command
    (prepareCommand answers.preparing caller snapshot.spec snapshot.facts request)
  rejectIf (prepared.context ≠ context) (.fail .authorityChanged)
  let intent ← Exec.ofExcept id
    (store.normalizedIdentity snapshot expectedRevision prepared.intentBytes)
  match ← store.loadReceipt tables caller.scope context.actor prepared.request.idempotencyKey with
  | some (previous, receipt, _) => do
      rejectIf (previous ≠ intent) (.fail .intentConflict)
      validateReceipt snapshot request expectedRevision receipt
      store.revalidate answers.closing caller context
      .ok ({ receipt with replayed := true }, tables)
  | none =>
      store.commitIn tables answers caller snapshot context prepared intent expectedRevision
        request fault

def executeAt (store : Store) (tables : Tables) (call : ExecuteCall) :
    Exec StoreError CommitReceipt × Tables :=
  match store.checkScope call.caller.scope with
  | .error halt => (.error halt, tables)
  | .ok () => transact call.backend tables (store.executeIn tables call.answers call.caller
      call.expectedRevision call.request call.fault)

/-- The recovery of a receipt reads and writes nothing. -/
def receipt (store : Store) (tables : Tables) (call : ReceiptCall) :
    Exec StoreError (Option CommitReceipt) := do
  store.checkScope call.caller.scope
  let context ← Exec.ofExcept .authority (call.answers.opening.resolve call.caller .write)
  store.checkBinding context
  rejectIf (boundedKey call.requestKey = false) (.fail .invalidReceiptKey)
  rejectIf (call.backend = .down) (.fail .database)
  match ← store.loadReceipt tables call.caller.scope context.actor call.requestKey with
  | none => .ok none
  | some (intent, receipt, envelope) => do
      let snapshot ← store.load tables call.caller.scope
      let prepared ← Exec.lift .command (prepareCommand call.answers.preparing call.caller
        snapshot.spec snapshot.facts envelope.request)
      rejectIf (prepared.context ≠ context) (.fail .authorityChanged)
      let current ← Exec.ofExcept id
        (store.normalizedIdentity snapshot envelope.expectedRevision prepared.intentBytes)
      rejectIf (current ≠ intent) (.fail .intentConflict)
      validateReceipt snapshot envelope.request envelope.expectedRevision receipt
      store.revalidate call.answers.closing call.caller context
      .ok (some { receipt with replayed := true })

/-- An app is provisioned once; the same definition and facts may be given again. -/
def bootstrapIn (store : Store) (tables : Tables) (spec : CheckedAppSpec) (scope : Scope)
    (specJson factsJson : List UInt8) : Exec StoreError (Snapshot × Tables) := do
  let identity := store.specIdentity specJson
  match tables.applications.find? fun row => row.appId = spec.definition.appId with
  | some row => do
      rejectIf (row.specIdentity ≠ identity ∨ row.factsJson ≠ factsJson) (.fail .appAlreadyExists)
      let snapshot ← store.load tables scope
      .ok (snapshot, tables)
  | none => do
      let releases ← Exec.ofExcept id (insertRow ReleaseRow.key ReleaseRow.check tables.releases
        ⟨spec.definition.appId, identity, specJson⟩)
      let applications ← Exec.ofExcept id (insertRow ApplicationRow.appId ApplicationRow.check
        tables.applications ⟨spec.definition.appId, identity, I64.one, factsJson⟩)
      let snapshot ← store.load { tables with releases, applications } scope
      .ok (snapshot, { tables with releases, applications })

def bootstrap (store : Store) (tables : Tables) (call : BootstrapCall) :
    Exec StoreError Snapshot × Tables :=
  let checked : Exec StoreError (List UInt8 × List UInt8) := do
    store.checkScope call.facts.scope
    let checked ← Exec.lift .appSpec
      (validateRecords call.spec.definition call.facts.scope call.facts.toRaw)
    let specJson ← Exec.ofExcept .appSpec call.spec.encode
    let factsJson ← Exec.ofExcept .appSpec checked.encode
    .ok (specJson, factsJson)
  match checked with
  | .error halt => (.error halt, tables)
  | .ok (specJson, factsJson) => transact call.backend tables
      (store.bootstrapIn tables call.spec call.facts.scope specJson factsJson)

end Store

end Evobase
