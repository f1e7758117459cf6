import Evobase.Store.Execute

/-!
# What an execution does

An execution that returns has resolved the same authority at its start, at the
preparation and at its end (`Opened`). It then either returns the receipt of an earlier
commit and leaves the tables as they are (`Replays`), or adds one commit to them: new
facts at the next revision, one row of the audit, one row for each event and one receipt
(`CommitsTo`). These are its only two ways to return (`executeIn_eq_ok`).

The characterisation is an equivalence, so it also says when an execution does return. The errors
of the other direction are those of the first check that fails; `transact` turns them into
unchanged tables.
-/

namespace Evobase

open Foundation

/-- A committed command with the revision it has made. -/
structure Commit where
  caller : Caller
  request : RawCommandRequest
  batch : CheckedTransitionBatch
  revision : U64
  sqlRevision : I64
  sameRevision : sqlRevision.val = revision.val
  specIdentity : String
  intent : List UInt8

namespace Commit

variable (c : Commit)

def appId : AppId := c.caller.scope.appId

def actor : ActorId := c.batch.prepared.context.actor

def expectedRevision : U64 := c.batch.expectedRevision

def receipt : CommitReceipt :=
  commitReceipt c.batch c.request c.expectedRevision c.revision c.specIdentity

def auditRow : AuditRow :=
  ⟨c.appId, c.sqlRevision, (auditJson c.batch c.caller.scope c.request c.expectedRevision
    c.revision c.specIdentity c.caller.now).print⟩

def eventRow (event : CheckedEventIntent × Nat) : EventRow :=
  ⟨c.appId, c.sqlRevision, event.2, (eventJson event.1 c.revision c.specIdentity).print⟩

def eventRows : List EventRow := c.batch.events.zipIdx.map c.eventRow

def receiptRow : ReceiptRow :=
  ⟨c.appId, c.actor, c.request.idempotencyKey, c.intent,
    (RequestEnvelope.toJson ⟨c.expectedRevision, c.request⟩).print, c.receipt.toJson.print⟩

theorem auditRow_eq {expectedRevision : U64} (h : c.expectedRevision = expectedRevision) :
    c.auditRow = ⟨c.caller.scope.appId, c.sqlRevision, (auditJson c.batch c.caller.scope c.request
      expectedRevision c.revision c.specIdentity c.caller.now).print⟩ := by
  rw [auditRow, h, appId]

theorem receiptRow_eq {expectedRevision : U64} (h : c.expectedRevision = expectedRevision) :
    c.receiptRow = ⟨c.caller.scope.appId, c.batch.prepared.context.actor,
      c.request.idempotencyKey, c.intent,
      (RequestEnvelope.toJson ⟨expectedRevision, c.request⟩).print,
      (commitReceipt c.batch c.request expectedRevision c.revision c.specIdentity).toJson.print⟩ := by
  rw [receiptRow, receipt, h, appId, actor]

end Commit

def ApplicationRow.At (row : ApplicationRow) (appId : AppId) (revision : Int)
    (specIdentity : String) : Prop :=
  row.appId = appId ∧ row.revision.val = revision ∧ row.specIdentity = specIdentity

instance (row : ApplicationRow) (appId : AppId) (revision : Int) (specIdentity : String) :
    Decidable (row.At appId revision specIdentity) := inferInstanceAs (Decidable (_ ∧ _))

section Operations

variable {store : Store} {tables after : Tables} {answers : Answers} {caller : Caller}
  {snapshot : Snapshot} {prepared : PreparedCommand} {intent : List UInt8}
  {expectedRevision : U64} {request : RawCommandRequest} {fault : Option CommitStage}
  {receipt : CommitReceipt}

/-- The request is prepared against the current snapshot, with one authority for its start
and its preparation. -/
structure Opened (store : Store) (tables : Tables) (answers : Answers) (caller : Caller)
    (request : RawCommandRequest) (expectedRevision : U64) (snapshot : Snapshot)
    (prepared : PreparedCommand) (intent : List UInt8) : Prop where
  opening : answers.opening.resolve caller .write = .ok prepared.context
  binding : prepared.context.bindingId = store.bindingId
  loaded : store.load tables caller.scope = .ok snapshot
  prepares : prepareCommand answers.preparing caller snapshot.spec snapshot.facts request =
    .ok prepared
  intended : store.normalizedIdentity snapshot expectedRevision prepared.intentBytes = .ok intent

/-- The request has been committed before with the receipt. -/
structure Replays (store : Store) (tables : Tables) (answers : Answers) (caller : Caller)
    (request : RawCommandRequest) (expectedRevision : U64) (snapshot : Snapshot)
    (prepared : PreparedCommand) (intent : List UInt8) (stored : CommitReceipt) : Prop where
  found : ∃ envelope, store.loadReceipt tables caller.scope prepared.context.actor
    request.idempotencyKey = .ok (some (intent, stored, envelope))
  valid : Store.validateReceipt snapshot request expectedRevision stored = .ok ()
  closing : answers.closing.resolve caller .write = .ok prepared.context

/-- The request has no receipt and is committed. -/
structure CommitsTo (store : Store) (tables : Tables) (answers : Answers) (caller : Caller)
    (request : RawCommandRequest) (expectedRevision : U64) (snapshot : Snapshot)
    (prepared : PreparedCommand) (intent : List UInt8) (c : Commit) (next : CheckedRecords)
    (factsJson : List UInt8) (applications : List ApplicationRow) : Prop where
  fresh : store.loadReceipt tables caller.scope prepared.context.actor
    request.idempotencyKey = .ok none
  expected : expectedRevision = snapshot.revision
  decided : decideCommand prepared snapshot.revision = .ok c.batch
  applied : ∃ rows, applyWrites snapshot.facts.toRaw c.batch.writes = some rows ∧
    validateRecords snapshot.spec caller.scope rows = .ok next
  revision : Store.nextRevision snapshot.revision = some c.revision
  encoded : next.encode = .ok factsJson
  updated : ∃ sqlExpected : I64, sqlExpected.val = snapshot.revision.val ∧
    Store.updateApplication tables.applications caller.scope.appId sqlExpected
      snapshot.specIdentity factsJson c.sqlRevision = .ok (1, applications)
  same : c.caller = caller ∧ c.request = request ∧ c.specIdentity = snapshot.specIdentity ∧
    c.intent = intent
  audit : c.auditRow.check = true ∧ c.auditRow.key ∉ tables.audits.map AuditRow.key
  events : Store.insertEvents tables.events c.appId c.sqlRevision c.revision c.specIdentity
    c.batch.events = .ok (tables.events ++ c.eventRows)
  stored : c.receiptRow.check = true ∧ c.receiptRow.key ∉ tables.receipts.map ReceiptRow.key
  closing : answers.closing.resolve caller .write = .ok prepared.context

/-- The tables after a commit. -/
def Tables.commit (tables : Tables) (c : Commit) (applications : List ApplicationRow) : Tables :=
  { tables with
    applications
    audits := tables.audits ++ [c.auditRow]
    events := tables.events ++ c.eventRows
    receipts := tables.receipts ++ [c.receiptRow] }

theorem Store.insertEvents_ok {rows out : List EventRow} {c : Commit}
    (h : insertEvents rows c.appId c.sqlRevision c.revision c.specIdentity c.batch.events =
      .ok out) : out = rows ++ c.eventRows := by
  suffices general : ∀ (events : List (CheckedEventIntent × Nat)) (rows out : List EventRow),
      events.foldlM (fun rows event => do
        let eventJson ← encode (eventJson event.1 c.revision c.specIdentity)
        insertRow EventRow.key EventRow.check rows
          ⟨c.appId, c.sqlRevision, event.2, eventJson⟩) rows = .ok out →
      out = rows ++ events.map c.eventRow from general _ _ _ h
  intro events
  induction events with
  | nil =>
      intro rows out h
      rw [List.foldlM_nil, pure_eq_ok] at h
      rw [List.map_nil, List.append_nil, h]
  | cons event rest ih =>
      intro rows out h
      rw [List.foldlM_cons, bind_eq_ok] at h
      obtain ⟨mid, hevent, hrest⟩ := h
      simp only [bind_eq_ok, encode_eq_ok, insertRow_eq_ok] at hevent
      obtain ⟨_, ⟨-, rfl⟩, -, -, rfl⟩ := hevent
      rw [ih _ _ hrest, List.append_assoc, List.singleton_append, List.map_cons]
      rfl

theorem batch_of_decideCommand {dataRevision : U64} {batch : CheckedTransitionBatch}
    (h : decideCommand prepared dataRevision = .ok batch) :
    batch.prepared = prepared ∧ batch.expectedRevision = dataRevision := by
  simp only [decideCommand, bind_eq_ok, Except.ok.injEq] at h
  obtain ⟨-, -, -, -, -, -, -, -, -, -, -, -, -, -, -, -, rfl⟩ := h
  exact ⟨rfl, rfl⟩

theorem CommitsTo.expectedRevision_eq {c : Commit} {next : CheckedRecords}
    {factsJson : List UInt8} {applications : List ApplicationRow}
    (h : CommitsTo store tables answers caller request expectedRevision snapshot prepared intent c
      next factsJson applications) : c.expectedRevision = expectedRevision :=
  (batch_of_decideCommand h.decided).2.trans h.expected.symm

/-- A commit returns the receipt of the commit and the tables with it. -/
theorem commitIn_eq_ok :
    store.commitIn tables answers caller snapshot prepared.context prepared intent
        expectedRevision request fault = .ok (receipt, after) ∧
      store.loadReceipt tables caller.scope prepared.context.actor request.idempotencyKey =
        .ok none ∧ prepared.context.bindingId = store.bindingId ↔
    fault = none ∧ prepared.context.bindingId = store.bindingId ∧ ∃ c next factsJson applications,
      CommitsTo store tables answers caller request expectedRevision snapshot prepared intent c
        next factsJson applications ∧
      receipt = c.receipt ∧ after = tables.commit c applications := by
  simp only [Store.commitIn, bind_eq_ok, rejectIf_eq_ok, failAt, Exec.lift_eq_ok, okOr_eq_ok,
    Exec.ofExcept_eq_ok, Store.encode_eq_ok, insertRow_eq_ok, Store.revalidate_eq_ok,
    Bounded.ofInt?_eq_some, ne_eq, not_not, Except.ok.injEq, Prod.mk.injEq]
  constructor
  · rintro ⟨⟨-, hexpected, batch, hdecide, rows, hrows, next, hvalidate, revision, hrevision,
      sqlRevision, hsql, factsJson, hfacts, sqlExpected, hsqlExpected, ⟨changed, applications⟩,
      hupdate, -, hchanged, -, hfault₁, audit, ⟨haudit, rfl⟩, audits, ⟨hauditCheck, hauditKey, rfl⟩,
      -, hfault₂, events, hevents, -, hfault₃, requestJson, ⟨hrequest, rfl⟩, receiptJson,
      ⟨hreceipt, rfl⟩, receipts, ⟨hreceiptCheck, hreceiptKey, rfl⟩, -, hfault₄, -,
      ⟨hclosing, -⟩, rfl, rfl⟩, hfresh, hbinding⟩
    have hnone : fault = none := by
      cases fault with
      | none => rfl
      | some stage => cases stage <;> simp_all
    obtain ⟨hprepared, hrevisionEq⟩ := batch_of_decideCommand hdecide
    let c : Commit := ⟨caller, request, batch, revision, sqlRevision, hsql, snapshot.specIdentity,
      intent⟩
    have hexpectedEq : c.expectedRevision = expectedRevision := hrevisionEq.trans hexpected.symm
    have haudit := c.auditRow_eq hexpectedEq
    have hrow := c.receiptRow_eq hexpectedEq
    obtain rfl := Store.insertEvents_ok (c := c) hevents
    refine ⟨hnone, hbinding, c, next, factsJson, applications, ?_, ?_, ?_⟩
    · exact {
        fresh := hfresh
        expected := hexpected
        decided := hdecide
        applied := ⟨rows, hrows, hvalidate⟩
        revision := hrevision
        encoded := hfacts
        updated := ⟨sqlExpected, hsqlExpected.trans (congrArg _ hexpected), hchanged ▸ hupdate⟩
        same := ⟨rfl, rfl, rfl, rfl⟩
        audit := haudit ▸ ⟨hauditCheck, hauditKey⟩
        events := hevents
        stored := hrow ▸ ⟨hreceiptCheck, hreceiptKey⟩
        closing := hclosing }
    · rw [Commit.receipt, hexpectedEq]
    · rw [Tables.commit, haudit, hrow]
  · rintro ⟨rfl, hbinding, c, next, factsJson, applications, h, rfl, rfl⟩
    have hexpectedEq := h.expectedRevision_eq
    obtain ⟨rows, hrows, hvalidate⟩ := h.applied
    obtain ⟨sqlExpected, hsqlExpected, hupdate⟩ := h.updated
    obtain ⟨rfl, rfl, hidentity, rfl⟩ := h.same
    obtain ⟨haudit, hauditKey⟩ := h.audit
    obtain ⟨hreceipt, hreceiptKey⟩ := h.stored
    have hauditRow := c.auditRow_eq hexpectedEq
    have hreceiptRow := c.receiptRow_eq hexpectedEq
    have hauditLe := (AuditRow.check_iff.1 haudit).2
    obtain ⟨-, hrequestLe, hreceiptLe⟩ := ReceiptRow.check_iff.1 hreceipt
    rw [hauditRow] at haudit hauditKey hauditLe
    rw [hreceiptRow] at hreceipt hreceiptKey hrequestLe hreceiptLe
    have hevents := h.events
    rw [hidentity] at haudit hauditKey hauditLe hreceipt hreceiptKey hrequestLe hreceiptLe hevents
    refine ⟨⟨(), h.expected, c.batch, h.decided, rows, hrows, next, hvalidate, c.revision,
      h.revision, c.sqlRevision, c.sameRevision, factsJson, h.encoded, sqlExpected,
      hsqlExpected.trans (congrArg _ h.expected).symm, (1, applications), hupdate, (), rfl, (),
      by simp, _, ⟨hauditLe, rfl⟩, _, ⟨haudit, hauditKey, rfl⟩, (), by simp, _, hevents, (),
      by simp, _, ⟨hrequestLe, rfl⟩, _, ⟨hreceiptLe, rfl⟩, _, ⟨hreceipt, hreceiptKey, rfl⟩, (),
      by simp, (), ⟨h.closing, hbinding⟩, ?_, ?_⟩, h.fresh, hbinding⟩
    · rw [Commit.receipt, hexpectedEq, hidentity]
    · rw [Tables.commit, hauditRow, hreceiptRow, hidentity]

/-- The two ways of an execution to return: with the receipt of an earlier commit, or with a
commit. -/
theorem executeIn_eq_ok :
    store.executeIn tables answers caller expectedRevision request fault = .ok (receipt, after) ↔
      ∃ snapshot prepared intent,
        Opened store tables answers caller request expectedRevision snapshot prepared intent ∧
        ((∃ stored, Replays store tables answers caller request expectedRevision snapshot prepared
            intent stored ∧ receipt = { stored with replayed := true } ∧ after = tables) ∨
          fault = none ∧ ∃ c next factsJson applications,
            CommitsTo store tables answers caller request expectedRevision snapshot prepared intent
              c next factsJson applications ∧
            receipt = c.receipt ∧ after = tables.commit c applications) := by
  simp only [Store.executeIn, Store.checkBinding, bind_eq_ok, Exec.ofExcept_eq_ok, rejectIf_eq_ok,
    Exec.lift_eq_ok, ne_eq, not_not]
  constructor
  · rintro ⟨context, hopening, -, hbinding, snapshot, hload, prepared, hprepare, -, rfl, intent,
      hintent, loaded, hloaded, h⟩
    have hrequest := (prepareCommand_eq_ok_iff.1 hprepare).request_eq
    rw [hrequest] at hloaded
    refine ⟨snapshot, prepared, intent, ⟨hopening, hbinding, hload, hprepare, hintent⟩, ?_⟩
    cases loaded with
    | none =>
        obtain ⟨hfault, -, hcommit⟩ := commitIn_eq_ok.1 ⟨h, hloaded, hbinding⟩
        exact .inr ⟨hfault, hcommit⟩
    | some found =>
        obtain ⟨previous, stored, envelope⟩ := found
        simp only [bind_eq_ok, rejectIf_eq_ok, not_not, Store.revalidate_eq_ok, Except.ok.injEq,
          Prod.mk.injEq] at h
        obtain ⟨-, rfl, ⟨⟩, hvalid, -, ⟨hclosing, -⟩, rfl, rfl⟩ := h
        exact .inl ⟨stored, ⟨⟨envelope, hloaded⟩, hvalid, hclosing⟩, rfl, rfl⟩
  · rintro ⟨snapshot, prepared, intent, hopened, h⟩
    have hrequest := (prepareCommand_eq_ok_iff.1 hopened.prepares).request_eq
    refine ⟨prepared.context, hopened.opening, (), hopened.binding, snapshot, hopened.loaded,
      prepared, hopened.prepares, (), rfl, intent, hopened.intended, ?_⟩
    rw [hrequest]
    rcases h with ⟨stored, hreplays, rfl, rfl⟩ | ⟨rfl, hcommit⟩
    · obtain ⟨envelope, hfound⟩ := hreplays.found
      refine ⟨_, hfound, ?_⟩
      simp only [bind_eq_ok, rejectIf_eq_ok, not_not, Store.revalidate_eq_ok]
      exact ⟨(), trivial, (), hreplays.valid, (), ⟨hreplays.closing, hopened.binding⟩, trivial⟩
    · have hfresh := hcommit
      obtain ⟨c, next, factsJson, applications, hcommits, -, -⟩ := hfresh
      exact ⟨none, hcommits.fresh, (commitIn_eq_ok.2 ⟨rfl, hopened.binding, hcommit⟩).1⟩

theorem executeAt_eq_ok {call : ExecuteCall} :
    store.executeAt tables call = (.ok receipt, after) ↔
      call.caller.scope.tenantId = store.tenantId ∧ call.backend = .up .applied ∧
        store.executeIn tables call.answers call.caller call.expectedRevision call.request
          call.fault = .ok (receipt, after) := by
  unfold Store.executeAt Store.checkScope
  by_cases hscope : call.caller.scope.tenantId = store.tenantId
  · simp [rejectIf, hscope, transact_eq_ok]
  · simp [rejectIf, hscope]

theorem executeAt_error {call : ExecuteCall} {halt : Halt StoreError}
    (hbackend : call.backend ≠ .up .unreported)
    (h : store.executeAt tables call = (.error halt, after)) : after = tables := by
  unfold Store.executeAt at h
  split at h
  · exact (Prod.mk.inj h).2.symm
  · rcases transact_error h with hsame | ⟨hunreported, -⟩
    · exact hsame
    · exact absurd hunreported hbackend

theorem key_of_loadReceipt {actor : ActorId} {scope : Scope} {key : String}
    {stored : CommitReceipt} {envelope : RequestEnvelope}
    (h : store.loadReceipt tables scope actor key = .ok (some (intent, stored, envelope))) :
    envelope.request.idempotencyKey = key := by
  unfold Store.loadReceipt at h
  split at h
  · cases h
  · simp only [bind_eq_ok, rejectIf_eq_ok, ne_eq, not_not, Except.ok.injEq, Option.some.injEq,
      Prod.mk.injEq] at h
    obtain ⟨-, -, -, -, envelope, -, -, hkey, -, -, rfl⟩ := h
    exact hkey

/-- A recovery returns a receipt when the stored request is answered by a replay. -/
theorem receipt_eq_some {call : ReceiptCall} :
    store.receipt tables call = .ok (some receipt) ↔
      call.caller.scope.tenantId = store.tenantId ∧ boundedKey call.requestKey = true ∧
      call.backend ≠ .down ∧ ∃ snapshot prepared intent stored envelope,
        Opened store tables call.answers call.caller envelope.request envelope.expectedRevision
          snapshot prepared intent ∧
        Replays store tables call.answers call.caller envelope.request envelope.expectedRevision
          snapshot prepared intent stored ∧
        store.loadReceipt tables call.caller.scope prepared.context.actor call.requestKey =
          .ok (some (intent, stored, envelope)) ∧ receipt = { stored with replayed := true } := by
  simp only [Store.receipt, Store.checkScope, Store.checkBinding, bind_eq_ok, Exec.ofExcept_eq_ok,
    rejectIf_eq_ok, ne_eq, not_not, Bool.not_eq_false]
  constructor
  · rintro ⟨-, hscope, context, hopening, -, hbinding, -, hkey, -, hbackend, loaded, hloaded, h⟩
    cases loaded with
    | none => cases h
    | some found =>
        obtain ⟨intent, stored, envelope⟩ := found
        simp only [bind_eq_ok, rejectIf_eq_ok, not_not, Store.revalidate_eq_ok, Exec.lift_eq_ok,
          Exec.ofExcept_eq_ok, Except.ok.injEq, Option.some.injEq] at h
        obtain ⟨snapshot, hload, prepared, hprepare, -, rfl, current, hintent, -, rfl, ⟨⟩, hvalid, -,
          ⟨hclosing, -⟩, rfl⟩ := h
        exact ⟨hscope, hkey, hbackend, snapshot, prepared, current, stored, envelope,
          ⟨hopening, hbinding, hload, hprepare, hintent⟩,
          ⟨⟨envelope, key_of_loadReceipt hloaded ▸ hloaded⟩, hvalid, hclosing⟩, hloaded, rfl⟩
  · rintro ⟨hscope, hkey, hbackend, snapshot, prepared, intent, stored, envelope, hopened,
      hreplays, hloaded, rfl⟩
    refine ⟨(), hscope, prepared.context, hopened.opening, (), hopened.binding, (), hkey, (),
      hbackend, _, hloaded, ?_⟩
    simp only [bind_eq_ok, rejectIf_eq_ok, not_not, Store.revalidate_eq_ok, Exec.lift_eq_ok,
      Exec.ofExcept_eq_ok]
    exact ⟨snapshot, hopened.loaded, prepared, hopened.prepares, (), rfl, intent,
      hopened.intended, (), rfl, (), hreplays.valid, (), ⟨hreplays.closing, hopened.binding⟩,
      trivial⟩

theorem loadReceipt_eq_none {scope : Scope} {actor : ActorId} {key : String}
    (h : store.loadReceipt tables scope actor key = .ok none) :
    ∀ row ∈ tables.receipts, row.key ≠ (scope.appId, actor, key) := by
  unfold Store.loadReceipt at h
  split at h
  · rename_i hfind
    simpa using List.find?_eq_none.1 hfind
  · simp only [bind_eq_ok, Except.ok.injEq, reduceCtorEq, and_false, exists_false] at h

theorem receipt_eq_none {call : ReceiptCall} (h : store.receipt tables call = .ok none) :
    ∃ context, call.answers.opening.resolve call.caller .write = .ok context ∧
      ∀ row ∈ tables.receipts,
        row.key ≠ (call.caller.scope.appId, context.actor, call.requestKey) := by
  simp only [Store.receipt, bind_eq_ok, Exec.ofExcept_eq_ok] at h
  obtain ⟨-, -, context, hopening, -, -, -, -, -, -, loaded, hloaded, h⟩ := h
  cases loaded with
  | none => exact ⟨context, hopening, loadReceipt_eq_none hloaded⟩
  | some found =>
      obtain ⟨intent, stored, envelope⟩ := found
      simp only [bind_eq_ok, Except.ok.injEq, reduceCtorEq, and_false, exists_false] at h

section Errors

variable {stop : Halt StoreError → Prop}

theorem yields_checkBinding {context : TrustedContext} (h : stop (.fail .bindingMismatch)) :
    Yields (fun _ => True) stop (store.checkBinding context) :=
  (yields_rejectIf h).mono (fun _ _ => trivial) fun _ hstop => hstop

theorem yields_ofExcept {ε α : Type} {wrap : ε → StoreError} {x : Except ε α}
    (h : ∀ e, stop (.fail (wrap e))) : Yields (fun _ => True) stop (Exec.ofExcept wrap x) := by
  cases x with
  | ok a => trivial
  | error e => exact h e

theorem yields_revalidate {host : SessionVerifier} {context : TrustedContext}
    (hauthority : ∀ e, stop (.fail (.authority e))) (hbinding : stop (.fail .bindingMismatch))
    (hchanged : stop (.fail .authorityChanged)) :
    Yields (fun _ => True) stop (store.revalidate host caller context) :=
  (yields_ofExcept hauthority).bind fun _ _ => (yields_checkBinding hbinding).bind fun _ _ =>
    (yields_rejectIf hchanged).mono (fun _ _ => trivial) fun _ hstop => hstop

end Errors

theorem loadReceipt_ne_appNotFound {scope : Scope} {actor : ActorId} {key : String} :
    Yields (fun _ => True) (· ≠ .fail .appNotFound) (store.loadReceipt tables scope actor key) := by
  unfold Store.loadReceipt
  split
  · trivial
  · exact (yields_rejectIf (by simp)).bind fun _ _ => (yields_okOr (by simp)).bind fun _ _ =>
      (yields_okOr (by simp)).bind fun _ _ => (yields_rejectIf (by simp)).bind fun _ _ => trivial

theorem normalizedIdentity_ne_appNotFound {bytes : List UInt8} :
    Yields (fun _ => True) (· ≠ StoreError.appNotFound)
      (store.normalizedIdentity snapshot expectedRevision bytes) :=
  (yields_okOr (by simp)).bind fun _ _ => (yields_rejectIf (by simp)).bind fun _ _ => trivial

/-- A recovery does not miss an app that can be loaded. -/
theorem receipt_ne_appNotFound {call : ReceiptCall}
    (hload : store.load tables call.caller.scope = .ok snapshot) :
    Yields (fun _ => True) (· ≠ .fail .appNotFound) (store.receipt tables call) := by
  unfold Store.receipt
  refine (yields_rejectIf (by simp)).bind fun _ _ => (yields_ofExcept (by simp)).bind fun _ _ =>
    (yields_checkBinding (by simp)).bind fun _ _ => (yields_rejectIf (by simp)).bind fun _ _ =>
      (yields_rejectIf (by simp)).bind fun _ _ => loadReceipt_ne_appNotFound.bind fun loaded _ => ?_
  cases loaded with
  | none => trivial
  | some found =>
      obtain ⟨intent, stored, envelope⟩ := found
      dsimp only
      rw [hload, ok_bind]
      refine Yields.bind (M := fun _ => True) ?_ fun prepared _ =>
        (yields_rejectIf (by simp)).bind fun _ _ => Yields.bind (M := fun _ => True) ?_ fun _ _ =>
          (yields_rejectIf (by simp)).bind fun _ _ => (yields_rejectIf (by simp)).bind fun _ _ =>
            (yields_revalidate (by simp) (by simp) (by simp)).bind fun _ _ => trivial
      · rcases prepareCommand call.answers.preparing call.caller snapshot.spec snapshot.facts
          envelope.request with (error | site | _) | prepared <;> simp [Exec.lift]
      · have hidentity : Yields (fun _ => True) (· ≠ StoreError.appNotFound)
            (store.normalizedIdentity snapshot envelope.expectedRevision prepared.intentBytes) :=
          normalizedIdentity_ne_appNotFound
        cases hcurrent : store.normalizedIdentity snapshot envelope.expectedRevision
            prepared.intentBytes with
        | ok current => trivial
        | error error =>
            rw [hcurrent] at hidentity
            exact fun heq => hidentity (Halt.fail.inj heq)

end Operations

end Evobase
