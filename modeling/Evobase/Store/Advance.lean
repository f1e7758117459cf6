import Evobase.Store.Repeat

/-!
# Revisions and receipts

A call leaves the revision and the receipts of an app as they are, or it is an execution that
expects the current revision: then it adds one receipt under its key, and the next revision is
the current one (`step_advances`). A commit that is applied although a failure is reported is no
exception.

The receipts are looked at through `receiptsUnder`, the rows of an app under a key, because later
modules ask for nothing else. An execution that fails leaves them as they are, unless the failure
comes after the commit.
-/

namespace Evobase

open Foundation

def Tables.receiptsUnder (tables : Tables) (appId : AppId) (key : String) : List ReceiptRow :=
  tables.receipts.filter fun row => row.appId = appId ∧ row.requestKey = key

/-- The execution commits to the app: it expects the revision that it finds, leaves the next one,
and adds a receipt under its key. -/
structure Advances (scope : Scope) (before current : Snapshot) (call : ExecuteCall)
    (tables after : Tables) : Prop where
  caller : call.caller.scope = scope
  expected : call.expectedRevision = before.revision
  revision : current.revision.val = before.revision.val + 1
  identity : current.specIdentity = before.specIdentity
  receipts : ∃ row, after.receipts = tables.receipts ++ [row] ∧ row.appId = scope.appId ∧
    row.requestKey = call.request.idempotencyKey

section Step

variable {store : Store} {tables after : Tables} {scope : Scope} {before : Snapshot}

theorem receiptsUnder_append {row : ReceiptRow}
    (hreceipts : after.receipts = tables.receipts ++ [row]) (appId : AppId) (key : String) :
    after.receiptsUnder appId key =
      tables.receiptsUnder appId key ++
        if row.appId = appId ∧ row.requestKey = key then [row] else [] := by
  rw [Tables.receiptsUnder, hreceipts, List.filter_append, List.filter_singleton,
    Bool.cond_decide]
  rfl

/-- The snapshot after a commit to the app. -/
theorem load_commit (hload : store.load tables scope = .ok before)
    (htenant : scope.tenantId = store.tenantId) {answers : Answers} {caller : Caller}
    {request : RawCommandRequest} {expectedRevision : U64} {prepared : PreparedCommand}
    {intent : List UInt8} {c : Commit} {next : CheckedRecords} {factsJson : List UInt8}
    {applications : List ApplicationRow} (hscope : caller.scope = scope)
    (hcommit : CommitsTo store tables answers caller request expectedRevision before prepared
      intent c next factsJson applications) :
    ∃ current, store.load (tables.commit c applications) scope = .ok current ∧
      current.specIdentity = before.specIdentity ∧
      current.revision.val = before.revision.val + 1 := by
  have hloads : store.Loads scope before.specIdentity tables := ⟨before, hload, rfl⟩
  obtain ⟨current, hcurrent, hidentity⟩ :=
    hloads.commit htenant (hscope ▸ htenant) (hscope.symm ▸ hload) hcommit
  refine ⟨current, hcurrent, hidentity, ?_⟩
  obtain ⟨application, release, hselect, hreads⟩ := load_eq_ok_iff.1 hload
  obtain ⟨application', release', hselect', hreads'⟩ := load_eq_ok_iff.1 hcurrent
  obtain ⟨happlication, -⟩ := selectApplication_eq_some.1 hselect
  obtain ⟨happlication', -⟩ := selectApplication_eq_some.1 hselect'
  obtain ⟨sqlExpected, hexpected, hupdate⟩ := hcommit.updated
  have hrow : application.appId = caller.scope.appId := by
    rw [hscope]
    simpa using List.find?_some happlication
  have hhit : application.revision = sqlExpected :=
    Bounded.ext_val (hreads.revision.trans hexpected.symm)
  have hfind := find?_updateApplication hupdate scope.appId
  rw [happlication, Option.map_some, if_pos ⟨hrow, hhit, hreads.identity.symm⟩] at hfind
  obtain rfl := Option.some.inj (hfind.symm.trans happlication')
  have hstep := hcommit.revision
  rw [Store.nextRevision, Bounded.checkedAdd_eq_some] at hstep
  have hrevision : c.sqlRevision.val = current.revision.val := hreads'.revision
  rw [← hrevision, c.sameRevision, hstep]
  rfl

theorem receiptRow_of_commits {answers : Answers} {caller : Caller} {request : RawCommandRequest}
    {expectedRevision : U64} {opened : Snapshot} {prepared : PreparedCommand} {intent : List UInt8}
    {c : Commit} {next : CheckedRecords} {factsJson : List UInt8}
    {applications : List ApplicationRow}
    (hcommit : CommitsTo store tables answers caller request expectedRevision opened prepared
      intent c next factsJson applications) :
    c.receiptRow.appId = caller.scope.appId ∧ c.receiptRow.requestKey = request.idempotencyKey := by
  obtain ⟨hcaller, hrequest, -, -⟩ := hcommit.same
  rw [← hcaller, ← hrequest]
  exact ⟨rfl, rfl⟩

theorem advances_of_changed (hload : store.load tables scope = .ok before)
    (htenant : scope.tenantId = store.tenantId) {call : ExecuteCall}
    (happ : call.caller.scope.appId = scope.appId)
    (hchanged : (store.executeAt tables call).2 ≠ tables) :
    ∃ current, store.load (store.executeAt tables call).2 scope = .ok current ∧
      Advances scope before current call tables (store.executeAt tables call).2 := by
  rcases executeAt_outcome call with ⟨halt, hsame⟩ | ⟨hcaller, receipt, hin⟩
  · exact absurd (congrArg Prod.snd hsame) hchanged
  · obtain ⟨opened, prepared, intent, hopened, houtcome⟩ := executeIn_eq_ok.1 hin
    rcases houtcome with ⟨-, -, -, hsame⟩ | ⟨-, c, next, factsJson, applications, hcommit, -, hafter⟩
    · exact absurd hsame hchanged
    · obtain ⟨hrowApp, hrowKey⟩ := receiptRow_of_commits hcommit
      have hscope : call.caller.scope = scope := Scope.ext_parts (hcaller.trans htenant.symm) happ
      obtain rfl : before = opened := by
        have hopen := hopened.loaded
        rw [hscope, hload] at hopen
        exact Except.ok.inj hopen
      obtain ⟨current, hcurrent, hidentity, hrevision⟩ := load_commit hload htenant hscope hcommit
      rw [hafter]
      exact ⟨current, hcurrent, hscope, hcommit.expected, hrevision, hidentity, c.receiptRow, rfl,
        hrowApp.trans happ, hrowKey⟩

/-- An execution on an app: nothing changes for the app, or it commits at the revision that it
expects. -/
theorem execute_advances (hload : store.load tables scope = .ok before)
    (htenant : scope.tenantId = store.tenantId) (call : ExecuteCall) :
    (∃ current, store.load (store.executeAt tables call).2 scope = .ok current ∧
      Advances scope before current call tables (store.executeAt tables call).2) ∨
    store.load (store.executeAt tables call).2 scope = .ok before ∧
      ∀ key, (store.executeAt tables call).2.receiptsUnder scope.appId key =
        tables.receiptsUnder scope.appId key := by
  by_cases hchanged : (store.executeAt tables call).2 = tables
  · rw [hchanged]
    exact .inr ⟨hload, fun _ => rfl⟩
  by_cases happ : call.caller.scope.appId = scope.appId
  · exact .inl (advances_of_changed hload htenant happ hchanged)
  rcases executeAt_outcome call with ⟨halt, hsame⟩ | ⟨-, receipt, hin⟩
  · exact absurd (congrArg Prod.snd hsame) hchanged
  · obtain ⟨opened, prepared, intent, -, houtcome⟩ := executeIn_eq_ok.1 hin
    rcases houtcome with ⟨-, -, -, hsame⟩ | ⟨-, c, next, factsJson, applications, hcommit, -, hafter⟩
    · exact absurd hsame hchanged
    · obtain ⟨hrowApp, -⟩ := receiptRow_of_commits hcommit
      rw [hafter]
      refine .inr ⟨?_, fun key => ?_⟩
      · obtain ⟨application, release, hselect, -⟩ := load_eq_ok_iff.1 hload
        obtain ⟨happlication, hrelease⟩ := selectApplication_eq_some.1 hselect
        obtain ⟨sqlExpected, -, hupdate⟩ := hcommit.updated
        have hrow : application.appId = scope.appId := by
          simpa using List.find?_some happlication
        have hfind := find?_updateApplication hupdate scope.appId
        rw [happlication, Option.map_some, if_neg fun hhit => happ (hhit.1.symm.trans hrow)]
          at hfind
        have hselect' : Store.selectApplication (tables.commit c applications) scope.appId =
            some (application, release) := selectApplication_eq_some.2 ⟨hfind, hrelease⟩
        exact (load_congr (hselect'.trans hselect.symm)).trans hload
      · have hadds : (tables.commit c applications).receipts = tables.receipts ++ [c.receiptRow] :=
          rfl
        rw [receiptsUnder_append hadds, if_neg, List.append_nil]
        exact fun hrow => happ (hrowApp.symm.trans hrow.1)

theorem receipts_executeAt (call : ExecuteCall) :
    (store.executeAt tables call).2.receipts = tables.receipts ∨
      ∃ row, (store.executeAt tables call).2.receipts = tables.receipts ++ [row] ∧
        row.appId = call.caller.scope.appId ∧ row.requestKey = call.request.idempotencyKey := by
  rcases executeAt_outcome call with ⟨halt, hsame⟩ | ⟨-, receipt, hin⟩
  · exact .inl (by rw [hsame])
  · obtain ⟨opened, prepared, intent, -, houtcome⟩ := executeIn_eq_ok.1 hin
    rcases houtcome with ⟨-, -, -, hsame⟩ | ⟨-, c, next, factsJson, applications, hcommit, -, hafter⟩
    · exact .inl (by rw [hsame])
    · exact .inr ⟨c.receiptRow, by rw [hafter]; rfl, receiptRow_of_commits hcommit⟩

theorem receiptsUnder_executeAt_of_ne {call : ExecuteCall} {appId : AppId} {key : String}
    (h : call.caller.scope.appId ≠ appId ∨ call.request.idempotencyKey ≠ key) :
    (store.executeAt tables call).2.receiptsUnder appId key = tables.receiptsUnder appId key := by
  rcases receipts_executeAt call with hsame | ⟨row, hreceipts, happ, hkey⟩
  · rw [Tables.receiptsUnder, Tables.receiptsUnder, hsame]
  · rw [receiptsUnder_append hreceipts, if_neg, List.append_nil]
    rintro ⟨hrowApp, hrowKey⟩
    rcases h with hne | hne
    · exact hne (happ.symm.trans hrowApp)
    · exact hne (hkey.symm.trans hrowKey)

/-- The key that a call uses, if it is an execution. -/
def StoreCall.uses : StoreCall → Option String
  | .execute call => some call.request.idempotencyKey
  | .receipt _ => none
  | .bootstrap _ => none

theorem load_bootstrap_of_load (hload : store.load tables scope = .ok before)
    (call : BootstrapCall) :
    store.load (store.bootstrap tables call).2 scope = .ok before ∧
      (store.bootstrap tables call).2.receipts = tables.receipts := by
  rcases bootstrap_outcome call with ⟨halt, hsame⟩ | ⟨snapshot, factsJson, hin⟩
  · rw [hsame]
    exact ⟨hload, rfl⟩
  · rcases Store.of_bootstrapIn hin with hsame | ⟨hnone, hafter⟩
    · rw [hsame]
      exact ⟨hload, rfl⟩
    · -- The rows that are added are rows of an app without rows, hence of another app.
      obtain ⟨application, release, hselect, -⟩ := load_eq_ok_iff.1 hload
      obtain ⟨happlication, hrelease⟩ := selectApplication_eq_some.1 hselect
      refine ⟨(load_congr ?_).trans hload, by rw [hafter]⟩
      refine (selectApplication_eq_some.2 ⟨?_, ?_⟩).trans hselect.symm
      · rw [hafter, List.find?_append, happlication, Option.some_or]
      · rw [hafter, List.find?_append, hrelease, Option.some_or]

/-- A call on an app: nothing changes for the app, or it is an execution that commits at the
revision that it expects. -/
theorem step_advances (hload : store.load tables scope = .ok before)
    (htenant : scope.tenantId = store.tenantId) (call : StoreCall) :
    (∃ execute current, call = .execute execute ∧
      store.load (store.step tables call).2 scope = .ok current ∧
      Advances scope before current execute tables (store.step tables call).2) ∨
    store.load (store.step tables call).2 scope = .ok before ∧
      ∀ key, (store.step tables call).2.receiptsUnder scope.appId key =
        tables.receiptsUnder scope.appId key := by
  cases call with
  | execute call =>
      refine (execute_advances hload htenant call).imp_left fun h => ?_
      obtain ⟨current, hcurrent, hadvances⟩ := h
      exact ⟨call, current, rfl, hcurrent, hadvances⟩
  | receipt call => exact .inr ⟨hload, fun _ => rfl⟩
  | bootstrap call =>
      obtain ⟨hafter, hreceipts⟩ := load_bootstrap_of_load hload call
      refine .inr ⟨hafter, fun key => ?_⟩
      rw [Tables.receiptsUnder, Tables.receiptsUnder]
      exact congrArg _ hreceipts

theorem receiptsUnder_step_of_ne {call : StoreCall} {key : String} (h : call.uses ≠ some key)
    (appId : AppId) :
    (store.step tables call).2.receiptsUnder appId key = tables.receiptsUnder appId key := by
  cases call with
  | execute call => exact receiptsUnder_executeAt_of_ne (.inr fun heq => h (congrArg some heq))
  | receipt call => rfl
  | bootstrap call =>
      have hreceipts : (store.bootstrap tables call).2.receipts = tables.receipts := by
        rcases bootstrap_outcome call with ⟨halt, hsame⟩ | ⟨snapshot, factsJson, hin⟩
        · rw [hsame]
        · rcases Store.of_bootstrapIn hin with hsame | ⟨-, hafter⟩
          · rw [hsame]
          · rw [hafter]
      rw [Tables.receiptsUnder, Tables.receiptsUnder]
      exact congrArg _ hreceipts

/-- A receipt that a store returns for a key is a receipt of the definition that it loads, and it is
stored under the key. -/
structure ReceiptUnder (store : Store) (tables after : Tables) (scope : Scope) (key : String)
    (receipt : CommitReceipt) : Prop where
  requestKey : receipt.requestKey = key
  stored : after.receiptsUnder scope.appId key ≠ []
  identity : ∃ snapshot, store.load tables scope = .ok snapshot ∧
    receipt.specIdentity = snapshot.specIdentity

theorem receiptsUnder_ne_nil {row : ReceiptRow} (hrow : row ∈ tables.receipts) :
    tables.receiptsUnder row.appId row.requestKey ≠ [] :=
  List.ne_nil_of_mem (List.mem_filter.2 ⟨hrow, decide_eq_true ⟨rfl, rfl⟩⟩)

theorem receiptsUnder_ne_nil_of_key {row : ReceiptRow} (hrow : row ∈ tables.receipts)
    {appId : AppId} {actor : ActorId} {key : String} (hkey : row.key = (appId, actor, key)) :
    tables.receiptsUnder appId key ≠ [] := by
  obtain ⟨happ, -, hrequest⟩ : row.appId = appId ∧ row.actorId = actor ∧ row.requestKey = key := by
    simpa [ReceiptRow.key] using hkey
  rw [← happ, ← hrequest]
  exact receiptsUnder_ne_nil hrow

theorem exists_row_of_loadReceipt {actor : ActorId} {key : String}
    {found : List UInt8 × CommitReceipt × RequestEnvelope}
    (h : store.loadReceipt tables scope actor key = .ok (some found)) :
    ∃ row ∈ tables.receipts, row.key = (scope.appId, actor, key) := by
  unfold Store.loadReceipt at h
  split at h
  · cases h
  · rename_i row hfind
    exact ⟨row, List.mem_of_find?_eq_some hfind, by simpa using List.find?_some hfind⟩

theorem receiptsUnder_of_loadReceipt {actor : ActorId} {key : String}
    {found : List UInt8 × CommitReceipt × RequestEnvelope}
    (h : store.loadReceipt tables scope actor key = .ok (some found)) :
    tables.receiptsUnder scope.appId key ≠ [] := by
  obtain ⟨row, hrow, hkey⟩ := exists_row_of_loadReceipt h
  exact receiptsUnder_ne_nil_of_key hrow hkey

theorem of_validateReceipt {snapshot : Snapshot} {request : RawCommandRequest}
    {expectedRevision : U64} {receipt : CommitReceipt}
    (h : Store.validateReceipt snapshot request expectedRevision receipt = .ok ()) :
    receipt.requestKey = request.idempotencyKey ∧ receipt.specIdentity = snapshot.specIdentity ∧
      receipt.transition.commandId = request.commandId ∧
      receipt.transition.recordId = request.recordId := by
  simp only [Store.validateReceipt, rejectIf_eq_ok, not_or, ne_eq, not_not] at h
  obtain ⟨-, hkey, -, -, -, hidentity, hcommand, hrecord, -⟩ := h
  exact ⟨hkey, hidentity, hcommand, hrecord⟩

theorem receipt_of_decideCommand {prepared : PreparedCommand} {dataRevision : U64}
    {batch : CheckedTransitionBatch} (h : decideCommand prepared dataRevision = .ok batch) :
    batch.receipt = ⟨prepared.command.commandId, prepared.request.recordId,
      prepared.command.toState⟩ := by
  simp only [decideCommand, bind_eq_ok, Except.ok.injEq] at h
  obtain ⟨-, -, -, -, -, -, -, -, -, -, -, -, -, -, -, -, rfl⟩ := h
  rfl

/-- An execution returns a receipt of its own request. -/
theorem receipt_of_execute {call : ExecuteCall} {receipt : CommitReceipt}
    (h : store.executeAt tables call = (.ok receipt, after)) :
    ReceiptUnder store tables after call.caller.scope call.request.idempotencyKey receipt ∧
      receipt.transition.commandId = call.request.commandId ∧
      receipt.transition.recordId = call.request.recordId := by
  obtain ⟨-, -, hin⟩ := executeAt_eq_ok.1 h
  obtain ⟨snapshot, prepared, intent, hopened, houtcome⟩ := executeIn_eq_ok.1 hin
  rcases houtcome with ⟨stored, hreplays, rfl, rfl⟩ |
    ⟨-, c, next, factsJson, applications, hcommit, rfl, rfl⟩
  · obtain ⟨hkey, hidentity, hcommand, hrecord⟩ := of_validateReceipt hreplays.valid
    obtain ⟨envelope, hfound⟩ := hreplays.found
    exact ⟨⟨hkey, receiptsUnder_of_loadReceipt hfound, snapshot, hopened.loaded, hidentity⟩,
      hcommand, hrecord⟩
  · obtain ⟨hcaller, hrequest, hidentity, -⟩ := hcommit.same
    obtain ⟨hrowApp, hrowKey⟩ := receiptRow_of_commits hcommit
    have hprepared := prepareCommand_eq_ok_iff.1 hopened.prepares
    have hreceipt : c.receipt.transition =
        ⟨prepared.command.commandId, prepared.request.recordId, prepared.command.toState⟩ :=
      receipt_of_decideCommand hcommit.decided
    refine ⟨⟨?_, ?_, snapshot, hopened.loaded, hidentity⟩, ?_, ?_⟩
    · rw [← hrequest]
      rfl
    · rw [← hrowApp, ← hrowKey]
      exact receiptsUnder_ne_nil (List.mem_append_right _ List.mem_cons_self)
    · rw [hreceipt]
      exact (RawAppSpec.command_some hprepared.hasCommand).2
    · rw [hreceipt, hprepared.request_eq]

theorem receipt_of_recovery {call : ReceiptCall} {receipt : CommitReceipt}
    (h : store.receipt tables call = .ok (some receipt)) :
    ReceiptUnder store tables tables call.caller.scope call.requestKey receipt := by
  obtain ⟨-, -, -, snapshot, prepared, intent, stored, envelope, hopened, hreplays, hfound, rfl⟩ :=
    receipt_eq_some.1 h
  obtain ⟨hkey, hidentity, -, -⟩ := of_validateReceipt hreplays.valid
  exact ⟨hkey.trans (key_of_loadReceipt hfound), receiptsUnder_of_loadReceipt hfound, snapshot,
    hopened.loaded, hidentity⟩

end Step

end Evobase
