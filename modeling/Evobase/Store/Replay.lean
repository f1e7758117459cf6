import Evobase.Store.Run

/-!
# Replay

A committed request is answered from its receipt in every later state: its preparation reads
only what no commit changes, which are the definition, the presence of the record and its
owner (`SameOwner`). The stored receipt and the stored request are read back
(`Journal.loadReceipt`), and another request under the same key has another identity.

The theorem is about every later state of a run, also after the record has moved on to a state in
which the command could not be run any more. A recovery by the key gives the same receipt.
-/

namespace Evobase

open Foundation

/-- Every record is still there, with its owner under the policy of its table. -/
def SameOwner (spec : RawAppSpec) (rows rows' : List RawRecord) : Prop :=
  ∀ rule ∈ spec.policies, ∀ row ∈ rows, row.tableId = rule.tableId →
    ∃ row' ∈ rows', row'.key = row.key ∧ row'.scope = row.scope ∧
      row'.values.get? rule.ownerField = row.values.get? rule.ownerField

theorem SameOwner.refl (spec : RawAppSpec) (rows : List RawRecord) : SameOwner spec rows rows :=
  fun _ _ row hrow _ => ⟨row, hrow, rfl, rfl, rfl⟩

theorem SameOwner.trans {spec : RawAppSpec} {rows mid rows' : List RawRecord}
    (h : SameOwner spec rows mid) (h' : SameOwner spec mid rows') : SameOwner spec rows rows' := by
  intro rule hrule row hrow htable
  obtain ⟨row', hrow', hkey, hscope, howner⟩ := h rule hrule row hrow htable
  obtain ⟨htableEq, -⟩ := key_eq_key_iff.1 hkey
  obtain ⟨last, hlast, hkey', hscope', howner'⟩ := h' rule hrule row' hrow' (htableEq.trans htable)
  exact ⟨last, hlast, hkey'.trans hkey, hscope'.trans hscope, howner'.trans howner⟩

section Replay

variable {store : Store} {start tables : Tables} {book : Book} {spec : CheckedAppSpec}
  {initial : CheckedRecords} {before rest : List Commit} {c : Commit} {rows rows' : List RawRecord}

/-- A commit writes one record and keeps its owner. -/
theorem Commit.Lawful.sameOwner (h : c.Lawful store spec initial before)
    (hrows : recordsAfter initial.records before = some rows)
    (hrows' : recordsAfter initial.records (before ++ [c]) = some rows') :
    SameOwner spec.definition rows rows' := by
  have hspec := wellFormed spec
  obtain ⟨_, hsame, ⟨host, hprepared⟩, old, new, hcorrect⟩ := h.prepared
  obtain rfl := Option.some.inj (hrows.symm.trans hsame)
  obtain ⟨out, hvalidate⟩ := hprepared.valid
  have hkeys : (rows.map RawRecord.key).Nodup :=
    ((validateRecords_eq_ok_iff hspec).1 hvalidate).1.keys
  obtain ⟨hold, holdTable, -⟩ := CheckedRecords.find_some hcorrect.found
  have hkey : new.key = old.key := key_eq_key_iff.2 hcorrect.identity.2
  have hset : rows' = setRow new rows := by
    rw [recordsAfter_append hrows, hcorrect.writes] at hrows'
    exact applyWrites_singleton hkeys hrows'
  rw [hset]
  intro rule hrule row hrow htable
  by_cases hwritten : row.key = new.key
  · obtain rfl : row = old := List.inj_on_of_nodup_map hkeys hrow hold (hwritten.trans hkey)
    have hpolicy : rule = c.batch.prepared.policy.rule := by
      refine List.inj_on_of_nodup_map hspec.policyTables hrule
        (RawAppSpec.policy_some hprepared.hasPolicy).1 ?_
      rw [(hprepared.command hspec).table, ← holdTable, htable]
    refine ⟨new, new_mem_setRow ?_, hkey, hcorrect.identity.1, ?_⟩
    · rw [hkey]
      exact List.mem_map_of_mem hold
    · rw [hpolicy]
      exact hcorrect.owner
  · exact ⟨row, List.mem_map.2 ⟨row, hrow, if_neg hwritten⟩, rfl, rfl, rfl⟩

theorem sameOwner_of_lawful
    (hlawful : EachEntry (Commit.Lawful store spec initial) (before ++ rest))
    (hrows : recordsAfter initial.records before = some rows)
    (hrows' : recordsAfter initial.records (before ++ rest) = some rows') :
    SameOwner spec.definition rows rows' := by
  induction rest using List.reverseRecOn generalizing rows' with
  | nil =>
      rw [List.append_nil, hrows] at hrows'
      exact Option.some.inj hrows' ▸ SameOwner.refl _ _
  | append_singleton rest d ih =>
      rw [← List.append_assoc] at hlawful hrows'
      have hd := hlawful (before ++ rest) d [] rfl
      obtain ⟨mid, hmid, -⟩ := hd.prepared
      exact (ih hlawful.left hmid).trans (hd.sameOwner hmid hrows')

/-- The answers of the host to an operation all say that the caller has the authority. -/
structure Answers.Agree (answers : Answers) (caller : Caller) (context : TrustedContext) : Prop where
  opening : answers.opening.resolve caller .write = .ok context
  preparing : answers.preparing.resolve caller .write = .ok context
  closing : answers.closing.resolve caller .write = .ok context

/-- A committed request is prepared again in every later state. -/
theorem Journal.prepares (h : Journal store start book tables) (hc : c ∈ book.log)
    {host : SessionVerifier} {caller : Caller} (hscope : caller.scope = book.scope)
    (hhost : host.resolve caller .write = .ok c.batch.prepared.context) :
    ∃ prepared, prepareCommand host caller book.spec.definition book.current c.request =
        .ok prepared ∧ prepared.context = c.batch.prepared.context ∧
      prepared.intentBytes = (intentJson book.spec.definition c.request).print := by
  obtain ⟨before, after, hlog⟩ := List.append_of_mem hc
  obtain ⟨rows, hrows, ⟨host', hprepared⟩, -⟩ := (h.lawful before c after hlog).prepared
  have hspec := wellFormed book.spec
  have hcurrent := h.records
  have hlawful := h.lawful
  rw [hlog] at hcurrent hlawful
  have howner := sameOwner_of_lawful hlawful hrows hcurrent
  obtain ⟨row, hfound, hallows⟩ := hprepared.row
  obtain ⟨hmem, htable, hid⟩ := CheckedRecords.find_some hfound
  have hpolicy := RawAppSpec.policy_some hprepared.hasPolicy
  obtain ⟨row', hmem', hkey, hrowScope, hrowOwner⟩ :=
    howner _ hpolicy.1 row hmem (htable.trans (hprepared.command hspec).table.symm)
  obtain ⟨htableEq, hidEq⟩ := key_eq_key_iff.1 hkey
  have hvalid := ((validFor_iff hspec).1 h.valid).1
  obtain ⟨records, hrecords⟩ := h.valid
  have hvalidate := validateRecords_records hspec hrecords
  refine ⟨{ c.batch.prepared with facts := book.current }, prepareCommand_eq_ok_iff.2 ?_, rfl,
    hprepared.intent_eq⟩
  exact {
    resolved := hhost
    app := by rw [hscope, ← h.scope, hvalid.app]
    inScope := h.scope.trans hscope.symm
    hasCommand := hprepared.hasCommand
    hasMachine := hprepared.hasMachine
    hasPolicy := hprepared.hasPolicy
    checkedFor := hprepared.checkedFor
    accepted := hprepared.accepted
    valid := ⟨book.current, hscope ▸ h.scope ▸ hvalidate⟩
    row := ⟨row', (find_eq_some_iff hvalid.keys).2 ⟨hmem', htableEq.trans htable, hidEq.trans hid⟩,
      hrowScope.trans hallows.1, htableEq.trans hallows.2.1, hrowOwner ▸ hallows.2.2⟩
    requested := hprepared.requested
    spec_eq := hprepared.spec_eq
    facts_eq := rfl
    request_eq := hprepared.request_eq
    intent_eq := hprepared.intent_eq }

/-- The stored receipt and the stored request of a commit are read back. -/
theorem Journal.loadReceipt (h : Journal store start book tables) (hc : c ∈ book.log) :
    store.loadReceipt tables book.scope c.actor c.request.idempotencyKey =
      .ok (some (c.intent, c.receipt, ⟨c.expectedRevision, c.request⟩)) := by
  obtain ⟨before, hlawful⟩ := h.lawful.of_mem hc
  obtain ⟨rows, -, ⟨host, hprepared⟩, -⟩ := hlawful.prepared
  obtain ⟨hintentLe, hrequestLe, hreceiptLe⟩ := ReceiptRow.check_iff.1 hlawful.stored
  have hkey : c.receiptRow.key = (book.scope.appId, c.actor, c.request.idempotencyKey) := by
    rw [Commit.receiptRow, ReceiptRow.key, Commit.appId, hlawful.scope]
    rfl
  have hfind : tables.receipts.find? (fun row =>
      row.key = (book.scope.appId, c.actor, c.request.idempotencyKey)) = some c.receiptRow := by
    rw [h.receipts, find?_append_of_forall_ne, ← hkey]
    · have hkeys : ((book.log.map Commit.receiptRow).map ReceiptRow.key).Nodup := by
        rw [List.map_map]
        exact h.keys
      exact find?_key_eq_some hkeys (List.mem_map_of_mem hc)
    · intro row hrow
      rw [decide_eq_false_iff_not]
      exact fun heq => h.without.receipts row hrow (congrArg Prod.fst heq)
  have hreceiptParse : store.reader.parse c.receiptRow.receiptJson = some c.receipt.toJson := by
    refine store.reader.parse_print _ c.receipt.exact_toJson ?_
    simp [CommitReceipt.toJson, TransitionReceipt.toJson, Identity.toJson, Json.ofFields,
      Json.present, Json.depth, Json.depthMembers, Json.ofU64]
  have hrequestParse : store.reader.parse c.receiptRow.requestJson =
      some (RequestEnvelope.toJson ⟨c.expectedRevision, c.request⟩) := by
    refine store.reader.parse_print _ (RequestEnvelope.exact_toJson _) ?_
    have hdepth := hprepared.requested.fits.depth
    have hlimit : maxDepth ≤ 126 := by decide
    simp only [RequestEnvelope.toJson, Json.ofFields, Json.present, Json.depth, Json.depthMembers,
      Json.ofU64]
    omega
  have hinputs : c.request.inputs.entries.length ≤ maxFieldsPerTable :=
    hprepared.requested.inputs_le.trans (by decide)
  have hrequestRead : RequestEnvelope.ofJson (RequestEnvelope.toJson
      ⟨c.expectedRevision, c.request⟩) = some ⟨c.expectedRevision, c.request⟩ :=
    RequestEnvelope.ofJson_toJson hinputs
  rw [Store.loadReceipt, hfind]
  simp only [bind_eq_ok, rejectIf_eq_ok, okOr_eq_ok, not_or, gt_iff_lt, not_lt, ne_eq, not_not,
    hreceiptParse, hrequestParse, hrequestRead, Option.bind_some, CommitReceipt.ofJson_toJson]
  exact ⟨(), ⟨hintentLe, hreceiptLe, hrequestLe⟩, _, rfl, _, rfl, (), rfl, rfl⟩

/-- The stored receipt of a commit is valid in every later state. -/
theorem Journal.validateReceipt (h : Journal store start book tables) (hc : c ∈ book.log) :
    Store.validateReceipt (book.snapshot store) c.request c.expectedRevision c.receipt =
      .ok () := by
  obtain ⟨before, after, hlog⟩ := List.append_of_mem hc
  have hlawful := h.lawful before c after hlog
  obtain ⟨rows, -, ⟨host, hprepared⟩, old, new, hcorrect⟩ := hlawful.prepared
  have hreceipt : c.receipt.transition =
      ⟨c.request.commandId, c.request.recordId, c.batch.prepared.command.toState⟩ :=
    hcorrect.receipt
  have hnext : Store.nextRevision c.expectedRevision = some c.revision := by
    rw [Store.nextRevision, Bounded.checkedAdd_eq_some, hlawful.revision,
      hlawful.expectedRevision, U64.one_val]
    ring
  have hle : c.revision.val ≤ book.revision.val := by
    rw [hlawful.revision, h.revision, hlog, List.length_append, List.length_cons]
    push_cast
    omega
  have hidentity : c.specIdentity = book.identity store := hlawful.specIdentity
  have hcommand := RawAppSpec.command_some hprepared.hasCommand
  rw [Store.validateReceipt, rejectIf_eq_ok, hreceipt]
  simp only [Commit.receipt, commitReceipt, Book.snapshot, hnext, hidentity, not_or, ne_eq,
    not_not, gt_iff_lt, not_lt, Bool.false_eq_true, not_false_eq_true, true_and]
  exact ⟨hle, _, hcommand.1, hcommand.2, rfl⟩

variable {answers : Answers} {caller : Caller}

/-- A committed request replays in every later state. -/
theorem Journal.replays (h : Journal store start book tables) (hc : c ∈ book.log)
    (hscope : caller.scope = book.scope)
    (hanswers : answers.Agree caller c.batch.prepared.context) :
    ∃ prepared, prepared.context.actor = c.actor ∧
      Opened store tables answers caller c.request c.expectedRevision (book.snapshot store) prepared
        c.intent ∧
      Replays store tables answers caller c.request c.expectedRevision (book.snapshot store)
        prepared c.intent c.receipt := by
  obtain ⟨before, hlawful⟩ := h.lawful.of_mem hc
  obtain ⟨prepared, hprepare, hcontext, hbytes⟩ := h.prepares hc hscope hanswers.preparing
  have hactor : prepared.context.actor = c.actor := by rw [hcontext, Commit.actor]
  refine ⟨prepared, hactor, ?_, ?_⟩
  · exact {
      opening := hcontext ▸ hanswers.opening
      binding := hcontext ▸ hlawful.binding
      loaded := hscope ▸ h.load
      prepares := hprepare
      intended := hbytes ▸ hlawful.intended _ rfl }
  · exact {
      found := ⟨_, by rw [hscope, hactor]; exact h.loadReceipt hc⟩
      valid := h.validateReceipt hc
      closing := hcontext ▸ hanswers.closing }

theorem Journal.intent_eq (h : Journal store start book tables) (hc : c ∈ book.log) :
    c.intent = (identityJson (book.identity store) c.expectedRevision book.spec.definition
      c.request).print := by
  obtain ⟨before, hlawful⟩ := h.lawful.of_mem hc
  obtain ⟨rows, -, ⟨host, hprepared⟩, -⟩ := hlawful.prepared
  have hintended := hlawful.intended (book.snapshot store) rfl
  rw [Store.normalizedIdentity_eq hprepared.requested.intent, Store.encode_eq_ok] at hintended
  exact hintended.2

/-- A prepared request under the key of a commit that asks for something else is refused. -/
theorem Journal.conflicts (h : Journal store start book tables) (hc : c ∈ book.log)
    (hscope : caller.scope = book.scope)
    (hopening : answers.opening.resolve caller .write = .ok c.batch.prepared.context)
    (hpreparing : answers.preparing.resolve caller .write = .ok c.batch.prepared.context)
    {request : RawCommandRequest} {expectedRevision : U64} {prepared : PreparedCommand}
    (hprepare : prepareCommand answers.preparing caller book.spec.definition book.current request =
      .ok prepared) (hkey : request.idempotencyKey = c.request.idempotencyKey)
    (hother : ¬ (expectedRevision = c.expectedRevision ∧
      request.commandId = c.request.commandId ∧ request.recordId = c.request.recordId ∧
      request.inputs = c.request.inputs)) (fault : Option CommitStage) :
    store.executeIn tables answers caller expectedRevision request fault =
      .error (.fail (if maxBytes < (identityJson (book.identity store) expectedRevision
        book.spec.definition request).print.length then .payloadLimit else .intentConflict)) := by
  obtain ⟨before, hlawful⟩ := h.lawful.of_mem hc
  have hprepared := prepareCommand_eq_ok_iff.1 hprepare
  have hcontext : prepared.context = c.batch.prepared.context :=
    Except.ok.inj (hprepared.resolved.symm.trans hpreparing)
  have hidentity : store.normalizedIdentity (book.snapshot store) expectedRevision
      prepared.intentBytes = Store.encode (identityJson (book.identity store) expectedRevision
        book.spec.definition request) := by
    rw [hprepared.intent_eq, Store.normalizedIdentity_eq hprepared.requested.intent]
    rfl
  have hloaded := h.loadReceipt hc
  have hbinding := hlawful.binding
  have hactor : c.batch.prepared.context.actor = c.actor := rfl
  have hprepareBook : prepareCommand answers.preparing caller (book.snapshot store).spec
      (book.snapshot store).facts request = .ok prepared := hprepare
  simp only [Store.executeIn, hopening, Exec.ofExcept, ok_bind, Store.checkBinding, hbinding,
    rejectIf, ne_eq, not_true_eq_false, if_false, hscope, h.load, hprepareBook, Exec.lift, hcontext,
    hidentity, hactor, hprepared.request_eq, hkey, hloaded]
  by_cases hlarge : maxBytes < (identityJson (book.identity store) expectedRevision
      book.spec.definition request).print.length
  · simp [Store.encode, rejectIf, hlarge]
  · have hne : c.intent ≠ (identityJson (book.identity store) expectedRevision
        book.spec.definition request).print := by
      rw [h.intent_eq hc]
      intro heq
      obtain ⟨-, hrevision, -, hcommand, hrecord, hinputs⟩ := eq_of_identityJson_eq
        (Json.print_injective (exact_identityJson _ _ _ _) (exact_identityJson _ _ _ _) heq)
      exact hother ⟨hrevision.symm, hcommand.symm, hrecord.symm, hinputs.symm⟩
    simp [Store.encode, rejectIf, hlarge, hne]

theorem mem_log_of_commits {appId : AppId} {history : List (StoreCall × StoreReply)}
    (h : Serial store start appId history tables book) {call : ExecuteCall}
    {receipt : CommitReceipt} (hcommit : (.execute call, receipt) ∈ commits history) :
    ∃ c ∈ book.log, c.caller = call.caller ∧ c.request = call.request ∧
      c.expectedRevision = call.expectedRevision ∧
      call.answers.opening.resolve call.caller .write = .ok c.batch.prepared.context ∧
      receipt = c.receipt := by
  obtain ⟨i, hi, hget⟩ := List.getElem_of_mem hcommit
  obtain ⟨hlength, hall⟩ := List.forall₂_iff_get.1 h.commits
  have hi' : i < book.log.length := hlength ▸ hi
  obtain ⟨found, hfound, hcaller, hrequest, hexpected, hopening, hreceipt⟩ := hall i hi hi'
  simp only [List.get_eq_getElem, hget, StoreCall.execute.injEq] at hfound hreceipt
  subst hfound
  exact ⟨book.log[i], List.getElem_mem hi', hcaller, hrequest, hexpected, hopening, hreceipt⟩

end Replay

/-- Replay and recovery stay available for ever. Once an execution has committed, in every later
state and for every caller with the same authority: the same request at the same expected revision
returns the same receipt as a replay, the recovery of its key does so too, and any other request
under its key that is prepared is refused as a conflict of intents, or as too large when its own
intent is; none of these changes anything. -/
theorem replay_for_ever (store : Store) (start : Tables) (appId : AppId)
    (hwithout : start.Without appId) (calls : List StoreCall)
    (hcalls : ∀ call ∈ calls, call.Allowed appId) (history : List (StoreCall × StoreReply))
    (tables : Tables) (hrun : runCalls store.step start calls = (history, tables))
    (call : ExecuteCall) (receipt : CommitReceipt)
    (hcommit : (.execute call, receipt) ∈ commits history) (context : TrustedContext)
    (hcontext : call.answers.opening.resolve call.caller .write = .ok context)
    (caller : Caller) (hscope : caller.scope = call.caller.scope) (answers : Answers)
    (hanswers : answers.Agree caller context) :
    (∀ fault, store.executeAt tables
        ⟨answers, caller, call.expectedRevision, call.request, fault, .up .applied⟩ =
      (.ok { receipt with replayed := true }, tables)) ∧
    (∀ commit, store.receipt tables ⟨answers, caller, call.request.idempotencyKey, .up commit⟩ =
      .ok (some { receipt with replayed := true })) ∧
    ∀ snapshot request expectedRevision prepared fault commit,
      store.snapshot tables caller.scope = .ok snapshot →
      request.idempotencyKey = call.request.idempotencyKey →
      ¬ (expectedRevision = call.expectedRevision ∧ request.commandId = call.request.commandId ∧
        request.recordId = call.request.recordId ∧ request.inputs = call.request.inputs) →
      prepareCommand answers.preparing caller snapshot.spec snapshot.facts request = .ok prepared →
      store.executeAt tables ⟨answers, caller, expectedRevision, request, fault, .up commit⟩ =
        (.error (.fail (if maxBytes < (identityJson snapshot.specIdentity expectedRevision
          snapshot.spec request).print.length then .payloadLimit else .intentConflict)), tables) := by
  have hreached : Reached store start appId history tables := by
    have hreached : Reached store start appId (runCalls store.step start calls).1
        (runCalls store.step start calls).2 := reached_run hwithout hcalls
    rwa [hrun] at hreached
  rcases hreached with ⟨-, hnil⟩ | ⟨book, hserial⟩
  · rw [hnil] at hcommit
    cases hcommit
  · obtain ⟨c, hc, hcaller, hrequest, hexpected, hopening, rfl⟩ :=
      mem_log_of_commits hserial hcommit
    obtain rfl := Except.ok.inj (hcontext.symm.trans hopening)
    have hj := hserial.journal
    obtain ⟨before, hlawful⟩ := hj.lawful.of_mem hc
    have hbookScope : caller.scope = book.scope := by
      rw [hscope, ← hcaller]
      exact hlawful.scope
    have htenant : caller.scope.tenantId = store.tenantId := hbookScope ▸ hj.tenant
    obtain ⟨prepared, hactor, hopened, hreplays⟩ := hj.replays hc hbookScope hanswers
    rw [← hrequest, ← hexpected]
    refine ⟨fun fault => ?_, fun commit => ?_, ?_⟩
    · exact executeAt_eq_ok.2 ⟨htenant, rfl, executeIn_eq_ok.2
        ⟨_, prepared, c.intent, hopened, .inl ⟨c.receipt, hreplays, rfl, rfl⟩⟩⟩
    · have hkey : boundedKey c.request.idempotencyKey = true :=
        (prepareCommand_eq_ok_iff.1 hopened.prepares).requested.key
      have hloaded := hj.loadReceipt hc
      rw [← hbookScope, ← hactor] at hloaded
      exact receipt_eq_some.2 ⟨htenant, hkey, by simp, _, prepared, c.intent, c.receipt, _, hopened,
        hreplays, hloaded, rfl⟩
    · intro snapshot request expectedRevision other fault commit hsnapshot hkey hother hprepare
      obtain rfl : book.snapshot store = snapshot := by
        rw [Store.snapshot, hbookScope, hj.load] at hsnapshot
        obtain ⟨-, -, hload⟩ := bind_eq_ok.1 hsnapshot
        exact Except.ok.inj hload
      have hconflict := hj.conflicts hc hbookScope hanswers.opening hanswers.preparing hprepare hkey
        hother fault
      simp only [Store.executeAt, Store.checkScope, rejectIf, htenant, ne_eq, not_true_eq_false,
        if_false, hconflict]
      rfl

/-- The closed ticket is in a terminal state, and its closing is still replayed. -/
theorem replay_for_ever_ticket : ∃ history tables receipt,
    runCalls digestStore.step emptyTables ticketCalls = (history, tables) ∧
      (.execute closeCall, receipt) ∈ commits history ∧
      digestStore.executeAt tables closeCall = (.ok { receipt with replayed := true }, tables) := by
  obtain ⟨first, tables, receipt, after, hfirst, hclose, hreplayed⟩ := closeCall_executed
  have hrun := run_ticketCalls hfirst hclose
  have hcommit : (.execute closeCall, receipt) ∈ commits
      [(.bootstrap ⟨ticketSpec, ticketFacts, .up .applied⟩, .provisioned (.ok first)),
        (.execute closeCall, .executed (.ok receipt))] := by
    rw [commits_ticketCalls hreplayed]
    exact List.mem_singleton_self _
  obtain ⟨context, hcontext⟩ := exists_eq_ok
    (show ((ticketHost ticketActor).resolve ticketCaller .write).toBool = true by decide +kernel)
  exact ⟨_, after, receipt, hrun, hcommit, (replay_for_ever digestStore emptyTables
    ticketScope.appId (without_emptyTables _) ticketCalls allowed_ticketCalls _ after hrun
    closeCall receipt hcommit context hcontext ticketCaller rfl ticketAnswers
    ⟨hcontext, hcontext, hcontext⟩).1 none⟩

end Evobase
