import Evobase.Store.Intent
import Evobase.Store.Journal

/-!
# Runs of a store

A run of a store is any sequence of provisionings, executions and recoveries of one app,
each of them one transaction; a failure may be injected into any execution, and the
database may fail under any call. After every run the tables hold the book of the app
whose log are the executions that have committed, in the order of the run
(`store_serializable`).

`Explained` is the whole of what a reader of the tables may conclude: the log starts from the
provisioned facts, every entry is lawful for the facts before it, and receipts, events and audit
rows are those of the log. A call that is idle has left the tables as they were.
-/

namespace Evobase

open Foundation

inductive StoreCall where
  | execute (call : ExecuteCall)
  | receipt (call : ReceiptCall)
  | bootstrap (call : BootstrapCall)

inductive StoreReply where
  | executed (result : Exec StoreError CommitReceipt)
  | recovered (result : Exec StoreError (Option CommitReceipt))
  | provisioned (result : Exec StoreError Snapshot)

def StoreCall.scope : StoreCall → Scope
  | .execute call => call.caller.scope
  | .receipt call => call.caller.scope
  | .bootstrap call => call.facts.scope

def StoreCall.backend : StoreCall → Backend
  | .execute call => call.backend
  | .receipt call => call.backend
  | .bootstrap call => call.backend

/-- The call is about the app, and a commit that reports an error has not been applied. -/
def StoreCall.Allowed (appId : AppId) (call : StoreCall) : Prop :=
  call.scope.appId = appId ∧ call.backend ≠ .up .unreported

def Store.step (store : Store) (tables : Tables) : StoreCall → StoreReply × Tables
  | .execute call =>
      let (result, after) := store.executeAt tables call
      (.executed result, after)
  | .receipt call => (.recovered (store.receipt tables call), tables)
  | .bootstrap call =>
      let (result, after) := store.bootstrap tables call
      (.provisioned result, after)

def StoreReply.commit? : StoreReply → Option CommitReceipt
  | .executed (.ok receipt) => if receipt.replayed then none else some receipt
  | _ => none

def commits (history : List (StoreCall × StoreReply)) : List (StoreCall × CommitReceipt) :=
  history.filterMap fun entry => entry.2.commit?.map fun receipt => (entry.1, receipt)

/-- The commit is the commit of the execution, under the authority that it has resolved. -/
def Commit.Of (entry : StoreCall × CommitReceipt) (c : Commit) : Prop :=
  ∃ call, entry.1 = .execute call ∧ c.caller = call.caller ∧ c.request = call.request ∧
    c.expectedRevision = call.expectedRevision ∧
    call.answers.opening.resolve call.caller .write = .ok c.batch.prepared.context ∧
    entry.2 = c.receipt

/-- The app has been provisioned with the definition and the facts. -/
def Provisioned (history : List (StoreCall × StoreReply)) (spec : CheckedAppSpec)
    (initial : CheckedRecords) : Prop :=
  ∃ call snapshot, (.bootstrap call, .provisioned (.ok snapshot)) ∈ history ∧ call.spec = spec ∧
    validateRecords spec.definition call.facts.scope call.facts.toRaw = .ok initial

/-- What the tables hold of an app after a history. -/
structure Serial (store : Store) (start : Tables) (appId : AppId)
    (history : List (StoreCall × StoreReply)) (tables : Tables) (book : Book) : Prop where
  journal : Journal store start book tables
  appId : book.scope.appId = appId
  provisioned : Provisioned history book.spec book.initial
  commits : List.Forall₂ Commit.Of (commits history) book.log

/-- The tables after a history: nothing of the app, or its book. -/
def Reached (store : Store) (start : Tables) (appId : AppId)
    (history : List (StoreCall × StoreReply)) (tables : Tables) : Prop :=
  (tables = start ∧ commits history = []) ∨ ∃ book, Serial store start appId history tables book

section Step

variable {store : Store} {start tables : Tables} {appId : AppId} {book : Book}
  {history : List (StoreCall × StoreReply)}

theorem commits_append_of_none {call : StoreCall} {reply : StoreReply} (h : reply.commit? = none) :
    commits (history ++ [(call, reply)]) = commits history := by
  simp [commits, h]

theorem commits_append_of_some {call : StoreCall} {reply : StoreReply} {receipt : CommitReceipt}
    (h : reply.commit? = some receipt) :
    commits (history ++ [(call, reply)]) = commits history ++ [(call, receipt)] := by
  simp [commits, h]

theorem Provisioned.append {spec : CheckedAppSpec} {initial : CheckedRecords}
    (h : Provisioned history spec initial) (entry : StoreCall × StoreReply) :
    Provisioned (history ++ [entry]) spec initial := by
  obtain ⟨call, snapshot, hmem, hcall⟩ := h
  exact ⟨call, snapshot, List.mem_append_left _ hmem, hcall⟩

theorem Reached.same (h : Reached store start appId history tables) {call : StoreCall}
    {reply : StoreReply} (hreply : reply.commit? = none) :
    Reached store start appId (history ++ [(call, reply)]) tables := by
  rw [Reached, commits_append_of_none hreply]
  rcases h with hstart | ⟨book, hserial⟩
  · exact .inl hstart
  · refine .inr ⟨book, hserial.journal, hserial.appId, hserial.provisioned.append _, ?_⟩
    rw [commits_append_of_none hreply]
    exact hserial.commits

theorem load_of_without (h : start.Without appId) {scope : Scope} (hscope : scope.appId = appId) :
    store.load start scope = .error (.fail .appNotFound) := by
  have hnone : Store.selectApplication start scope.appId = none := by
    rw [Store.selectApplication, List.find?_eq_none.2 fun row hrow => by
      simpa [hscope] using h.applications row hrow]
    rfl
  rw [Store.load, hnone]
  rfl

theorem Serial.scope_eq (h : Serial store start appId history tables book) {scope : Scope}
    (htenant : scope.tenantId = store.tenantId) (happ : scope.appId = appId) :
    scope = book.scope :=
  Scope.ext_parts (htenant.trans h.journal.tenant.symm) (happ.trans h.appId.symm)

/-- What an execution that returns has done to an app: it has read the book, and it has replayed
a receipt or committed. -/
theorem Reached.of_execute (h : Reached store start appId history tables) {call : ExecuteCall}
    (happ : call.caller.scope.appId = appId) (hwithout : start.Without appId)
    {receipt : CommitReceipt} {after : Tables}
    (hexecute : store.executeAt tables call = (.ok receipt, after)) :
    ∃ book prepared intent, Serial store start appId history tables book ∧
      call.caller.scope = book.scope ∧
      Opened store tables call.answers call.caller call.request call.expectedRevision
        (book.snapshot store) prepared intent ∧
      ((∃ stored, Replays store tables call.answers call.caller call.request call.expectedRevision
          (book.snapshot store) prepared intent stored ∧
          receipt = { stored with replayed := true } ∧ after = tables) ∨
        ∃ c next factsJson applications,
          CommitsTo store tables call.answers call.caller call.request call.expectedRevision
            (book.snapshot store) prepared intent c next factsJson applications ∧
          receipt = c.receipt ∧ after = tables.commit c applications) := by
  obtain ⟨htenant, -, hin⟩ := executeAt_eq_ok.1 hexecute
  obtain ⟨snapshot, prepared, intent, hopened, houtcome⟩ := executeIn_eq_ok.1 hin
  rcases h with ⟨rfl, -⟩ | ⟨book, hserial⟩
  · have hload := hopened.loaded
    rw [load_of_without hwithout happ] at hload
    cases hload
  · have hscope := hserial.scope_eq htenant happ
    obtain rfl : book.snapshot store = snapshot := by
      have hload := hopened.loaded
      rw [hscope, hserial.journal.load] at hload
      exact Except.ok.inj hload
    exact ⟨book, prepared, intent, hserial, hscope, hopened, houtcome.imp_right And.right⟩

theorem Reached.execute (h : Reached store start appId history tables) {call : ExecuteCall}
    (happ : call.caller.scope.appId = appId) (hbackend : call.backend ≠ .up .unreported)
    (hwithout : start.Without appId) :
    Reached store start appId (history ++ [(.execute call, (store.step tables (.execute call)).1)])
      (store.step tables (.execute call)).2 := by
  rcases hexecute : store.executeAt tables call with ⟨halt | receipt, after⟩
  · obtain rfl := executeAt_error hbackend hexecute
    simp only [Store.step, hexecute]
    exact h.same rfl
  · obtain ⟨book, prepared, intent, hserial, hscope, hopened, houtcome⟩ :=
      h.of_execute happ hwithout hexecute
    simp only [Store.step, hexecute]
    rcases houtcome with ⟨stored, -, rfl, rfl⟩ | ⟨c, next, factsJson, applications, hcommit, rfl, rfl⟩
    · exact h.same rfl
    · obtain ⟨hcaller, hrequest, -, -⟩ := hcommit.same
      refine .inr ⟨book.append c next, hserial.journal.commit hopened hscope hcommit, hserial.appId,
        hserial.provisioned.append _, ?_⟩
      rw [commits_append_of_some (show (StoreReply.executed (.ok c.receipt)).commit? =
        some c.receipt from rfl)]
      have hopening := hopened.opening
      rw [← (batch_of_decideCommand hcommit.decided).1] at hopening
      exact List.rel_append hserial.commits (.cons ⟨call, rfl, hcaller, hrequest,
        hcommit.expectedRevision_eq, hopening, rfl⟩ .nil)

theorem Reached.bootstrap (h : Reached store start appId history tables) {call : BootstrapCall}
    (happ : call.facts.scope.appId = appId) (hbackend : call.backend ≠ .up .unreported)
    (hwithout : start.Without appId) :
    Reached store start appId
      (history ++ [(.bootstrap call, (store.step tables (.bootstrap call)).1)])
      (store.step tables (.bootstrap call)).2 := by
  rcases hbootstrap : store.bootstrap tables call with ⟨halt | snapshot, after⟩
  · obtain rfl := Store.bootstrap_error hbackend hbootstrap
    simp only [Store.step, hbootstrap]
    exact h.same rfl
  · obtain ⟨htenant, checked, hvalidate, hin⟩ := Store.of_bootstrap hbootstrap
    have hspecApp : call.spec.definition.appId = appId := by
      rw [← happ]
      exact ((validateRecords_eq_ok_iff (wellFormed call.spec)).1 hvalidate).1.app.symm
    simp only [Store.step, hbootstrap]
    rcases Store.of_bootstrapIn hin with rfl | ⟨hnone, rfl⟩
    · exact h.same rfl
    · rcases h with ⟨rfl, hnil⟩ | ⟨book, hserial⟩
      · refine .inr ⟨.provisioned call.spec checked,
          Journal.provision htenant hvalidate (happ ▸ hwithout), ?_, ?_, ?_⟩
        · have hscope : checked.scope = call.facts.scope := by
            rw [((validateRecords_eq_ok_iff (wellFormed call.spec)).1 hvalidate).2]
          show checked.scope.appId = appId
          rw [hscope, happ]
        · exact ⟨call, snapshot, by simp, rfl, hvalidate⟩
        · rw [commits_append_of_none rfl, hnil]
          exact .nil
      · refine absurd ?_ (hnone (book.application store) ?_)
        · exact hserial.appId.trans hspecApp.symm
        · rw [hserial.journal.applications]
          exact List.mem_append_right _ List.mem_cons_self

theorem Reached.step (h : Reached store start appId history tables) (hwithout : start.Without appId)
    {call : StoreCall} (hcall : call.Allowed appId) :
    Reached store start appId (history ++ [(call, (store.step tables call).1)])
      (store.step tables call).2 := by
  obtain ⟨happ, hbackend⟩ := hcall
  cases call with
  | execute call => exact h.execute happ hbackend hwithout
  | receipt call => exact h.same rfl
  | bootstrap call => exact h.bootstrap happ hbackend hwithout

theorem reached_run (hwithout : start.Without appId) {calls : List StoreCall}
    (hcalls : ∀ call ∈ calls, call.Allowed appId) :
    Reached store start appId (runCalls store.step start calls).1
      (runCalls store.step start calls).2 := by
  have hstart : Reached store start appId [] start := .inl ⟨rfl, rfl⟩
  simpa using run_induction (fun _ _ _ hcall h => h.step hwithout hcall) hstart hcalls

end Step

/-- The events are the declared events of the command of the commit, with the values of the
record of its request as the commit has left it. -/
def DeclaredEvents (spec : RawAppSpec) (initial : List RawRecord) (before : List Commit)
    (c : Commit) : Prop :=
  ∃ command machine rows record, spec.command c.request.commandId = some command ∧
    spec.machine command.stateMachineId = some machine ∧
    recordsAfter initial (before ++ [c]) = some rows ∧ record ∈ rows ∧
    record.tableId = machine.tableId ∧ record.id = c.request.recordId ∧
    List.Forall₂ (fun intent event => event.eventId = intent.eventId ∧
      ∀ field, event.payload.get? field =
        if field ∈ intent.fields.keys then record.values.get? field else none)
      command.events c.batch.events

/-- The rows of an app are explained by its commits, one commit after another: each commit is what
its request decides at the facts before it, and its writes lead to the facts after it. -/
structure Explained (store : Store) (appId : AppId) (spec : CheckedAppSpec)
    (initial : CheckedRecords) (log : List Commit) (snapshot : Snapshot) (tables : Tables) :
    Prop where
  loaded : store.snapshot tables initial.scope = .ok snapshot
  definition : snapshot.spec = spec.definition
  revision : snapshot.revision.val = 1 + log.length
  revisions : log.map (·.sqlRevision.val) = (List.range log.length).map fun i : Nat => (i : Int) + 2
  audits : tables.audits.filter (fun row => row.appId = appId) = log.map Commit.auditRow
  receipts : tables.receipts.filter (fun row => row.appId = appId) = log.map Commit.receiptRow
  receiptKeys : (log.map fun c => c.receiptRow.key).Nodup
  events : tables.events.filter (fun row => row.appId = appId) = log.flatMap Commit.eventRows
  eventsAt : ∀ c ∈ log, tables.events.filter (fun row => row.appId = appId ∧
    row.revision = c.sqlRevision) = c.eventRows
  lawful : EachEntry (Commit.Lawful store spec initial) log
  declared : EachEntry (DeclaredEvents spec.definition initial.records) log
  facts : recordsAfter initial.records log = some snapshot.facts.records

/-- The reply is an error, a replay, or the reply to a recovery. -/
def StoreReply.idle : StoreReply → Bool
  | .executed (.ok receipt) => receipt.replayed
  | .executed (.error _) => true
  | .recovered _ => true
  | .provisioned (.ok _) => false
  | .provisioned (.error _) => true

section Explained

variable {store : Store} {start tables : Tables} {appId : AppId} {book : Book}
  {history : List (StoreCall × StoreReply)}

theorem filter_append_eq_right {Row : Type} {p : Row → Bool} {rows more : List Row}
    (hrows : ∀ row ∈ rows, p row = false) (hmore : ∀ row ∈ more, p row = true) :
    (rows ++ more).filter p = more := by
  rw [List.filter_append, List.filter_eq_nil_iff.2 fun row hrow => by simp [hrows row hrow],
    List.nil_append, List.filter_eq_self.2 hmore]

theorem Serial.appId_eq (h : Serial store start appId history tables book) {c : Commit}
    (hc : c ∈ book.log) : c.appId = appId := by
  obtain ⟨before, hlawful⟩ := h.journal.lawful.of_mem hc
  rw [Commit.appId, hlawful.scope]
  exact h.appId

theorem Commit.Lawful.declared {spec : CheckedAppSpec} {initial : CheckedRecords}
    {before : List Commit} {c : Commit} (h : c.Lawful store spec initial before) :
    DeclaredEvents spec.definition initial.records before c := by
  obtain ⟨rows, hrows, ⟨host, hprepared⟩, old, new, hcorrect⟩ := h.prepared
  obtain ⟨out, hvalidate⟩ := hprepared.valid
  have hkeys : (rows.map RawRecord.key).Nodup :=
    ((validateRecords_eq_ok_iff (wellFormed spec)).1 hvalidate).1.keys
  obtain ⟨hmem, htable, hid⟩ := CheckedRecords.find_some hcorrect.found
  have hkey : new.key = old.key := key_eq_key_iff.2 hcorrect.identity.2
  have hnew : new.key ∈ rows.map RawRecord.key := hkey ▸ List.mem_map_of_mem hmem
  have happly : applyWrites rows c.batch.writes = some (setRow new rows) := by
    rw [hcorrect.writes, applyWrites, List.foldlM_cons, replaceRow_eq_some hkeys hnew]
    rfl
  refine ⟨_, _, setRow new rows, new, hprepared.hasCommand, hprepared.hasMachine, ?_,
    new_mem_setRow hnew, hcorrect.identity.2.1.trans htable, hcorrect.identity.2.2.trans hid,
    hcorrect.events⟩
  rw [recordsAfter_append hrows, happly]

/-- The events of one commit among the events of commits with different revisions. -/
theorem filter_eventRows {log : List Commit}
    (hrevisions : (log.map (·.sqlRevision)).Nodup) {c : Commit} (hc : c ∈ log) :
    (log.flatMap Commit.eventRows).filter (fun row => row.revision = c.sqlRevision) =
      c.eventRows := by
  have hown : ∀ d : Commit, ∀ row ∈ d.eventRows, row.revision = d.sqlRevision := by
    intro d row hrow
    obtain ⟨event, -, rfl⟩ := List.mem_map.1 hrow
    rfl
  induction log with
  | nil => cases hc
  | cons d rest ih =>
      obtain ⟨hfresh, hrest⟩ := List.nodup_cons.1 hrevisions
      rw [List.flatMap_cons, List.filter_append]
      rcases List.mem_cons.1 hc with rfl | hc
      · have hhead : c.eventRows.filter (fun row => row.revision = c.sqlRevision) = c.eventRows :=
          List.filter_eq_self.2 fun row hrow => by simpa using hown c row hrow
        have htail : (rest.flatMap Commit.eventRows).filter
            (fun row => row.revision = c.sqlRevision) = [] := by
          rw [List.filter_eq_nil_iff]
          intro row hrow
          obtain ⟨d, hd, hrow⟩ := List.mem_flatMap.1 hrow
          rw [hown d row hrow, decide_eq_true_eq]
          exact fun heq => hfresh (List.mem_map.2 ⟨d, hd, heq⟩)
        rw [hhead, htail, List.append_nil]
      · have hhead : d.eventRows.filter (fun row => row.revision = c.sqlRevision) = [] := by
          rw [List.filter_eq_nil_iff]
          intro row hrow
          rw [hown d row hrow, decide_eq_true_eq]
          exact fun heq => hfresh (List.mem_map.2 ⟨c, hc, heq.symm⟩)
        rw [hhead, List.nil_append, ih hrest hc]

/-- The rows of an app are explained by its book. -/
theorem Serial.explained (h : Serial store start appId history tables book) :
    Explained store appId book.spec book.initial book.log (book.snapshot store) tables := by
  have hj := h.journal
  have hwithout := hj.without
  rw [h.appId] at hwithout
  have hnumber : EachEntry (fun (before : List Commit) (c : Commit) =>
      c.sqlRevision.val = (before.length : Int) + (2 : Nat)) book.log := by
    intro before c after heq
    exact c.sameRevision.trans (hj.lawful before c after heq).revision
  have hrevisions : (book.log.map (·.sqlRevision)).Nodup := by
    refine List.Nodup.of_map (fun revision : I64 => revision.val) ?_
    rw [List.map_map, show ((fun revision : I64 => revision.val) ∘ fun c : Commit =>
      c.sqlRevision) = fun c => c.sqlRevision.val from rfl, hnumber.map_eq_range]
    refine List.Nodup.map (fun a b hab => ?_) List.nodup_range
    simpa using hab
  have hevents : tables.events.filter (fun row => row.appId = appId) =
      book.log.flatMap Commit.eventRows := by
    rw [hj.events]
    refine filter_append_eq_right (fun row hrow => by simpa using hwithout.events row hrow) ?_
    intro row hrow
    obtain ⟨c, hc, hrow⟩ := List.mem_flatMap.1 hrow
    obtain ⟨event, -, rfl⟩ := List.mem_map.1 hrow
    exact decide_eq_true (h.appId_eq hc)
  exact {
    loaded := by
      rw [Store.snapshot, Store.checkScope, show book.initial.scope = book.scope from rfl,
        rejectIf_bind_of_not (by rw [not_not]; exact hj.tenant), hj.load]
    definition := rfl
    revision := by
      rw [add_comm]
      exact hj.revision
    revisions := hnumber.map_eq_range
    audits := by
      rw [hj.audits]
      refine filter_append_eq_right (fun row hrow => by simpa using hwithout.audits row hrow) ?_
      intro row hrow
      obtain ⟨c, hc, rfl⟩ := List.mem_map.1 hrow
      exact decide_eq_true (h.appId_eq hc)
    receipts := by
      rw [hj.receipts]
      refine filter_append_eq_right (fun row hrow => by simpa using hwithout.receipts row hrow) ?_
      intro row hrow
      obtain ⟨c, hc, rfl⟩ := List.mem_map.1 hrow
      exact decide_eq_true (h.appId_eq hc)
    receiptKeys := hj.keys
    events := hevents
    eventsAt := fun c hc => by
      rw [← filter_eventRows hrevisions hc, ← hevents, List.filter_filter]
      simp only [Bool.decide_and, Bool.and_comm]
    lawful := hj.lawful
    declared := fun before c after heq => (hj.lawful before c after heq).declared
    facts := hj.records }

theorem Reached.idle (h : Reached store start appId history tables) (hwithout : start.Without appId)
    {call : StoreCall} (hcall : call.Allowed appId)
    (hidle : (store.step tables call).1.idle = true) : (store.step tables call).2 = tables := by
  obtain ⟨happ, hbackend⟩ := hcall
  cases call with
  | receipt call => rfl
  | execute call =>
      rcases hexecute : store.executeAt tables call with ⟨halt | receipt, after⟩
      · simpa [Store.step, hexecute] using executeAt_error hbackend hexecute
      · obtain ⟨book, prepared, intent, -, -, -, houtcome⟩ := h.of_execute happ hwithout hexecute
        rcases houtcome with ⟨stored, -, -, hsame⟩ | ⟨c, next, factsJson, applications, -, rfl, -⟩
        · simpa [Store.step, hexecute] using hsame
        · simp [Store.step, hexecute, StoreReply.idle, Commit.receipt, commitReceipt] at hidle
  | bootstrap call =>
      rcases hbootstrap : store.bootstrap tables call with ⟨halt | snapshot, after⟩
      · simpa [Store.step, hbootstrap] using Store.bootstrap_error hbackend hbootstrap
      · simp [Store.step, hbootstrap, StoreReply.idle] at hidle

end Explained

/-- Runs of a store are serializable and commit every execution once. After any sequence of
calls on an app the tables hold nothing of the app, or the app has been provisioned and its rows
are explained by the executions that have committed, in their order. A call that reports an
error, replays a receipt or recovers one changes nothing. -/
theorem store_serializable (store : Store) (start : Tables) (appId : AppId)
    (hwithout : start.Without appId) (calls : List StoreCall)
    (hcalls : ∀ call ∈ calls, call.Allowed appId) (history : List (StoreCall × StoreReply))
    (tables : Tables) (hrun : runCalls store.step start calls = (history, tables)) :
    (tables = start ∧ commits history = [] ∨
      ∃ spec initial log snapshot, Provisioned history spec initial ∧
        List.Forall₂ Commit.Of (commits history) log ∧
        Explained store appId spec initial log snapshot tables) ∧
    ∀ call : StoreCall, call.Allowed appId → (store.step tables call).1.idle = true →
      (store.step tables call).2 = tables := by
  have hreached : Reached store start appId history tables := by
    have hreached : Reached store start appId (runCalls store.step start calls).1
        (runCalls store.step start calls).2 := reached_run hwithout hcalls
    rwa [hrun] at hreached
  refine ⟨?_, fun call hcall hidle => hreached.idle hwithout hcall hidle⟩
  rcases hreached with hstart | ⟨book, hserial⟩
  · exact .inl hstart
  · exact .inr ⟨book.spec, book.initial, book.log, book.snapshot store, hserial.provisioned,
      hserial.commits, hserial.explained⟩

def emptyTables : Tables := ⟨[], [], [], [], []⟩

theorem without_emptyTables (appId : AppId) : emptyTables.Without appId := by
  constructor <;> intro row hrow <;> cases hrow

def ticketAnswers : Answers :=
  ⟨ticketHost ticketActor, ticketHost ticketActor, ticketHost ticketActor⟩

def closeCall : ExecuteCall :=
  ⟨ticketAnswers, ticketCaller, U64.one, closeTicket, none, .up .applied⟩

def ticketCalls : List StoreCall :=
  [.bootstrap ⟨ticketSpec, ticketFacts, .up .applied⟩, .execute closeCall]

theorem allowed_ticketCalls : ∀ call ∈ ticketCalls, call.Allowed ticketScope.appId := by
  intro call hcall
  simp only [ticketCalls, List.mem_cons, List.not_mem_nil, or_false] at hcall
  rcases hcall with rfl | rfl
  · exact ⟨rfl, by decide⟩
  · exact ⟨rfl, by decide⟩

theorem step_bootstrap {store : Store} {tables after : Tables} {call : BootstrapCall}
    {result : Exec StoreError Snapshot} (h : store.bootstrap tables call = (result, after)) :
    store.step tables (.bootstrap call) = (.provisioned result, after) := by
  rw [Store.step, h]

theorem step_execute {store : Store} {tables after : Tables} {call : ExecuteCall}
    {result : Exec StoreError CommitReceipt} (h : store.executeAt tables call = (result, after)) :
    store.step tables (.execute call) = (.executed result, after) := by
  rw [Store.step, h]

theorem executeAt_of_commit {store : Store} {tables : Tables} {call : ExecuteCall}
    (h : (store.step tables (.execute call)).1.commit?.isSome = true) : ∃ receipt after,
    store.executeAt tables call = (.ok receipt, after) ∧ receipt.replayed = false := by
  rcases hexecute : store.executeAt tables call with ⟨result, after⟩
  rw [step_execute hexecute] at h
  cases result with
  | error halt => cases h
  | ok receipt =>
      refine ⟨receipt, after, rfl, ?_⟩
      rw [← Bool.not_eq_true]
      intro hreplayed
      rw [StoreReply.commit?, if_pos hreplayed] at h
      cases h

theorem eq_ok_of_fst {α β ε : Type} {x : Except ε α × β} (h : x.1.toBool = true) :
    ∃ a, x = (.ok a, x.2) := by
  obtain ⟨result, rest⟩ := x
  obtain ⟨a, rfl⟩ := exists_eq_ok h
  exact ⟨a, rfl⟩

theorem ticketFacts_provisioned : (digestStore.bootstrap emptyTables
    ⟨ticketSpec, ticketFacts, .up .applied⟩).1.toBool = true := by
  decide +kernel

theorem closeCall_commits : (digestStore.step (digestStore.bootstrap emptyTables
    ⟨ticketSpec, ticketFacts, .up .applied⟩).2 (.execute closeCall)).1.commit?.isSome = true := by
  decide +kernel

theorem closeCall_executed : ∃ first tables receipt after,
    digestStore.bootstrap emptyTables ⟨ticketSpec, ticketFacts, .up .applied⟩ =
        (.ok first, tables) ∧
      digestStore.executeAt tables closeCall = (.ok receipt, after) ∧ receipt.replayed = false := by
  obtain ⟨first, hfirst⟩ := eq_ok_of_fst ticketFacts_provisioned
  obtain ⟨receipt, after, hclose, hreplayed⟩ := executeAt_of_commit closeCall_commits
  exact ⟨first, _, receipt, after, hfirst, hclose, hreplayed⟩

theorem run_ticketCalls {first : Snapshot} {tables after : Tables} {receipt : CommitReceipt}
    (hfirst : digestStore.bootstrap emptyTables ⟨ticketSpec, ticketFacts, .up .applied⟩ =
      (.ok first, tables))
    (hclose : digestStore.executeAt tables closeCall = (.ok receipt, after)) :
    runCalls digestStore.step emptyTables ticketCalls =
      ([(.bootstrap ⟨ticketSpec, ticketFacts, .up .applied⟩, .provisioned (.ok first)),
        (.execute closeCall, .executed (.ok receipt))], after) := by
  rw [ticketCalls, runCalls_cons, step_bootstrap hfirst, runCalls_cons, step_execute hclose,
    runCalls_nil]

theorem commits_ticketCalls {first : Snapshot} {receipt : CommitReceipt}
    (hreplayed : receipt.replayed = false) :
    commits [(.bootstrap ⟨ticketSpec, ticketFacts, .up .applied⟩, .provisioned (.ok first)),
      (.execute closeCall, .executed (.ok receipt))] = [(.execute closeCall, receipt)] := by
  simp [commits, StoreReply.commit?, hreplayed]

theorem store_serializable_ticket : ∃ history tables spec initial log snapshot,
    runCalls digestStore.step emptyTables ticketCalls = (history, tables) ∧
      Explained digestStore ticketScope.appId spec initial log snapshot tables ∧
      snapshot.revision.val = 2 := by
  obtain ⟨first, tables, receipt, after, hfirst, hclose, hreplayed⟩ := closeCall_executed
  have hrun := run_ticketCalls hfirst hclose
  have hcommits : commits [(.bootstrap ⟨ticketSpec, ticketFacts, .up .applied⟩,
      .provisioned (.ok first)), (.execute closeCall, .executed (.ok receipt))] =
        [(.execute closeCall, receipt)] :=
    commits_ticketCalls hreplayed
  rcases (store_serializable digestStore emptyTables ticketScope.appId
    (without_emptyTables _) ticketCalls allowed_ticketCalls _ after hrun).1 with ⟨-, hnil⟩ |
    ⟨spec, initial, log, snapshot, -, hlog, hexplained⟩
  · rw [hnil] at hcommits
    cases hcommits
  · refine ⟨_, after, spec, initial, log, snapshot, hrun, hexplained, ?_⟩
    rw [hexplained.revision, ← hlog.length_eq, hcommits]
    rfl

end Evobase
