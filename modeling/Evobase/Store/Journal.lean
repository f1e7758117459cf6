import Evobase.Foundation.Run
import Evobase.Store.Commit

/-!
# The journal of an app

What a store holds of an app is determined by its definition, the facts it was provisioned
with and the commits since then (`Book`). The tables hold the book of an app when they are
the tables from before it was provisioned, with the rows of the book added to them
(`Journal`). A store reads its book back (`Journal.load`), and a commit writes the book with
that commit at the end of its log (`Journal.commit`).

`Commit.Lawful` is what an entry of the log has been checked for, against the facts before it: it
was prepared and decided on these facts, and its writes lead to the next ones. The tables hold
nothing of the app but what the book writes.
-/

namespace Evobase

open Foundation

/-- An app from its provisioning on. -/
structure Book where
  spec : CheckedAppSpec
  initial : CheckedRecords
  log : List Commit
  current : CheckedRecords
  revision : U64
  sqlRevision : I64
  sameRevision : sqlRevision.val = revision.val

def recordsAfter (initial : List RawRecord) (log : List Commit) : Option (List RawRecord) :=
  log.foldlM (fun rows c => applyWrites rows c.batch.writes) initial

def CheckedAppSpec.identity (spec : CheckedAppSpec) (store : Store) : String :=
  store.specIdentity spec.definition.toJson.print

theorem recordsAfter_append {initial rows : List RawRecord} {log : List Commit} {c : Commit}
    (h : recordsAfter initial log = some rows) :
    recordsAfter initial (log ++ [c]) = applyWrites rows c.batch.writes := by
  rw [recordsAfter] at h
  simp [recordsAfter, List.foldlM_append, h]

namespace Book

variable (book : Book)

def scope : Scope := book.initial.scope

def specJson : List UInt8 := book.spec.definition.toJson.print

def identity (store : Store) : String := book.spec.identity store

def release (store : Store) : ReleaseRow :=
  ⟨book.scope.appId, book.identity store, book.specJson⟩

def application (store : Store) : ApplicationRow :=
  ⟨book.scope.appId, book.identity store, book.sqlRevision,
    (recordsToJson book.current.records).print⟩

def snapshot (store : Store) : Snapshot :=
  ⟨book.spec.definition, book.current, book.revision, book.identity store⟩

/-- The book with one more commit. -/
def append (c : Commit) (next : CheckedRecords) : Book :=
  { book with
    log := book.log ++ [c]
    current := next
    revision := c.revision
    sqlRevision := c.sqlRevision
    sameRevision := c.sameRevision }

end Book

/-- No row is a row of the app. -/
structure Tables.Without (tables : Tables) (appId : AppId) : Prop where
  releases : ∀ row ∈ tables.releases, row.appId ≠ appId
  applications : ∀ row ∈ tables.applications, row.appId ≠ appId
  receipts : ∀ row ∈ tables.receipts, row.appId ≠ appId
  events : ∀ row ∈ tables.events, row.appId ≠ appId
  audits : ∀ row ∈ tables.audits, row.appId ≠ appId

/-- The commit is what its request decides at the records that the commits before it have left,
and so the declared transition of its request. -/
structure Commit.Lawful (store : Store) (spec : CheckedAppSpec) (initial : CheckedRecords)
    (before : List Commit) (c : Commit) : Prop where
  scope : c.caller.scope = initial.scope
  specIdentity : c.specIdentity = spec.identity store
  revision : c.revision.val = before.length + 2
  expectedRevision : c.expectedRevision.val = before.length + 1
  decided : decideCommand c.batch.prepared c.expectedRevision = .ok c.batch
  binding : c.batch.prepared.context.bindingId = store.bindingId
  prepared : ∃ rows, recordsAfter initial.records before = some rows ∧
    (∃ host, PreparedFor host c.caller spec.definition ⟨initial.scope, rows⟩ c.request
      c.batch.prepared) ∧
    ∃ old new, TransitionCorrect spec.definition ⟨initial.scope, rows⟩ c.request c.batch.prepared
      c.batch old new
  intended : ∀ snapshot : Snapshot, snapshot.specIdentity = spec.identity store →
    store.normalizedIdentity snapshot c.expectedRevision
      (intentJson spec.definition c.request).print = .ok c.intent
  stored : c.receiptRow.check = true

/-- The tables are the tables from the start with the rows of the book. -/
structure Journal (store : Store) (start : Tables) (book : Book) (tables : Tables) : Prop where
  without : start.Without book.scope.appId
  tenant : book.scope.tenantId = store.tenantId
  scope : book.current.scope = book.scope
  valid : book.current.ValidFor book.spec.definition
  revision : book.revision.val = book.log.length + 1
  records : recordsAfter book.initial.records book.log = some book.current.records
  lawful : EachEntry (Commit.Lawful store book.spec book.initial) book.log
  keys : (book.log.map fun c => c.receiptRow.key).Nodup
  releases : tables.releases = start.releases ++ [book.release store]
  applications : tables.applications = start.applications ++ [book.application store]
  receipts : tables.receipts = start.receipts ++ book.log.map Commit.receiptRow
  events : tables.events = start.events ++ book.log.flatMap Commit.eventRows
  audits : tables.audits = start.audits ++ book.log.map Commit.auditRow

section Journal

variable {store : Store} {start tables : Tables} {book : Book}

theorem find?_append_of_forall_ne {α : Type} {p : α → Bool} {l m : List α}
    (h : ∀ a ∈ l, p a = false) : (l ++ m).find? p = m.find? p := by
  rw [List.find?_append, List.find?_eq_none.2 fun a ha => by simp [h a ha], Option.none_or]

theorem Journal.selectApplication (h : Journal store start book tables) :
    Store.selectApplication tables book.scope.appId =
      some (book.application store, book.release store) := by
  have happlication : tables.applications.find? (fun row => row.appId = book.scope.appId) =
      some (book.application store) := by
    rw [h.applications, find?_append_of_forall_ne fun row hrow => by
      simpa using h.without.applications row hrow]
    simp [Book.application]
  have hrelease : tables.releases.find? (fun row => row.appId = book.scope.appId ∧
      row.specIdentity = (book.application store).specIdentity) = some (book.release store) := by
    rw [h.releases, find?_append_of_forall_ne fun row hrow => by
      simp [h.without.releases row hrow]]
    simp [Book.application, Book.release]
  simp only [Store.selectApplication, happlication, Option.bind_eq_bind, Option.bind_some, hrelease]

/-- A store reads its book back. -/
theorem Journal.load (h : Journal store start book tables) :
    store.load tables book.scope = .ok (book.snapshot store) := by
  have hspec := wellFormed book.spec
  obtain ⟨specJson, hspecEncode, hspecDecode⟩ := decode_encode store.reader book.spec
  obtain rfl : specJson = book.specJson :=
    ((boundedEncode_eq_ok_iff book.spec.definition.exact_toJson).1 hspecEncode).2
  obtain ⟨records, hrecords⟩ := h.valid
  obtain ⟨factsJson, hfactsEncode, hfactsDecode⟩ := decodeRecords_encode store.reader hspec hrecords
  obtain rfl : factsJson = (recordsToJson book.current.records).print :=
    ((boundedEncode_eq_ok_iff (exact_recordsToJson _)).1 hfactsEncode).2
  have hrevision : (Bounded.ofInt? (book.application store).revision.val : Option U64) =
      some book.revision := Bounded.ofInt?_eq_some.2 book.sameRevision.symm
  have hpositive : book.revision.val ≠ 0 := by
    have := h.revision
    omega
  rw [h.scope] at hfactsDecode
  simp only [Store.load, bind_eq_ok, okOr_eq_ok, rejectIf_eq_ok, Exec.ofExcept_eq_ok,
    Exec.lift_eq_ok, ne_eq, not_not]
  exact ⟨_, h.selectApplication, _, hrevision, (), hpositive, _, hspecDecode, (), rfl, _, hspecEncode,
    (), rfl, _, hfactsDecode, _, hfactsEncode, (), rfl, rfl⟩

def Book.provisioned (spec : CheckedAppSpec) (facts : CheckedRecords) : Book :=
  ⟨spec, facts, [], facts, U64.one, I64.one, rfl⟩

/-- The two ways of a provisioning to return: the app is there already, or its rows are added. -/
theorem Store.of_bootstrapIn {spec : CheckedAppSpec} {scope : Scope} {specJson factsJson : List UInt8}
    {snapshot : Snapshot} {after : Tables}
    (h : store.bootstrapIn tables spec scope specJson factsJson = .ok (snapshot, after)) :
    after = tables ∨ (∀ row ∈ tables.applications, row.appId ≠ spec.definition.appId) ∧
      after = { tables with
        releases := tables.releases ++
          [⟨spec.definition.appId, store.specIdentity specJson, specJson⟩]
        applications := tables.applications ++ [⟨spec.definition.appId, store.specIdentity specJson,
          ⟨1, by decide, by decide⟩, factsJson⟩] } := by
  unfold Store.bootstrapIn at h
  split at h
  · simp only [bind_eq_ok, Except.ok.injEq, Prod.mk.injEq] at h
    obtain ⟨-, -, -, -, -, rfl⟩ := h
    exact .inl rfl
  · rename_i hnone
    simp only [bind_eq_ok, Exec.ofExcept_eq_ok, insertRow_eq_ok, Except.ok.injEq,
      Prod.mk.injEq] at h
    obtain ⟨_, ⟨-, -, rfl⟩, _, ⟨-, -, rfl⟩, -, -, -, rfl⟩ := h
    exact .inr ⟨fun row hrow => by simpa using List.find?_eq_none.1 hnone row hrow, rfl⟩

/-- What a provisioning has checked when it returns. -/
theorem Store.of_bootstrap {call : BootstrapCall} {snapshot : Snapshot} {after : Tables}
    (h : store.bootstrap tables call = (.ok snapshot, after)) :
    call.facts.scope.tenantId = store.tenantId ∧ ∃ checked,
      validateRecords call.spec.definition call.facts.scope call.facts.toRaw = .ok checked ∧
      store.bootstrapIn tables call.spec call.facts.scope call.spec.definition.toJson.print
        (recordsToJson checked.records).print = .ok (snapshot, after) := by
  simp only [bootstrap] at h
  split at h
  · cases (Prod.mk.inj h).1
  · rename_i specJson factsJson hchecked
    simp only [checkScope, bind_eq_ok, rejectIf_eq_ok, ne_eq, not_not, Exec.lift_eq_ok,
      Exec.ofExcept_eq_ok, CheckedAppSpec.encode, CheckedRecords.encode,
      boundedEncode_eq_ok_iff (RawAppSpec.exact_toJson _),
      boundedEncode_eq_ok_iff (exact_recordsToJson _), Except.ok.injEq, Prod.mk.injEq] at hchecked
    obtain ⟨-, htenant, checked, hvalidate, _, ⟨-, rfl⟩, _, ⟨-, rfl⟩, rfl, rfl⟩ := hchecked
    exact ⟨htenant, checked, hvalidate, (transact_eq_ok.1 h).2⟩

theorem Store.bootstrap_error {call : BootstrapCall} {halt : Halt StoreError} {after : Tables}
    (hbackend : call.backend ≠ .up .unreported)
    (h : store.bootstrap tables call = (.error halt, after)) : after = tables := by
  simp only [bootstrap] at h
  split at h
  · exact (Prod.mk.inj h).2.symm
  · rcases transact_error h with hsame | ⟨hunreported, -⟩
    · exact hsame
    · exact absurd hunreported hbackend

theorem Journal.provision {spec : CheckedAppSpec} {facts : CheckedRecords} {scope : Scope}
    {records : List RawRecord} (htenant : scope.tenantId = store.tenantId)
    (hfacts : validateRecords spec.definition scope records = .ok facts)
    (hwithout : tables.Without scope.appId) :
    Journal store tables (.provisioned spec facts) { tables with
      releases := tables.releases ++ [⟨spec.definition.appId,
        store.specIdentity spec.definition.toJson.print, spec.definition.toJson.print⟩]
      applications := tables.applications ++ [⟨spec.definition.appId,
        store.specIdentity spec.definition.toJson.print, ⟨1, by decide, by decide⟩,
        (recordsToJson facts.records).print⟩] } := by
  obtain ⟨hvalid, hout⟩ := (validateRecords_eq_ok_iff (wellFormed spec)).1 hfacts
  have hscope : facts.scope = scope := by rw [hout]
  have happ : scope.appId = spec.definition.appId := hvalid.app
  have hbookScope : (Book.provisioned spec facts).scope = scope := hscope
  exact {
    without := hbookScope ▸ hwithout
    tenant := hbookScope ▸ htenant
    scope := rfl
    valid := ⟨records, hscope ▸ hfacts⟩
    revision := rfl
    records := rfl
    lawful := eachEntry_nil
    keys := List.nodup_nil
    releases := by rw [Book.release, hbookScope, happ]; rfl
    applications := by rw [Book.application, hbookScope, happ]; rfl
    receipts := (List.append_nil _).symm
    events := (List.append_nil _).symm
    audits := (List.append_nil _).symm }

variable {answers : Answers} {caller : Caller} {request : RawCommandRequest}
  {expectedRevision : U64} {prepared : PreparedCommand} {intent : List UInt8}

/-- The update of an app changes the row of the app and no other row. -/
theorem Journal.updateApplication (h : Journal store start book tables) {sqlExpected revision : I64}
    (hexpected : sqlExpected.val = book.revision.val) {factsJson : List UInt8} {changed : Nat}
    {applications : List ApplicationRow}
    (hupdate : Store.updateApplication tables.applications book.scope.appId sqlExpected
      (book.identity store) factsJson revision = .ok (changed, applications)) :
    changed = 1 ∧ applications =
      start.applications ++ [⟨book.scope.appId, book.identity store, revision, factsJson⟩] := by
  have hrevision : book.sqlRevision = sqlExpected :=
    Bounded.ext_val (book.sameRevision.trans hexpected.symm)
  simp only [Store.updateApplication, bind_eq_ok, Except.ok.injEq, Prod.mk.injEq,
    h.applications] at hupdate
  obtain ⟨-, -, rfl, rfl⟩ := hupdate
  have hother : ∀ row ∈ start.applications, ¬ (row.appId = book.scope.appId ∧
      row.revision = sqlExpected ∧ row.specIdentity = book.identity store) :=
    fun row hrow hhit => h.without.applications row hrow hhit.1
  have hcount : start.applications.countP (fun row => row.appId = book.scope.appId ∧
      row.revision = sqlExpected ∧ row.specIdentity = book.identity store) = 0 :=
    List.countP_eq_zero.2 fun row hrow => by simpa using hother row hrow
  have hmap : start.applications.map (fun row => if row.appId = book.scope.appId ∧
      row.revision = sqlExpected ∧ row.specIdentity = book.identity store then
        { row with factsJson, revision } else row) = start.applications :=
    (List.map_congr_left fun row hrow => if_neg (hother row hrow)).trans (List.map_id _)
  constructor
  · rw [List.countP_append, hcount]
    simp [Book.application, hrevision]
  · rw [List.map_append, hmap]
    simp [Book.application, hrevision]

section Commit

variable {c : Commit} {next : CheckedRecords} {factsJson : List UInt8}
  {applications : List ApplicationRow}

/-- A commit makes the transition of its command. Its one write leaves valid facts in normal
form, which are the facts after it. -/
theorem Journal.correct_of_commit (h : Journal store start book tables)
    (hopened : Opened store tables answers caller request expectedRevision (book.snapshot store)
      prepared intent) (hscope : caller.scope = book.scope)
    (hcommit : CommitsTo store tables answers caller request expectedRevision (book.snapshot store)
      prepared intent c next factsJson applications) :
    ∃ old new, TransitionCorrect book.spec.definition book.current request prepared c.batch old
        new ∧
      applyWrites book.current.records [new] = some (setRow new book.current.records) ∧
      next = ⟨book.scope, setRow new book.current.records⟩ := by
  have hspec := wellFormed book.spec
  have hprepared := prepareCommand_eq_ok_iff.1 hopened.prepares
  have hpositive : 0 < (book.snapshot store).revision.val := by
    have := h.revision
    show 0 < book.revision.val
    omega
  obtain ⟨old, new, hcorrect⟩ :=
    (decideCommand_outcome hspec hprepared h.valid hpositive).1 _ hcommit.decided
  have hvalid := ((validFor_iff hspec).1 h.valid).1
  obtain ⟨rows, hrows, hvalidate⟩ := hcommit.applied
  rw [hcorrect.writes] at hrows
  obtain rfl := applyWrites_singleton hvalid.keys hrows
  refine ⟨old, new, hcorrect, hrows, ?_⟩
  have hagain := hcorrect.valid
  change validateRecords book.spec.definition book.current.scope
    (setRow new book.current.records) = _ at hagain
  rw [hscope, ← h.scope] at hvalidate
  rw [← h.scope]
  exact Except.ok.inj (hvalidate.symm.trans hagain)

theorem Journal.revision_of_commit (h : Journal store start book tables)
    (hcommit : CommitsTo store tables answers caller request expectedRevision (book.snapshot store)
      prepared intent c next factsJson applications) :
    c.revision.val = (book.log.length : Int) + 2 := by
  have hnext := hcommit.revision
  rw [Store.nextRevision, Bounded.checkedAdd_eq_some] at hnext
  have hrevision : c.revision.val = book.revision.val + 1 := hnext
  rw [hrevision, h.revision]
  ring

theorem Journal.lawful_of_commit (h : Journal store start book tables)
    (hopened : Opened store tables answers caller request expectedRevision (book.snapshot store)
      prepared intent) (hscope : caller.scope = book.scope)
    (hcommit : CommitsTo store tables answers caller request expectedRevision (book.snapshot store)
      prepared intent c next factsJson applications) :
    c.Lawful store book.spec book.initial book.log := by
  have hprepared := prepareCommand_eq_ok_iff.1 hopened.prepares
  obtain ⟨hbatch, hrevision⟩ := batch_of_decideCommand hcommit.decided
  obtain ⟨hcaller, hrequest, hidentity, hintent⟩ := hcommit.same
  obtain ⟨old, new, hcorrect, -, -⟩ := h.correct_of_commit hopened hscope hcommit
  have hfacts : (⟨book.scope, book.current.records⟩ : CheckedRecords) = book.current := by
    rw [← h.scope]
  have hexpected : c.expectedRevision = book.revision := hrevision
  refine ⟨hcaller ▸ hscope, hidentity, h.revision_of_commit hcommit,
    by rw [hexpected, h.revision], ?_, hbatch ▸ hopened.binding,
    ⟨book.current.records, h.records, ⟨answers.preparing, ?_⟩, old, new, ?_⟩, ?_,
    hcommit.stored.1⟩
  · rw [hbatch, hexpected]
    exact hcommit.decided
  · rw [show (⟨book.initial.scope, book.current.records⟩ : CheckedRecords) = book.current from
      hfacts, hrequest, hbatch, hcaller]
    exact hprepared
  · rw [show (⟨book.initial.scope, book.current.records⟩ : CheckedRecords) = book.current from
      hfacts, hrequest, hbatch]
    exact hcorrect
  · intro snapshot hsnapshot
    have hbytes : prepared.intentBytes = (intentJson book.spec.definition request).print :=
      hprepared.intent_eq
    rw [hrequest, hintent, ← hbytes, hexpected, ← hopened.intended, hcommit.expected]
    simp only [Store.normalizedIdentity, hsnapshot, Book.snapshot, Book.identity]

/-- A commit writes the book with the commit at its end. -/
theorem Journal.commit (h : Journal store start book tables)
    (hopened : Opened store tables answers caller request expectedRevision (book.snapshot store)
      prepared intent) (hscope : caller.scope = book.scope)
    (hcommit : CommitsTo store tables answers caller request expectedRevision (book.snapshot store)
      prepared intent c next factsJson applications) :
    Journal store start (book.append c next) (tables.commit c applications) := by
  obtain ⟨old, new, hcorrect, hrows, hnext⟩ := h.correct_of_commit hopened hscope hcommit
  obtain ⟨sqlExpected, hsqlExpected, hupdate⟩ := hcommit.updated
  rw [hscope] at hupdate
  obtain ⟨-, happlications⟩ := h.updateApplication hsqlExpected hupdate
  have hfactsJson : factsJson = (recordsToJson next.records).print :=
    ((boundedEncode_eq_ok_iff (exact_recordsToJson _)).1 hcommit.encoded).2
  have hkeys := hcommit.stored.2
  rw [h.receipts, List.map_append, List.mem_append, not_or, List.map_map] at hkeys
  exact {
    without := h.without
    tenant := h.tenant
    scope := by rw [Book.append, hnext]; rfl
    valid := by
      rw [Book.append, hnext]
      exact ⟨_, h.scope ▸ hcorrect.valid⟩
    revision := by
      rw [Book.append, List.length_append, List.length_singleton, h.revision_of_commit hcommit]
      push_cast
      ring
    records := by
      rw [Book.append, recordsAfter_append h.records, hcorrect.writes, hnext]
      exact hrows
    lawful := h.lawful.append (h.lawful_of_commit hopened hscope hcommit)
    keys := by
      rw [Book.append, List.map_append, List.map_singleton, List.nodup_append]
      refine ⟨h.keys, List.nodup_singleton _, fun a ha b hb => ?_⟩
      obtain rfl := List.mem_singleton.1 hb
      rintro rfl
      exact hkeys.2 ha
    releases := h.releases
    applications := by
      rw [Tables.commit, happlications, hfactsJson]
      rfl
    receipts := by
      rw [Tables.commit, h.receipts, Book.append, List.map_append, List.append_assoc]
      rfl
    events := by
      rw [Tables.commit, h.events, Book.append, List.flatMap_append, List.append_assoc,
        List.flatMap_singleton]
    audits := by
      rw [Tables.commit, h.audits, Book.append, List.map_append, List.append_assoc]
      rfl }

end Commit

end Journal

end Evobase
