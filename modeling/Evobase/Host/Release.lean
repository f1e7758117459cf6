import Evobase.Host.Read
import Evobase.Store.Commit
import Evobase.Store.Intent
import Mathlib.Data.List.ReduceOption

/-!
# Authority at release

The answers of a verifier may differ from one call to the next, in the middle of an operation
too. A commit, a receipt, a list or the metadata of an app are released only when the context
that they were made under is granted once more at the end (`authority_current_at_release`).
What is not released is an error and has changed nothing; a recovery may also answer that there
is no receipt, and metadata may be released without commands.

Every release path of the code asks the verifier again and compares the contexts. A grant that is
withdrawn after the last question is not noticed.
-/

namespace Evobase

open Foundation

/-- The answers to an operation of the store grant its caller writes in one context, of the
binding of the store, from its start to its end. -/
structure Answers.CurrentFor (answers : Answers) (store : Store) (caller : Caller)
    (context : TrustedContext) : Prop where
  opening : answers.opening.Grants caller .write context
  preparing : answers.preparing.Grants caller .write context
  closing : answers.closing.Grants caller .write context
  binding : context.bindingId = store.bindingId

section Store

variable {store : Store} {tables after : Tables} {answers : Answers} {caller : Caller}
  {request : RawCommandRequest} {expectedRevision : U64} {snapshot : Snapshot}
  {prepared : PreparedCommand} {intent : List UInt8} {fault : Option CommitStage}
  {receipt : CommitReceipt}

theorem Opened.currentFor
    (h : Opened store tables answers caller request expectedRevision snapshot prepared intent)
    (hclosing : answers.closing.resolve caller .write = .ok prepared.context) :
    answers.CurrentFor store caller prepared.context where
  opening := SessionVerifier.resolve_eq_ok.1 h.opening
  preparing := SessionVerifier.resolve_eq_ok.1 (prepareCommand_eq_ok_iff.1 h.prepares).resolved
  closing := SessionVerifier.resolve_eq_ok.1 hclosing
  binding := h.binding

theorem Store.currentFor_of_executeIn
    (h : store.executeIn tables answers caller expectedRevision request fault =
      .ok (receipt, after)) : ∃ context, answers.CurrentFor store caller context := by
  obtain ⟨snapshot, prepared, intent, hopened, houtcome⟩ := executeIn_eq_ok.1 h
  rcases houtcome with ⟨stored, hreplays, -⟩ | ⟨-, c, next, factsJson, applications, hcommits, -⟩
  · exact ⟨_, hopened.currentFor hreplays.closing⟩
  · exact ⟨_, hopened.currentFor hcommits.closing⟩

theorem Store.executeAt_current (store : Store) (tables : Tables) (call : ExecuteCall) :
    (∃ context, call.answers.CurrentFor store call.caller context) ∨
      ∃ halt, store.executeAt tables call = (.error halt, tables) := by
  rcases hscope : store.checkScope call.caller.scope with halt | ⟨⟩
  · exact .inr ⟨halt, by rw [Store.executeAt, hscope]⟩
  rcases hexecute : store.executeIn tables call.answers call.caller call.expectedRevision
    call.request call.fault with halt | ⟨receipt, after⟩
  · refine .inr ?_
    rw [Store.executeAt, hscope, hexecute]
    cases call.backend with
    | down => exact ⟨_, rfl⟩
    | up commit => exact ⟨halt, rfl⟩
  · exact .inl (Store.currentFor_of_executeIn hexecute)

theorem Store.receipt_current (store : Store) (tables : Tables) (call : ReceiptCall) :
    (∃ context, call.answers.CurrentFor store call.caller context) ∨
      store.receipt tables call = .ok none ∨
      ∃ halt, store.receipt tables call = .error halt := by
  rcases hreceipt : store.receipt tables call with halt | _ | receipt
  · exact .inr (.inr ⟨halt, rfl⟩)
  · exact .inr (.inl rfl)
  · obtain ⟨-, -, -, snapshot, prepared, intent, stored, envelope, hopened, hreplays, -⟩ :=
      receipt_eq_some.1 hreceipt
    exact .inl ⟨_, hopened.currentFor hreplays.closing⟩

end Store

/-- The caller may read a row of the table in the context. -/
def SeesRow (snapshot : Snapshot) (context : TrustedContext) (table : TableId)
    (row : RawRecord) : Prop :=
  ∃ rule ∈ snapshot.spec.policies, rule.tableId = table ∧ row ∈ snapshot.facts.records ∧
    OwnerRolePolicy.allows ⟨snapshot.spec, rule⟩ context row .read

namespace HostState

variable {host : HostState} {snapshot : Snapshot} {caller : Caller} {moments : Moments}
  {access : PilotAccess} {context original : TrustedContext}

/-- A list has been read in a context that is granted when it is released. -/
structure ListReleased (host : HostState) (snapshot : Snapshot) (caller : Caller)
    (table : TableId) (moments : Moments) (context : TrustedContext)
    (response : ListResponseDto) : Prop where
  reading : ∃ access, (moments 0).current = .ok access ∧
    (host.verifier.pinned access (moments 2)).Grants caller .read context
  releasing : (host.verifier.asked (moments 3)).Grants caller .read context
  rows : ∀ record ∈ response.records, ∃ row, SeesRow snapshot context table row ∧
    record.recordId = row.id

theorem recordId_of_recordDto {row : VisibleRecord} {record : RecordDto}
    (h : host.recordDto row = .ok record) : record.recordId = row.id := by
  simp only [recordDto, bind_eq_ok, Except.ok.injEq] at h
  obtain ⟨_, -, rfl⟩ := h
  rfl

theorem of_project {verifier : SessionVerifier} {facts : CheckedRecords} {policy : OwnerRolePolicy}
    {purpose : ProjectionPurpose} {projection : CheckedProjection}
    (h : project verifier caller facts policy purpose = .ok projection) :
    ∃ context, verifier.resolve caller .read = .ok context ∧
      projection.rows = policy.visibleRows context facts := by
  simp only [project, bind_eq_ok, Exec.ofExcept_eq_ok, Except.ok.injEq] at h
  obtain ⟨context, hresolve, -, -, rfl⟩ := h
  exact ⟨context, hresolve, rfl⟩

theorem listReleased_of_listOf {table : TableId} {limit : Nat} {response : ListResponseDto}
    (h : host.listOf snapshot caller table limit moments = .ok response) :
    ∃ context, host.ListReleased snapshot caller table moments context response := by
  simp only [listOf, bind_eq_ok, okOr_eq_ok, Exec.ofExcept_eq_ok, Exec.lift_eq_ok, rejectIf_eq_ok,
    ne_eq, not_not, Except.ok.injEq] at h
  obtain ⟨rule, hrule, policy, hpolicy, access, haccess, original, horiginal, projection, hproject,
    response, hresponse, current, hcurrent, -, rfl, rfl⟩ := h
  obtain ⟨-, rfl⟩ := OwnerRolePolicy.check_eq_ok_iff.1 hpolicy
  obtain ⟨context, hresolve, hrows⟩ := of_project hproject
  obtain rfl := PilotVerifier.pinned_context horiginal hresolve
  refine ⟨context, ⟨access, haccess, SessionVerifier.resolve_eq_ok.1 hresolve⟩,
    SessionVerifier.resolve_eq_ok.1 hcurrent, fun record hrecord => ?_⟩
  simp only [listResponse, bind_eq_ok, Except.ok.injEq] at hresponse
  obtain ⟨records, hrecords, rfl⟩ := hresponse
  obtain ⟨visible, hvisible, hdto⟩ := exists_of_mem_mapM hrecords hrecord
  have hmem : visible ∈ OwnerRolePolicy.visibleRows ⟨snapshot.spec, rule⟩ context snapshot.facts :=
    hrows ▸ List.mem_of_mem_take hvisible
  obtain ⟨row, hrow, hallows, rfl⟩ := mem_visibleRows_iff.1 hmem
  exact ⟨row, ⟨rule, List.mem_of_find?_eq_some hrule, by simpa using List.find?_some hrule, hrow,
    hallows⟩, recordId_of_recordDto hdto⟩

/-- The metadata have been read in a context that is granted when they are released; commands
are offered and released under the grant to run them. -/
structure MetadataReleased (host : HostState) (snapshot : Snapshot) (caller : Caller)
    (moments : Moments) (context : TrustedContext) (response : MetadataResponseDto) : Prop where
  reading : ∃ access, (moments 0).current = .ok access ∧
    (host.verifier.pinned access (moments 1)).Grants caller .read context ∧
    (∀ shown ∈ response.tables, ∃ i row, SeesRow snapshot context shown.tableId row ∧
      (host.verifier.pinned access (moments (i + 6))).Grants caller .read context) ∧
    (response.commands ≠ [] →
      (host.verifier.pinned access (moments 2)).Grants caller .read context ∧
      (host.verifier.pinned access (moments 3)).Grants caller .write context)
  releasing : (host.verifier.asked (moments 4)).Grants caller .read context
  commands : response.commands ≠ [] →
    (host.verifier.asked (moments 5)).Grants caller .write context

theorem of_showTable {table : RawTable} {moment : Moment} {shown : TableMetadataDto}
    (horiginal : ∃ pin, (host.verifier.pinned access pin).resolve caller .read = .ok original)
    (h : host.showTable snapshot false caller access table moment = .ok (some shown)) :
    ∃ row, SeesRow snapshot original shown.tableId row ∧
      (host.verifier.pinned access moment).Grants caller .read original := by
  obtain ⟨pin, horiginal⟩ := horiginal
  simp only [showTable, Bool.false_eq_true, if_false] at h
  split at h
  · cases h
  · next rule hrule =>
      simp only [bind_eq_ok, Exec.ofExcept_eq_ok, Exec.lift_eq_ok, Except.ok.injEq] at h
      obtain ⟨policy, hpolicy, projection, hproject, hshown⟩ := h
      obtain ⟨-, rfl⟩ := OwnerRolePolicy.check_eq_ok_iff.1 hpolicy
      obtain ⟨context, hresolve, hrows⟩ := of_project hproject
      obtain rfl := PilotVerifier.pinned_context horiginal hresolve
      split_ifs at hshown with hempty
      obtain ⟨visible, hvisible⟩ := List.exists_mem_of_ne_nil _ hempty
      obtain ⟨row, hrow, hallows, -⟩ := mem_visibleRows_iff.1 (hrows ▸ hvisible)
      obtain rfl := Option.some.inj hshown
      have htable : rule.tableId = table.id := by simpa using List.find?_some hrule
      exact ⟨row, ⟨rule, List.mem_of_find?_eq_some hrule, htable, hrow, hallows⟩,
        SessionVerifier.resolve_eq_ok.1 hresolve⟩

theorem of_declarations {reading writing : Moment} {out : List (RawCommand × List RecordId)}
    (h : host.declarations snapshot false caller access reading writing = .ok out)
    (hout : out ≠ []) :
    ∃ context, (host.verifier.pinned access reading).resolve caller .read = .ok context ∧
      (host.verifier.pinned access writing).resolve caller .write = .ok context := by
  simp only [declarations, Bool.false_eq_true, if_false] at h
  split at h
  · next commands hcommands =>
      obtain ⟨context, offers, hread, hwrite, -⟩ := of_availableCommandRecords hcommands
      exact ⟨context, hread, hwrite⟩
  · exact absurd (Except.ok.inj h).symm hout
  · cases h
  · cases h
  · cases h

/-- Commands that are released to a caller at work are the commands that were found, under a
grant to run them. -/
theorem of_releaseCommands {commands out : List CommandMetadataDto} {moment : Moment}
    (h : host.releaseCommands false caller original commands moment = .ok out) (hout : out ≠ []) :
    out = commands ∧ (host.verifier.asked moment).resolve caller .write = .ok original := by
  unfold releaseCommands at h
  by_cases hempty : commands = []
  · rw [if_pos (.inr hempty)] at h
    obtain rfl := Except.ok.inj h
    exact absurd hempty hout
  · rw [if_neg (by simp [hempty])] at h
    split at h
    · next context hresolve =>
        simp only [bind_eq_ok, rejectIf_eq_ok, ne_eq, not_not, Except.ok.injEq] at h
        obtain ⟨-, rfl, rfl⟩ := h
        exact ⟨rfl, hresolve⟩
    · exact absurd (Except.ok.inj h).symm hout
    · cases h

theorem metadataReleased_of_metadataResponse {response : MetadataResponseDto}
    (h : host.metadataResponse snapshot false caller moments = .ok response) :
    ∃ context, host.MetadataReleased snapshot caller moments context response := by
  simp only [metadataResponse, bind_eq_ok, Exec.ofExcept_eq_ok, rejectIf_eq_ok, ne_eq, not_not,
    Bool.false_eq_true, if_false, Except.ok.injEq] at h
  obtain ⟨access, haccess, original, horiginal, shown, hshown, declared, hdeclared, current,
    hcurrent, -, rfl, commands, hcommands, canonical, -, rfl⟩ := h
  refine ⟨current, ⟨access, haccess, SessionVerifier.resolve_eq_ok.1 horiginal, ?_, ?_⟩,
    SessionVerifier.resolve_eq_ok.1 hcurrent, ?_⟩
  · intro table htable
    obtain ⟨numbered, -, hshow⟩ := exists_of_mem_mapM hshown (List.reduceOption_mem_iff.1 htable)
    obtain ⟨row, hrow, hgrants⟩ := of_showTable ⟨_, horiginal⟩ hshow
    exact ⟨numbered.2, row, hrow, hgrants⟩
  · intro hne
    obtain ⟨rfl, -⟩ := of_releaseCommands hcommands hne
    have hdeclaredNe : declared ≠ [] := by
      rintro rfl
      exact hne rfl
    obtain ⟨context, hread, hwrite⟩ := of_declarations hdeclared hdeclaredNe
    obtain rfl := PilotVerifier.pinned_context horiginal hread
    exact ⟨SessionVerifier.resolve_eq_ok.1 hread, SessionVerifier.resolve_eq_ok.1 hwrite⟩
  · intro hne
    exact SessionVerifier.resolve_eq_ok.1 (of_releaseCommands hcommands hne).2

theorem of_list {backend : Backend} {tables : Tables} {request : HttpRequest} {app table : String}
    {response : ListResponseDto}
    (h : host.list backend tables moments request app table = .ok response) :
    ∃ caller snapshot id context, host.Authorized request app .read false (moments 1) caller ∧
      host.snapshot backend tables = .ok snapshot ∧ Identity.ofText? .table table = some id ∧
      host.ListReleased snapshot caller id (fun i => moments (i + 2)) context response := by
  simp only [list, bind_eq_ok, Exec.ofExcept_eq_ok, okOr_eq_ok] at h
  obtain ⟨caller, hcaller, limit, -, id, hid, snapshot, hsnapshot, hlist⟩ := h
  obtain ⟨context, hreleased⟩ := listReleased_of_listOf hlist
  exact ⟨caller, snapshot, id, context, authorized_of_authorize hcaller, hsnapshot, hid, hreleased⟩

theorem of_runtimeMetadata {backend : Backend} {tables : Tables} {request : HttpRequest}
    {app : String} {response : MetadataResponseDto}
    (h : host.runtimeMetadata backend tables moments request app = .ok response) :
    ∃ caller snapshot context, host.Authorized request app .read false (moments 3) caller ∧
      host.snapshot backend tables = .ok snapshot ∧
      host.MetadataReleased snapshot caller (fun i => moments (i + 4)) context response := by
  simp only [runtimeMetadata, metadata, Bool.false_eq_true, if_false, bind_eq_ok,
    Exec.ofExcept_eq_ok] at h
  obtain ⟨-, -, -, -, snapshot, hsnapshot, caller, hcaller, hmetadata⟩ := h
  obtain ⟨context, hreleased⟩ := metadataReleased_of_metadataResponse hmetadata
  exact ⟨caller, snapshot, context, authorized_of_authorize hcaller, hsnapshot, hreleased⟩

end HostState

/-- Authority is current at release, whatever the verifier answers from one call to the next.
An execution, a recovery that finds a receipt, a list and the metadata of an app are made and
released under one context that is granted both times; otherwise nothing is committed, and the
answer is an error or, from a recovery, that there is no receipt. Metadata without commands need
no grant to write. -/
theorem authority_current_at_release :
    (∀ (store : Store) (tables : Tables) (call : ExecuteCall),
      (∃ context, call.answers.CurrentFor store call.caller context) ∨
        ∃ halt, store.executeAt tables call = (.error halt, tables)) ∧
    (∀ (store : Store) (tables : Tables) (call : ReceiptCall),
      (∃ context, call.answers.CurrentFor store call.caller context) ∨
        store.receipt tables call = .ok none ∨
        ∃ halt, store.receipt tables call = .error halt) ∧
    (∀ (host : HostState) (backend : Backend) (tables : Tables) (moments : Moments)
        (request : HttpRequest) (app table : String),
      (∃ response caller snapshot id context,
        host.list backend tables moments request app table = .ok response ∧
          host.Authorized request app .read false (moments 1) caller ∧
          host.snapshot backend tables = .ok snapshot ∧ Identity.ofText? .table table = some id ∧
          host.ListReleased snapshot caller id (fun i => moments (i + 2)) context response) ∨
        ∃ halt, host.list backend tables moments request app table = .error halt) ∧
    ∀ (host : HostState) (backend : Backend) (tables : Tables) (moments : Moments)
        (request : HttpRequest) (app : String),
      (∃ response caller snapshot context,
        host.runtimeMetadata backend tables moments request app = .ok response ∧
          host.Authorized request app .read false (moments 3) caller ∧
          host.snapshot backend tables = .ok snapshot ∧
          host.MetadataReleased snapshot caller (fun i => moments (i + 4)) context response) ∨
        ∃ halt, host.runtimeMetadata backend tables moments request app = .error halt := by
  refine ⟨Store.executeAt_current, Store.receipt_current, ?_, ?_⟩
  · intro host backend tables moments request app table
    rcases hlist : host.list backend tables moments request app table with halt | response
    · exact .inr ⟨halt, rfl⟩
    · obtain ⟨caller, snapshot, id, context, hreleased⟩ := HostState.of_list hlist
      exact .inl ⟨response, caller, snapshot, id, context, rfl, hreleased⟩
  · intro host backend tables moments request app
    rcases hmetadata : host.runtimeMetadata backend tables moments request app with halt | response
    · exact .inr ⟨halt, rfl⟩
    · obtain ⟨caller, snapshot, context, hreleased⟩ := HostState.of_runtimeMetadata hmetadata
      exact .inl ⟨response, caller, snapshot, context, rfl, hreleased⟩

def revokedAtClosing : Answers :=
  ⟨ticketHost ticketActor, ticketHost ticketActor, ⟨fun now => now, fun _ _ => .error .revoked⟩⟩

/-- A recovery that finds no receipt does not resolve the authority again. -/
theorem receipt_none_after_revocation :
    ¬ ∀ (store : Store) (tables : Tables) (call : ReceiptCall),
      (∃ context, call.answers.CurrentFor store call.caller context) ∨
        ∃ halt, store.receipt tables call = .error halt := by
  intro h
  rcases h digestStore ⟨[], [], [], [], []⟩
    ⟨revokedAtClosing, ticketCaller, "k", .up .applied⟩ with ⟨context, hcurrent⟩ | ⟨halt, herror⟩
  · obtain ⟨session, membership, binding, hfacts, -⟩ := hcurrent.closing
    cases hfacts
  · have hnone : (digestStore.receipt ⟨[], [], [], [], []⟩
        ⟨revokedAtClosing, ticketCaller, "k", .up .applied⟩).toBool = true := by
      decide +kernel
    rw [herror] at hnone
    cases hnone

end Evobase
