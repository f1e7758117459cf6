import Evobase.Host.Answer
import Evobase.Store.Advance

/-!
# Commands and receipts of the host

The host runs a command in one call of its store and answers with the receipt. It reads a receipt
back by its key. Only a command changes the store, and a command that changes it is answered with
a receipt or with an error of the host, and has added its own receipt. A receipt that is sent is
in the store (`serve_receipt`), and a query that is answered with 404 has found none
(`serve_missing`). What an answer tells is put together in `serve_tells`.

`Tells` is the statement of what an answer means for the tables before and after. It is proved by
the routes: a command either runs its one call of the store or is refused before it, and a read
leaves the tables as they are. A panic drops the connection and changes nothing.
-/

namespace Evobase

open Foundation

namespace HostState

/-- The authority of an operation of the store, asked at three moments. -/
def authority (host : HostState) (moments : Moments) : Answers :=
  ⟨host.verifier.asked (moments 0), host.verifier.asked (moments 1),
    host.verifier.asked (moments 2)⟩

def receiptResponse (host : HostState) (committed : CommitReceipt) :
    Except ApiFailure ReceiptResponseDto := do
  rejectIf (committed.specIdentity ≠ host.releaseId) .conflict
  .ok { apiVersion := apiVersionNumber
        appId := host.scope.appId
        releaseId := committed.specIdentity
        requestKey := committed.requestKey
        commandId := committed.transition.commandId.text
        recordId := committed.transition.recordId
        revision := ⟨committed.revision⟩
        replayed := committed.replayed }

/-- The command that the core runs for a decoded body. -/
def rawCommand (host : HostState) (request : CommandRequestDto) :
    Except ApiFailure RawCommandRequest := do
  let commandId ← okOr .validation (Identity.ofText? .command request.commandId)
  .ok { commandId
        recordId := request.recordId
        idempotencyKey := request.requestKey
        inputs := request.params.mapEntries fun _ value => value.toDomain host.scope }

/-- The call of the store that a request for a command stands for. A body over the limit is not
read. -/
def commandCall (host : HostState) (backend : Backend) (moments : Moments) (request : HttpRequest)
    (app : String) : Except ApiFailure ExecuteCall := do
  let caller ← host.authorize request app .write true (moments 0).clock (moments 1)
  request.noQuery
  let contentType := (request.getAll "content-type").head?.bind HttpRequest.toStr
  rejectIf (contentType ≠ some "application/json") .validation
  let body ← okOr .validation request.body
  rejectIf (body.length > maxRequestBytes) .validation
  let request ← renameError (fun _ => .validation)
    (Wire.decode host.tokenizer body : Except WireError CommandRequestDto)
  rejectIf (request.releaseId ≠ host.releaseId) .conflict
  let raw ← host.rawCommand request
  .ok { answers := host.authority fun i => moments (i + 2)
        caller
        expectedRevision := request.expectedRevision.revision
        request := raw
        fault := none
        backend }

def command (host : HostState) (backend : Backend) (tables : Tables) (moments : Moments)
    (request : HttpRequest) (app : String) : Exec ApiFailure ReceiptResponseDto × Tables :=
  match host.commandCall backend moments request app with
  | .error failure => (.error (.fail failure), tables)
  | .ok call =>
      let (committed, after) := host.store.executeAt tables call
      (do Exec.ofExcept id (host.receiptResponse (← Exec.lift .storage committed)), after)

def receipt (host : HostState) (backend : Backend) (tables : Tables) (moments : Moments)
    (request : HttpRequest) (app key : String) : Exec ApiFailure ReceiptResponseDto := do
  let caller ← Exec.ofExcept id
    (host.authorize request app .write false (moments 0).clock (moments 1))
  Exec.ofExcept id request.noQuery
  rejectIf (boundedKey key = false) (.fail .validation)
  let committed ← Exec.lift .storage (host.store.receipt tables
    ⟨host.authority fun i => moments (i + 2), caller, key, backend⟩)
  let committed ← okOr (.fail .notFound) committed
  Exec.ofExcept id (host.receiptResponse committed)

inductive Route where
  | metadata (app : String)
  | runtimeMetadata (app : String)
  | table (app table : String)
  | commands (app : String)
  | receipt (app key : String)
deriving DecidableEq, Repr

def route (request : HttpRequest) : Option Route :=
  match request.method, request.path with
  | .get, ["v1", "apps", app, "metadata"] => some (.metadata app)
  | .get, ["v1", "apps", app, "runtime-metadata"] => some (.runtimeMetadata app)
  | .get, ["v1", "apps", app, "tables", table] => some (.table app table)
  | .post, ["v1", "apps", app, "commands"] => some (.commands app)
  | .get, ["v1", "apps", app, "receipts", key] => some (.receipt app key)
  | _, _ => none

/-- The reply for what a handler sends. A handler that panics drops its connection. -/
def reply : Exec ApiFailure (List UInt8) → Option HttpReply
  | .ok bytes => some ⟨200, bytes⟩
  | .error (.fail failure) => some failure.intoResponse
  | .error _ => none

/-- The reply to a request, and the tables after it. -/
def serve (host : HostState) (backend : Backend) (tables : Tables) (moments : Moments)
    (request : HttpRequest) : Option HttpReply × Tables :=
  match host.transportBudget request with
  | .error reply => (some reply, tables)
  | .ok () =>
      match route request with
      | none => (some ApiFailure.unsupported.intoResponse, tables)
      | some (.metadata app) =>
          (reply (send (host.designMetadata backend tables moments request app)), tables)
      | some (.runtimeMetadata app) =>
          (reply (send (host.runtimeMetadata backend tables moments request app)), tables)
      | some (.table app table) =>
          (reply (send (host.list backend tables moments request app table)), tables)
      | some (.commands app) =>
          let (response, after) := host.command backend tables moments request app
          (reply (send response), after)
      | some (.receipt app key) =>
          (reply (send (host.receipt backend tables moments request app key)), tables)

def Refuses (failure : ApiFailure) : Prop := 400 ≤ failure.status

instance (failure : ApiFailure) : Decidable (Refuses failure) := Nat.decLe _ _

/-- A property that the failures of the host's own checks have. -/
structure Admits (P : ApiFailure → Prop) : Prop where
  denied : P .denied
  validation : P .validation
  unsupported : P .unsupported
  conflict : P .conflict
  internal : P .internal

theorem admits_refuses : Admits Refuses := by
  constructor <;> decide

theorem admits_of_status (Q : Prop) : Admits fun failure => failure.status = 404 → Q := by
  constructor <;> exact fun h => absurd h (by decide)

section Refusals

variable {host : HostState} {request : HttpRequest} {app : String} {P : ApiFailure → Prop}

theorem yields_credential (hP : Admits P) : Yields (fun _ => True) P request.credential := by
  unfold HttpRequest.credential
  split
  · exact (yields_okOr hP.denied).bind fun _ _ => (yields_okOr hP.denied).bind fun _ _ =>
      (yields_rejectIf hP.denied).bind fun _ _ => trivial
  · exact hP.denied

theorem yields_origin (hP : Admits P) : Yields (fun _ => True) P request.origin := by
  unfold HttpRequest.origin
  split
  · trivial
  · exact (yields_okOr hP.denied).bind fun _ _ => trivial

theorem yields_authorize (hP : Admits P) (grant : Grant) (mutation : Bool) (clock : Option U64)
    (moment : Moment) :
    Yields (fun _ => True) P (host.authorize request app grant mutation clock moment) := by
  refine (yields_credential hP).bind fun token _ => (yields_origin hP).bind fun origin _ =>
    (yields_rejectIf hP.denied).bind fun _ _ => (yields_okOr hP.internal).bind fun now _ => ?_
  refine Yields.bind (M := fun _ => True) ?_ fun _ _ =>
    (yields_rejectIf hP.denied).bind fun _ _ => trivial
  cases (host.verifier.asked moment).resolve _ grant with
  | ok context => trivial
  | error e => exact hP.denied

theorem yields_noQuery (hP : Admits P) : Yields (fun _ => True) P request.noQuery :=
  (yields_rejectIf hP.unsupported).mono (fun _ _ => trivial) fun _ h => h

theorem refuses_commandCall (backend : Backend) (moments : Moments) :
    Yields (fun _ => True) Refuses (host.commandCall backend moments request app) := by
  have hP := admits_refuses
  refine (yields_authorize hP _ _ _ _).bind fun caller _ => (yields_noQuery hP).bind fun _ _ =>
    (yields_rejectIf hP.validation).bind fun _ _ =>
      (yields_okOr hP.validation).bind fun body _ =>
        (yields_rejectIf hP.validation).bind fun _ _ => ?_
  refine Yields.bind (M := fun _ => True) ?_ fun dto _ =>
    (yields_rejectIf hP.conflict).bind fun _ _ =>
      Yields.bind (M := fun _ => True) ?_ fun _ _ => trivial
  · cases (Wire.decode host.tokenizer body : Except WireError CommandRequestDto) with
    | ok dto => trivial
    | error e => exact hP.validation
  · exact (yields_okOr hP.validation).bind fun _ _ => trivial

end Refusals

section Commands

variable {host : HostState} {backend : Backend} {tables after : Tables} {moments : Moments}
  {request : HttpRequest} {app key : String} {answer : Option HttpReply}

/-- The host serves an app of its own tenant at the release that its store has for it. -/
structure Serves (host : HostState) (tables : Tables) : Prop where
  tenant : host.scope.tenantId = host.store.tenantId
  loads : host.store.Loads host.scope host.releaseId tables

/-- The call of the store for a body is about the command in the body. -/
structure CallFor (host : HostState) (request : HttpRequest) (app : String)
    (dto : CommandRequestDto) (call : ExecuteCall) : Prop where
  body : ∃ bytes, request.body = some bytes ∧ Wire.decode host.tokenizer bytes = .ok dto
  app : app = host.scope.appId.text
  scope : call.caller.scope = host.scope
  release : dto.releaseId = host.releaseId
  commandId : call.request.commandId.text = dto.commandId
  recordId : call.request.recordId = dto.recordId
  requestKey : call.request.idempotencyKey = dto.requestKey
  expectedRevision : call.expectedRevision = dto.expectedRevision.revision

theorem callFor_of_commandCall {call : ExecuteCall}
    (h : host.commandCall backend moments request app = .ok call) :
    ∃ dto, CallFor host request app dto call := by
  simp only [commandCall, rawCommand, bind_eq_ok, okOr_eq_ok, rejectIf_eq_ok, renameError_eq_ok,
    ne_eq, not_not, Except.ok.injEq] at h
  obtain ⟨caller, hcaller, -, -, -, -, bytes, hbytes, -, -, dto, hdecode, -, hrelease, raw,
    ⟨commandId, hcommand, rfl⟩, rfl⟩ := h
  have hauthorized := authorized_of_authorize hcaller
  exact ⟨dto, ⟨bytes, hbytes, hdecode⟩, hauthorized.app, hauthorized.scope, hrelease,
    (Identity.ofText?_eq_some.1 hcommand), rfl, rfl, rfl⟩

theorem reply_send {α : Type} [WireMessage α] (response : α) :
    reply (send (.ok response)) = some ApiFailure.internal.intoResponse ∨
      ∃ bytes, Wire.encode response = .ok bytes ∧ reply (send (.ok response)) = some ⟨200, bytes⟩ := by
  rw [send, ok_bind]
  cases hencode : Wire.encode response with
  | error e => exact .inl rfl
  | ok bytes =>
      obtain ⟨-, hpreflight, -⟩ := Wire.encode_eq_ok.1 hencode
      rw [Wire.preflight_eq, renameError_eq_ok, Evobase.preflight, bind_eq_ok] at hpreflight
      obtain ⟨_, hlength, -⟩ := hpreflight
      have hsize : ¬ bytes.length > maxResponseBytes := rejectIf_eq_ok.1 hlength
      refine .inr ⟨bytes, rfl, ?_⟩
      simp only [Exec.ofExcept, ok_bind, jsonBytes, rejectIf_bind_of_not hsize, reply]

theorem exists_receiptResponse (hserves : host.Serves tables) {requestKey : String}
    {receipt : CommitReceipt}
    (hreceipt : ReceiptUnder host.store tables after host.scope requestKey receipt) :
    ∃ response, host.receiptResponse receipt = .ok response ∧
      response.appId = host.scope.appId ∧ response.releaseId = host.releaseId ∧
      response.requestKey = requestKey ∧
      response.commandId = receipt.transition.commandId.text ∧
      response.recordId = receipt.transition.recordId := by
  obtain ⟨snapshot, hload, hidentity⟩ := hreceipt.identity
  obtain ⟨current, hcurrent, hrelease⟩ := hserves.loads
  obtain rfl := Except.ok.inj (hload.symm.trans hcurrent)
  have hspec : receipt.specIdentity = host.releaseId := hidentity.trans hrelease
  refine ⟨{
    apiVersion := apiVersionNumber
    appId := host.scope.appId
    releaseId := receipt.specIdentity
    requestKey := receipt.requestKey
    commandId := receipt.transition.commandId.text
    recordId := receipt.transition.recordId
    revision := ⟨receipt.revision⟩
    replayed := receipt.replayed }, rejectIf_bind_of_not (not_not.2 hspec) _, rfl, hspec,
    hreceipt.requestKey, rfl, rfl⟩

/-- The response is the receipt of the command, and the receipt is stored. -/
structure ReceiptOf (host : HostState) (after : Tables) (dto : CommandRequestDto)
    (response : ReceiptResponseDto) : Prop where
  appId : response.appId = host.scope.appId
  releaseId : response.releaseId = dto.releaseId
  requestKey : response.requestKey = dto.requestKey
  commandId : response.commandId = dto.commandId
  recordId : response.recordId = dto.recordId
  stored : after.receiptsUnder host.scope.appId dto.requestKey ≠ []

/-- The tables are left as they are, or as the execution of the command in the body leaves them. -/
def RunsAtMost (host : HostState) (request : HttpRequest) (app : String) (tables after : Tables) :
    Prop :=
  after = tables ∨ ∃ dto call, CallFor host request app dto call ∧
    (host.store.executeAt tables call).2 = after

/-- A command is answered with the receipt of its request, which is stored. Any other answer but
an error of the host is a refusal, or no answer, and leaves the tables as they are. -/
inductive CommandOutcome (host : HostState) (request : HttpRequest) (app : String)
    (tables after : Tables) : Option HttpReply → Prop
  | answered {dto call response bytes} (hcall : CallFor host request app dto call)
      (hafter : (host.store.executeAt tables call).2 = after)
      (hencode : Wire.encode response = .ok bytes) (hreceipt : ReceiptOf host after dto response) :
      CommandOutcome host request app tables after (some ⟨200, bytes⟩)
  | failed (hruns : RunsAtMost host request app tables after) :
      CommandOutcome host request app tables after (some ApiFailure.internal.intoResponse)
  | refused {failure} (hrefuses : Refuses failure) (hne : failure ≠ .internal)
      (hsame : after = tables) :
      CommandOutcome host request app tables after (some failure.intoResponse)
  | dropped (hsame : after = tables) : CommandOutcome host request app tables after none

theorem CommandOutcome.of_refuses {failure : ApiFailure} (h : Refuses failure) :
    CommandOutcome host request app tables tables (some failure.intoResponse) := by
  by_cases hinternal : failure = .internal
  · rw [hinternal]
    exact .failed (.inl rfl)
  · exact .refused h hinternal rfl

theorem transportBudget_refusal {P : ApiFailure → Prop} (hP : Admits P)
    (hmethod : request.method ≠ .options) {refusal : HttpReply}
    (h : host.transportBudget request = .error refusal) :
    ∃ failure, P failure ∧ refusal = ApiFailure.intoResponse failure := by
  simp only [transportBudget, hmethod, bind_eq_error, rejectIf_eq_error, reduceCtorEq, if_false,
    and_false, exists_false, or_false] at h
  rcases h with ⟨-, rfl⟩ | ⟨-, -, ⟨-, rfl⟩ | ⟨-, -, -, rfl⟩⟩
  · exact ⟨_, hP.validation, rfl⟩
  · exact ⟨_, hP.validation, rfl⟩
  · exact ⟨_, hP.denied, rfl⟩

/-- The answer to the call of the store that a command stands for. -/
theorem outcome_of_call {dto : CommandRequestDto} {call : ExecuteCall}
    (hserves : host.Serves tables) (hcall : CallFor host request app dto call)
    (hafter : (host.store.executeAt tables call).2 = after) :
    CommandOutcome host request app tables after (reply (send (do
      Exec.ofExcept id (host.receiptResponse
        (← Exec.lift .storage (host.store.executeAt tables call).1))))) := by
  rcases hexecute : host.store.executeAt tables call with ⟨halt | committed, changed⟩
  · obtain rfl : changed = after := by rw [← hafter, hexecute]
    by_cases hsame : changed = tables
    · subst hsame
      cases halt with
      | fail error => exact .of_refuses (ApiFailure.status_storage_ge error)
      | panic site => exact .dropped rfl
      | diverge => exact .dropped rfl
    · -- Only a commit that is applied without being reported changes the tables and fails.
      have hruns : RunsAtMost host request app tables changed := .inr ⟨dto, call, hcall, hafter⟩
      unfold Store.executeAt at hexecute
      split at hexecute
      · exact absurd (Prod.mk.inj hexecute).2.symm hsame
      · unfold transact at hexecute
        split at hexecute
        · exact absurd (Prod.mk.inj hexecute).2.symm hsame
        · exact absurd (Prod.mk.inj hexecute).2.symm hsame
        · cases hexecute
        · exact absurd (Prod.mk.inj hexecute).2.symm hsame
        · obtain ⟨hhalt, -⟩ := Prod.mk.inj hexecute
          obtain rfl := Except.error.inj hhalt
          exact .failed hruns
  · obtain rfl : changed = after := by rw [← hafter, hexecute]
    obtain ⟨hunder, hcommand, hrecord⟩ := receipt_of_execute hexecute
    rw [hcall.scope] at hunder
    obtain ⟨response, hresponse, happ, hrelease, hkey, hcommandId, hrecordId⟩ :=
      exists_receiptResponse hserves hunder
    simp only [Exec.lift, ok_bind, hresponse, Exec.ofExcept]
    rcases reply_send response with hinternal | ⟨bytes, hencode, hanswer⟩
    · rw [hinternal]
      exact .failed (.inr ⟨dto, call, hcall, hafter⟩)
    · rw [hanswer]
      exact .answered hcall hafter hencode {
        appId := happ
        releaseId := hrelease.trans hcall.release.symm
        requestKey := hkey.trans hcall.requestKey
        commandId := by rw [hcommandId, hcommand, hcall.commandId]
        recordId := by rw [hrecordId, hrecord, hcall.recordId]
        stored := hcall.requestKey ▸ hunder.stored }

theorem method_of_route {target : Route} (h : route request = some target) :
    request.method ≠ .options := by
  intro hoptions
  unfold route at h
  split at h <;> simp_all

theorem command_outcome (hserves : host.Serves tables) (hroute : route request = some (.commands app))
    (h : host.serve backend tables moments request = (answer, after)) :
    CommandOutcome host request app tables after answer := by
  have hmethod := method_of_route hroute
  rw [serve] at h
  cases hbudget : host.transportBudget request with
  | error refusal =>
      rw [hbudget] at h
      obtain ⟨rfl, rfl⟩ := Prod.mk.inj h
      obtain ⟨failure, hrefuses, rfl⟩ := transportBudget_refusal admits_refuses hmethod hbudget
      exact .of_refuses hrefuses
  | ok u =>
      rw [hbudget] at h
      simp only [hroute, command] at h
      cases hcall : host.commandCall backend moments request app with
      | error failure =>
          rw [hcall] at h
          obtain ⟨rfl, rfl⟩ := Prod.mk.inj h
          have hfailure : Yields (fun _ => True) Refuses
              (host.commandCall backend moments request app) := refuses_commandCall backend moments
          rw [hcall] at hfailure
          exact .of_refuses hfailure
      | ok call =>
          obtain ⟨dto, hfor⟩ := callFor_of_commandCall hcall
          rw [hcall] at h
          obtain ⟨rfl, rfl⟩ := Prod.mk.inj h
          exact outcome_of_call hserves hfor rfl

/-- The app that the host serves and all receipts are left as they are. -/
structure Keeps (host : HostState) (tables after : Tables) : Prop where
  load : host.store.load after host.scope = host.store.load tables host.scope
  receipts : ∀ appId key, after.receiptsUnder appId key = tables.receiptsUnder appId key

/-- The command in the body is committed: it expects the revision that it finds, and leaves the
next one and a receipt under its key. -/
structure CommitsFor (host : HostState) (request : HttpRequest) (app : String)
    (tables after : Tables) (dto : CommandRequestDto) : Prop where
  body : ∃ bytes, request.body = some bytes ∧ Wire.decode host.tokenizer bytes = .ok dto
  app : app = host.scope.appId.text
  step : ∃ before current, host.store.load tables host.scope = .ok before ∧
    host.store.load after host.scope = .ok current ∧
      dto.expectedRevision.revision = before.revision ∧
        current.revision.val = before.revision.val + 1 ∧
          current.specIdentity = before.specIdentity
  receipts : ∃ row, after.receipts = tables.receipts ++ [row] ∧ row.appId = host.scope.appId ∧
    row.requestKey = dto.requestKey

theorem Keeps.refl (host : HostState) (tables : Tables) : host.Keeps tables tables :=
  ⟨rfl, fun _ _ => rfl⟩

theorem CommitsFor.receiptsUnder {dto : CommandRequestDto}
    (h : CommitsFor host request app tables after dto) :
    ∃ row, ∀ appId key, after.receiptsUnder appId key = tables.receiptsUnder appId key ++
      if host.scope.appId = appId ∧ dto.requestKey = key then [row] else [] := by
  obtain ⟨row, hreceipts, happ, hkey⟩ := h.receipts
  refine ⟨row, fun appId key => ?_⟩
  rw [receiptsUnder_append hreceipts, happ, hkey]

theorem RunsAtMost.commits (hserves : host.Serves tables)
    (h : RunsAtMost host request app tables after) (hchanged : after ≠ tables) :
    ∃ dto, CommitsFor host request app tables after dto := by
  obtain ⟨dto, call, hcall, rfl⟩ := h.resolve_left hchanged
  obtain ⟨before, hload, -⟩ := hserves.loads
  obtain ⟨current, hcurrent, hadvances⟩ := advances_of_changed hload hserves.tenant
    (congrArg Scope.appId hcall.scope) hchanged
  obtain ⟨row, hreceipts, happ, hkey⟩ := hadvances.receipts
  exact ⟨dto, hcall.body, hcall.app, ⟨before, current, hload, hcurrent,
    hcall.expectedRevision.symm.trans hadvances.expected, hadvances.revision, hadvances.identity⟩,
    row, hreceipts, happ, hkey.trans hcall.requestKey⟩

theorem RunsAtMost.effect (hserves : host.Serves tables)
    (h : RunsAtMost host request app tables after) :
    host.Keeps tables after ∨ ∃ dto, CommitsFor host request app tables after dto := by
  by_cases hchanged : after = tables
  · exact .inl (hchanged ▸ .refl host _)
  · exact .inr (h.commits hserves hchanged)

theorem CommandOutcome.runs (h : CommandOutcome host request app tables after answer) :
    RunsAtMost host request app tables after := by
  cases h with
  | answered hcall hafter hencode hreceipt => exact .inr ⟨_, _, hcall, hafter⟩
  | failed hruns => exact hruns
  | refused hrefuses hne hsame => exact .inl hsame
  | dropped hsame => exact .inl hsame

theorem Serves.step (hserves : host.Serves tables) (call : StoreCall) :
    host.Serves (host.store.step tables call).2 := by
  refine ⟨hserves.tenant, ?_⟩
  obtain ⟨before, hload, hidentity⟩ := hserves.loads
  rcases step_advances hload hserves.tenant call with ⟨_, current, _, hcurrent, hadvances⟩ | ⟨hsame, -⟩
  · exact ⟨current, hcurrent, hadvances.identity.trans hidentity⟩
  · exact ⟨before, hsame, hidentity⟩

theorem Serves.runs (hserves : host.Serves tables) (h : RunsAtMost host request app tables after) :
    host.Serves after := by
  rcases h with rfl | ⟨dto, call, -, rfl⟩
  · exact hserves
  · exact hserves.step (.execute call)

theorem serve_reads (hroute : ∀ app, route request ≠ some (.commands app)) :
    (host.serve backend tables moments request).2 = tables := by
  unfold serve
  split
  · rfl
  · split
    · rfl
    · rfl
    · rfl
    · rfl
    · rename_i hcommands
      exact absurd hcommands (hroute _)
    · rfl

def OnFailure (P : ApiFailure → Prop) (halt : Halt ApiFailure) : Prop :=
  ∀ failure, halt = .fail failure → P failure

section Receipts

variable {P : ApiFailure → Prop}

theorem onFailure_fail {failure : ApiFailure} (h : P failure) : OnFailure P (.fail failure) := by
  rintro other heq
  obtain rfl := Halt.fail.inj heq
  exact h

theorem onFailure_ofExcept {α : Type} {x : Except ApiFailure α} (h : Yields (fun _ => True) P x) :
    Yields (fun a => x = .ok a) (OnFailure P) (Exec.ofExcept id x) := by
  cases x with
  | ok a => rfl
  | error failure => exact onFailure_fail h

theorem onFailure_lift {α : Type} {x : Exec StoreError α}
    (h : ∀ error, x = .error (.fail error) → P (.storage error)) :
    Yields (fun a => x = .ok a) (OnFailure P) (Exec.lift ApiFailure.storage x) := by
  cases x with
  | ok a => rfl
  | error halt =>
      cases halt with
      | fail error => exact onFailure_fail (h error rfl)
      | panic site => intro failure heq; cases heq
      | diverge => intro failure heq; cases heq

theorem yields_receiptResponse (hP : Admits P) (receipt : CommitReceipt) :
    Yields (fun _ => True) P (host.receiptResponse receipt) :=
  (yields_rejectIf hP.conflict).bind fun _ _ => trivial

def receiptCall (host : HostState) (backend : Backend) (moments : Moments) (key : String)
    (caller : Caller) : ReceiptCall :=
  ⟨host.authority fun i => moments (i + 2), caller, key, backend⟩

theorem yields_receipt (hP : Admits P)
    (hstorage : ∀ caller, host.Authorized request app .write false (moments 1) caller →
      ∀ error, host.store.receipt tables (host.receiptCall backend moments key caller) =
        .error (.fail error) → P (.storage error))
    (hnone : ∀ caller, host.Authorized request app .write false (moments 1) caller →
      host.store.receipt tables (host.receiptCall backend moments key caller) = .ok none →
        P .notFound) :
    Yields (fun _ => True) (OnFailure P) (host.receipt backend tables moments request app key) := by
  refine (onFailure_ofExcept (yields_authorize hP _ _ _ _)).bind fun caller hcaller =>
    (onFailure_ofExcept (yields_noQuery hP)).bind fun _ _ =>
      (yields_rejectIf (onFailure_fail hP.validation)).bind fun _ _ => ?_
  have hauthorized := authorized_of_authorize hcaller
  refine (onFailure_lift (hstorage caller hauthorized)).bind fun committed hcommitted => ?_
  cases committed with
  | none => exact onFailure_fail (hnone caller hauthorized hcommitted)
  | some receipt =>
      exact (onFailure_ofExcept (yields_receiptResponse hP receipt)).mono (fun _ _ => trivial)
        fun _ h => h

/-- The authority that a query for a receipt finds when it opens. -/
def QueriesAs (host : HostState) (moments : Moments) (request : HttpRequest) (app : String)
    (context : TrustedContext) : Prop :=
  ∃ caller, host.Authorized request app .write false (moments 1) caller ∧
    (host.verifier.asked (moments 2)).resolve caller .write = .ok context

theorem missing_of_receipt_eq_none {caller : Caller}
    (hauthorized : host.Authorized request app .write false (moments 1) caller)
    (h : host.store.receipt tables (host.receiptCall backend moments key caller) = .ok none) :
    ∃ context, host.QueriesAs moments request app context ∧
      ∀ row ∈ tables.receipts, row.key ≠ (host.scope.appId, context.actor, key) := by
  obtain ⟨context, hopening, hnone⟩ := receipt_eq_none h
  rw [show (host.receiptCall backend moments key caller).caller = caller from rfl,
    hauthorized.scope] at hnone
  exact ⟨context, ⟨caller, hauthorized, hopening⟩, hnone⟩

theorem of_receipt (hserves : host.Serves tables) {response : ReceiptResponseDto}
    (h : host.receipt backend tables moments request app key = .ok response) :
    ∃ context, host.QueriesAs moments request app context ∧ app = host.scope.appId.text ∧
      response.appId = host.scope.appId ∧ response.requestKey = key ∧
      ∃ row ∈ tables.receipts, row.key = (host.scope.appId, context.actor, key) := by
  simp only [receipt, bind_eq_ok, Exec.ofExcept_eq_ok, Exec.lift_eq_ok, okOr_eq_ok] at h
  obtain ⟨caller, hcaller, -, -, -, -, _, hrecover, committed, rfl, hresponse⟩ := h
  have hauthorized := authorized_of_authorize hcaller
  have hunder := receipt_of_recovery hrecover
  obtain ⟨-, -, -, snapshot, prepared, intent, stored, envelope, hopened, -, hloaded, -⟩ :=
    receipt_eq_some.1 hrecover
  rw [hauthorized.scope] at hunder hloaded
  obtain ⟨built, hbuilt, happ, -, hkey, -, -⟩ := exists_receiptResponse hserves hunder
  obtain rfl := Except.ok.inj (hbuilt.symm.trans hresponse)
  exact ⟨prepared.context, ⟨caller, hauthorized, hopened.opening⟩, hauthorized.app, happ, hkey,
    exists_row_of_loadReceipt hloaded⟩

/-- A query is answered with its response, or with a failure that it can fail with. -/
theorem receipt_answer (hP : Admits P)
    (hreceipt : Yields (fun _ => True) (OnFailure P)
      (host.receipt backend tables moments request app key))
    (hroute : route request = some (.receipt app key)) {reply : HttpReply}
    (h : (host.serve backend tables moments request).1 = some reply) :
    (∃ response bytes, host.receipt backend tables moments request app key = .ok response ∧
      Wire.encode response = .ok bytes ∧ reply = ⟨200, bytes⟩) ∨
      ∃ failure : ApiFailure, P failure ∧ reply = failure.intoResponse := by
  rw [serve] at h
  cases hbudget : host.transportBudget request with
  | error refusal =>
      rw [hbudget] at h
      obtain rfl := Option.some.inj h
      exact .inr (transportBudget_refusal hP (method_of_route hroute) hbudget)
  | ok u =>
      rw [hbudget] at h
      simp only [hroute] at h
      cases hresponse : host.receipt backend tables moments request app key with
      | error halt =>
          rw [hresponse] at h hreceipt
          cases halt with
          | fail failure => exact .inr ⟨failure, hreceipt failure rfl, (Option.some.inj h).symm⟩
          | panic site => cases h
          | diverge => cases h
      | ok response =>
          rw [hresponse] at h
          rcases reply_send response with hinternal | ⟨bytes, hencode, hanswer⟩
          · exact .inr ⟨.internal, hP.internal, Option.some.inj (h.symm.trans hinternal)⟩
          · exact .inl ⟨response, bytes, rfl, hencode, Option.some.inj (h.symm.trans hanswer)⟩

/-- A receipt that is sent for a key is the receipt of the actor under the key. -/
theorem serve_receipt (hserves : host.Serves tables)
    (hroute : route request = some (.receipt app key)) {status : Nat} {payload : List UInt8}
    (h : (host.serve backend tables moments request).1 = some ⟨status, payload⟩)
    (hstatus : status < 300) :
    app = host.scope.appId.text ∧ ∃ (context : TrustedContext) (response : ReceiptResponseDto),
      host.QueriesAs moments request app context ∧ Wire.encode response = .ok payload ∧
      response.appId = host.scope.appId ∧ response.requestKey = key ∧
      ∃ row ∈ tables.receipts, row.key = (host.scope.appId, context.actor, key) := by
  have hreceipt : Yields (fun _ => True) (OnFailure Refuses)
      (host.receipt backend tables moments request app key) :=
    yields_receipt admits_refuses (fun _ _ error _ => ApiFailure.status_storage_ge error)
      fun _ _ _ => by decide
  rcases receipt_answer admits_refuses hreceipt hroute h with
    ⟨response, bytes, hresponse, hencode, heq⟩ | ⟨failure, hrefuses, heq⟩
  · obtain rfl : payload = bytes := congrArg HttpReply.payload heq
    obtain ⟨context, hqueries, happ, hresponseApp, hkey, hrow⟩ := of_receipt hserves hresponse
    exact ⟨happ, context, response, hqueries, hencode, hresponseApp, hkey, hrow⟩
  · have hsame : status = failure.status := congrArg HttpReply.status heq
    rw [Refuses, ← hsame] at hrefuses
    omega

/-- A query that is answered with 404 has no receipt of the actor under the key. -/
theorem serve_missing (hserves : host.Serves tables)
    (hroute : route request = some (.receipt app key)) {payload : List UInt8}
    (h : (host.serve backend tables moments request).1 = some ⟨404, payload⟩) :
    ∃ context, host.QueriesAs moments request app context ∧
      ∀ row ∈ tables.receipts, row.key ≠ (host.scope.appId, context.actor, key) := by
  obtain ⟨snapshot, hload, -⟩ := hserves.loads
  have hreceipt : Yields (fun _ => True) (OnFailure fun failure => failure.status = 404 →
      ∃ context, host.QueriesAs moments request app context ∧
        ∀ row ∈ tables.receipts, row.key ≠ (host.scope.appId, context.actor, key))
      (host.receipt backend tables moments request app key) := by
    refine yields_receipt (admits_of_status _) (fun caller hauthorized error herror hstatus => ?_)
      fun caller hauthorized hnone _ => missing_of_receipt_eq_none hauthorized hnone
    have hfound : Yields (fun _ => True) (· ≠ .fail .appNotFound) (host.store.receipt tables
        (host.receiptCall backend moments key caller)) :=
      receipt_ne_appNotFound (hauthorized.scope.symm ▸ hload)
    rw [herror, ApiFailure.eq_appNotFound_of_status hstatus] at hfound
    exact absurd rfl hfound
  rcases receipt_answer (admits_of_status _) hreceipt hroute h with
    ⟨response, bytes, -, -, heq⟩ | ⟨failure, hmissing, heq⟩
  · cases congrArg HttpReply.status heq
  · exact hmissing (congrArg HttpReply.status heq).symm

end Receipts

/-- What an answer of the host tells of its store. Only a command changes the tables: it adds one
receipt, under its key and the app of the host, and is answered with a success or with an error of
the host. A command that is answered with 200 has its receipt in the tables. A query for a receipt
that is answered tells whether the actor that it asks for has one under the key. -/
structure Tells (host : HostState) (moments : Moments) (request : HttpRequest)
    (tables after : Tables) (answer : Option HttpReply) : Prop where
  serves : host.Serves after
  changed : after ≠ tables → ∃ app dto, route request = some (.commands app) ∧
    CommitsFor host request app tables after dto ∧
    (answer = some ApiFailure.internal.intoResponse ∨ ∃ payload, answer = some ⟨200, payload⟩)
  committed : ∀ app payload, route request = some (.commands app) → answer = some ⟨200, payload⟩ →
    ∃ bytes dto response, request.body = some bytes ∧ Wire.decode host.tokenizer bytes = .ok dto ∧
      Wire.encode response = .ok payload ∧ ReceiptOf host after dto response
  recovered : ∀ app key status payload, route request = some (.receipt app key) →
    answer = some ⟨status, payload⟩ → status < 300 →
    ∃ (context : TrustedContext) (response : ReceiptResponseDto),
      host.QueriesAs moments request app context ∧ Wire.encode response = .ok payload ∧
      response.appId = host.scope.appId ∧ response.requestKey = key ∧
      ∃ row ∈ after.receipts, row.key = (host.scope.appId, context.actor, key)
  missing : ∀ app key payload, route request = some (.receipt app key) →
    answer = some ⟨404, payload⟩ → ∃ context, host.QueriesAs moments request app context ∧
      ∀ row ∈ after.receipts, row.key ≠ (host.scope.appId, context.actor, key)

theorem CommandOutcome.tells (hserves : host.Serves tables)
    (hroute : route request = some (.commands app))
    (h : CommandOutcome host request app tables after answer) :
    Tells host moments request tables after answer where
  serves := hserves.runs h.runs
  changed hchanged := by
    obtain ⟨dto, hcommits⟩ := h.runs.commits hserves hchanged
    refine ⟨app, dto, hroute, hcommits, ?_⟩
    cases h with
    | answered hcall hafter hencode hreceipt => exact .inr ⟨_, rfl⟩
    | failed hruns => exact .inl rfl
    | refused hrefuses hne hsame => exact absurd hsame hchanged
    | dropped hsame => exact absurd hsame hchanged
  committed := by
    rintro other payload - hanswer
    cases h with
    | answered hcall hafter hencode hreceipt =>
        obtain ⟨bytes, hbody, hdecode⟩ := hcall.body
        obtain rfl := congrArg HttpReply.payload (Option.some.inj hanswer)
        exact ⟨bytes, _, _, hbody, hdecode, hencode, hreceipt⟩
    | failed hruns =>
        have hstatus : ApiFailure.internal.status = 200 :=
          congrArg HttpReply.status (Option.some.inj hanswer)
        cases hstatus
    | refused hrefuses hne hsame =>
        rename_i failure
        have hstatus : failure.status = 200 := congrArg HttpReply.status (Option.some.inj hanswer)
        rw [Refuses, hstatus] at hrefuses
        omega
    | dropped hsame => cases hanswer
  recovered := by
    rintro other key status payload hother
    rw [hroute] at hother
    cases hother
  missing := by
    rintro other key payload hother
    rw [hroute] at hother
    cases hother

/-- What the host answers to any request says what the request has done to the store. -/
theorem serve_tells (hserves : host.Serves tables) : Tells host moments request tables
    (host.serve backend tables moments request).2 (host.serve backend tables moments request).1 := by
  rcases hserve : host.serve backend tables moments request with ⟨answer, after⟩
  by_cases hcommands : ∃ app, route request = some (.commands app)
  · obtain ⟨app, hroute⟩ := hcommands
    exact (command_outcome hserves hroute hserve).tells hserves hroute
  · have hroute : ∀ app, route request ≠ some (.commands app) := fun app h => hcommands ⟨app, h⟩
    have hsame : (host.serve backend tables moments request).2 = tables := serve_reads hroute
    have hanswer : (host.serve backend tables moments request).1 = answer :=
      congrArg Prod.fst hserve
    rw [hserve] at hsame
    change after = tables at hsame
    subst hsame
    exact {
      serves := hserves
      changed := fun hchanged => absurd rfl hchanged
      committed := fun app payload h => absurd h (hroute app)
      recovered := fun app key status payload h hreply hstatus =>
        (serve_receipt hserves h (hanswer.trans hreply) hstatus).2
      missing := fun app key payload h hreply => serve_missing hserves h (hanswer.trans hreply) }

end Commands

end HostState

theorem serves_firstRows (store : Store) {spec : CheckedAppSpec} {facts : CheckedRecords}
    {records : List RawRecord} (htenant : ticketScope.tenantId = store.tenantId)
    (h : validateRecords spec.definition ticketScope records = .ok facts) :
    (pilotHost store (spec.identity store)).Serves (store.firstRows spec facts) :=
  ⟨htenant, _, Store.load_firstRows h, rfl⟩

def ticketPilot : HostState := pilotHost digestStore (ticketSpec.identity digestStore)

def firstTables : Tables := digestStore.firstRows ticketSpec ticketFacts

def closeMessage : CommandRequestDto where
  apiVersion := apiVersionNumber
  commandId := cmdClose.text
  recordId := recA
  params := .ofList [(fldN, .text "done")]
  requestKey := "k"
  expectedRevision := ⟨U64.one⟩
  releaseId := ticketSpec.identity digestStore

def pilotHeaders : List (String × String) :=
  [("authorization", "Bearer " ++ pilotCaller.credential), ("content-type", "application/json")]

def closeRequest : HttpRequest :=
  ⟨.post, ["v1", "apps", ticketScope.appId.text, "commands"], none, 0, pilotHeaders,
    some closeMessage.toJson.print⟩

def receiptRequest (key : String) : HttpRequest :=
  ⟨.get, ["v1", "apps", ticketScope.appId.text, "receipts", key], none, 0, pilotHeaders, none⟩

theorem closeRequest_check :
    (ticketPilot.serve (.up .applied) firstTables pilotMoments closeRequest).1.map (·.status) =
      some 200 ∧
    (ticketPilot.serve (.up .applied)
      (ticketPilot.serve (.up .applied) firstTables pilotMoments closeRequest).2 pilotMoments
      (receiptRequest "k")).1.map (·.status) = some 200 ∧
    (ticketPilot.serve (.up .applied) firstTables pilotMoments (receiptRequest "k")).1.map
      (·.status) = some 404 := by
  decide +kernel

theorem exists_payload_of_status {answer : Option HttpReply} {status : Nat}
    (h : answer.map (·.status) = some status) : ∃ payload, answer = some ⟨status, payload⟩ := by
  obtain ⟨reply, rfl, rfl⟩ := Option.map_eq_some_iff.1 h
  exact ⟨reply.payload, rfl⟩

/-- The ticket is closed: its key has no receipt before and has one after. -/
theorem serve_tells_tickets : ∃ after closed found missing,
    ticketPilot.serve (.up .applied) firstTables pilotMoments closeRequest =
      (some ⟨200, closed⟩, after) ∧
    ticketPilot.Tells pilotMoments closeRequest firstTables after (some ⟨200, closed⟩) ∧
    ticketPilot.Tells pilotMoments (receiptRequest "k") after after (some ⟨200, found⟩) ∧
    ticketPilot.Tells pilotMoments (receiptRequest "k") firstTables firstTables
      (some ⟨404, missing⟩) := by
  have hfacts : validateRecords ticketSpec.definition ticketScope ticketFacts.records =
      .ok ticketFacts := by decide +kernel
  have hserves : ticketPilot.Serves firstTables := serves_firstRows digestStore rfl hfacts
  rcases hclose : ticketPilot.serve (.up .applied) firstTables pilotMoments closeRequest with
    ⟨answer, after⟩
  obtain ⟨hclosed, hfound, hmissing⟩ := closeRequest_check
  rw [hclose] at hclosed hfound
  obtain ⟨closed, rfl⟩ := exists_payload_of_status hclosed
  obtain ⟨found, hfound⟩ := exists_payload_of_status hfound
  obtain ⟨missing, hmissing⟩ := exists_payload_of_status hmissing
  have htells : ticketPilot.Tells pilotMoments closeRequest firstTables
      (ticketPilot.serve (.up .applied) firstTables pilotMoments closeRequest).2
      (ticketPilot.serve (.up .applied) firstTables pilotMoments closeRequest).1 :=
    HostState.serve_tells hserves
  rw [hclose] at htells
  have hquery : ∀ {tables : Tables}, ticketPilot.Serves tables →
      ticketPilot.Tells pilotMoments (receiptRequest "k") tables tables
        (ticketPilot.serve (.up .applied) tables pilotMoments (receiptRequest "k")).1 := by
    intro tables htables
    have hsame : (ticketPilot.serve (.up .applied) tables pilotMoments
        (receiptRequest "k")).2 = tables :=
      HostState.serve_reads (by simp [HostState.route, receiptRequest])
    have hboth : ticketPilot.Tells pilotMoments (receiptRequest "k") tables
        (ticketPilot.serve (.up .applied) tables pilotMoments (receiptRequest "k")).2
        (ticketPilot.serve (.up .applied) tables pilotMoments (receiptRequest "k")).1 :=
      HostState.serve_tells htables
    rwa [hsame] at hboth
  exact ⟨after, closed, found, missing, rfl, htells, hfound ▸ hquery htells.serves,
    hmissing ▸ hquery hserves⟩

end Evobase
