import Evobase.Host.Request

/-!
# The host of one app

A host serves one app of its store, at the release that it has found there when it started.
Every request is authenticated before anything is read for it; `authorize` gives the caller
under whose authority the rest of the request is carried out.
-/

namespace Evobase

open Foundation

/-- A host, with the JSON library that it decodes bodies with. -/
structure HostState where
  store : Store
  scope : Scope
  verifier : PilotVerifier
  releaseId : String
  tokenizer : JsonTokenizer

/-- The moments at which an operation asks for the time and for the access facts. -/
abbrev Moments := Nat → Moment

/-- A snapshot for a reader, from a database that may be down. -/
def Store.read (store : Store) (backend : Backend) (tables : Tables) (scope : Scope) :
    Exec StoreError Snapshot := do
  store.checkScope scope
  rejectIf (backend = .down) (.fail .database)
  store.load tables scope

namespace HostState

def maxRequestBytes : Nat := 262144
def maxResponseBytes : Nat := 1048576
def maxHeaders : Nat := 32
def maxHeaderBytes : Nat := 8192
def maxUriBytes : Nat := 512

/-- The host of an app, pinned to the release that the store has at its start. -/
def new (store : Store) (scope : Scope) (verifier : PilotVerifier) (tokenizer : JsonTokenizer)
    (tables : Tables) : Exec StoreError HostState := do
  let snapshot ← store.snapshot tables scope
  .ok ⟨store, scope, verifier, snapshot.specIdentity, tokenizer⟩

variable (host : HostState)

/-- The caller of a request that has the grant. A mutation from a browser keeps its origin. -/
def authorize (request : HttpRequest) (app : String) (grant : Grant) (mutation : Bool)
    (clock : Option U64) (moment : Moment) : Except ApiFailure Caller := do
  let token ← request.credential
  let origin ← request.origin
  rejectIf (origin.any fun origin => !host.verifier.allowsOrigin origin) .denied
  let channel := if mutation && origin.isSome then .browserMutation origin else .nativeBearer
  let now ← okOr .internal clock
  let caller : Caller := ⟨token, host.scope, channel, now⟩
  let _ ← renameError (fun _ => .denied) ((host.verifier.asked moment).resolve caller grant)
  rejectIf (app ≠ host.scope.appId.text) .denied
  .ok caller

def snapshot (backend : Backend) (tables : Tables) : Exec ApiFailure Snapshot := do
  let snapshot ← Exec.lift .storage (host.store.read backend tables host.scope)
  rejectIf (snapshot.specIdentity ≠ host.releaseId) (.fail .conflict)
  .ok snapshot

/-- The checks of a request as a whole, and the answer to a request for the options: what is
answered before any handler runs. -/
def transportBudget (request : HttpRequest) : Except HttpReply Unit := do
  let headerBytes :=
    (request.headers.map fun header => header.1.utf8ByteSize + header.2.length).sum
  rejectIf (request.headers.length > maxHeaders ∨ headerBytes > maxHeaderBytes ∨
    request.uriBytes > maxUriBytes) ApiFailure.validation.intoResponse
  rejectIf ((request.getAll "origin").length > 1 ∨ (request.getAll "content-type").length > 1)
    ApiFailure.validation.intoResponse
  let origin := (request.getAll "origin").head?
  rejectIf (origin.any fun value => !(HttpRequest.toStr value).any host.verifier.allowsOrigin)
    ApiFailure.denied.intoResponse
  if request.method = .options then
    rejectIf (origin = none) ApiFailure.denied.intoResponse
    .error ⟨204, []⟩
  else .ok ()

/-- The caller of an authorized request presents its token in the scope of the host, comes from
an origin that the host allows, and has the grant. -/
structure Authorized (request : HttpRequest) (app : String) (grant : Grant) (mutation : Bool)
    (moment : Moment) (caller : Caller) : Prop where
  credential : request.credential = .ok caller.credential
  scope : caller.scope = host.scope
  origin : ∃ origin, request.origin = .ok origin ∧
    (∀ text, origin = some text → host.verifier.allowsOrigin text = true) ∧
    caller.channel =
      if mutation && origin.isSome then .browserMutation origin else .nativeBearer
  resolved : ∃ context, (host.verifier.asked moment).resolve caller grant = .ok context
  app : app = host.scope.appId.text

theorem authorized_of_authorize {host : HostState} {request : HttpRequest} {app : String}
    {grant : Grant} {mutation : Bool} {clock : Option U64} {moment : Moment} {caller : Caller}
    (h : host.authorize request app grant mutation clock moment = .ok caller) :
    host.Authorized request app grant mutation moment caller := by
  simp only [authorize, bind_eq_ok, rejectIf_eq_ok, okOr_eq_ok, renameError_eq_ok, ne_eq, not_not,
    Except.ok.injEq] at h
  obtain ⟨token, htoken, origin, horigin, -, hallowed, now, -, context, hresolve, -, happ, rfl⟩ := h
  refine ⟨htoken, rfl, ⟨origin, horigin, ?_, rfl⟩, ⟨context, hresolve⟩, happ⟩
  rintro text rfl
  simpa using hallowed

end HostState

end Evobase
