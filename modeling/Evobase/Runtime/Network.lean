import Evobase.Runtime.Client

/-!
# The page and its servers

The page sends its requests over a network that does not duplicate them. A request may reach its
server after the page has given it up, or never, and so may a reply. Other clients call the stores
of the servers meanwhile. Whatever happens, a submitted attempt is committed at most once, and the
page forgets it only when it knows the outcome.

`NetworkFacts` connects the requests on their way with the receipts in the tables: a receipt under
a key that the page has drawn was written by a request of the page with that key. Keys are drawn
fresh, and no other client uses them (`System.Fresh`).
-/

namespace Evobase.Runtime

open Foundation

/-- The host that answers at an address, with its database. -/
structure Server where
  host : HostState
  tables : Tables

/-- What has become of a request. A connection that is dropped has no reply. -/
inductive Transit where
  | onWay
  | executed (reply : Option HttpReply)

structure Exchange where
  call : Call
  transit : Transit

/-- The request of a call as it reaches the server, with the headers that a browser adds. -/
def Call.toRequest (call : Call) (added : List (String × String)) (uriBytes : Nat) :
    HttpRequest where
  method := call.method
  path := call.path
  query := call.query
  uriBytes := uriBytes
  headers := ("authorization", "Bearer " ++ call.credential) ::
    (if call.method = .post then [("content-type", "application/json")] else []) ++ added
  body := some (Json.utf8 call.body.toList)

/-- The page, its exchanges by their numbers, and the servers. -/
structure System where
  client : Client
  exchanges : Nat → Option Exchange
  servers : Nat → Server

/-- What the system rests on: the JSON library, the check of the browser for an address, and the
server that answers at an address. -/
structure Network where
  tokenizer : JsonTokenizer
  validBase : String → Bool
  origin : String → Nat

inductive Action where
  | user (event : Event)
  | execute (n : Nat) (backend : Backend) (moments : Moments) (added : List (String × String))
      (uriBytes : Nat)
  | reply (n : Nat)
  | fail (n : Nat)
  | other (i : Nat) (call : StoreCall)

namespace System

def start (page : Page) (servers : Nat → Server) : System := ⟨.start page, fun _ => none, servers⟩

/-- The client goes on, and the request of the task that it starts is on its way. -/
def proceed (s : System) (client : Client) : System where
  client := client
  exchanges := Function.update s.exchanges s.client.desk.sent
    ((client.desk.tasks s.client.desk.sent).map fun task => ⟨task.call, .onWay⟩)
  servers := s.servers

def setTables (s : System) (i : Nat) (tables : Tables) : System :=
  { s with servers := Function.update s.servers i { s.servers i with tables } }

/-- A request has been carried out by a server. -/
def executed (s : System) (n i : Nat) (call : Call) (reply : Option HttpReply) (after : Tables) :
    System :=
  { s.setTables i after with
    exchanges := Function.update s.exchanges n (some ⟨call, .executed reply⟩) }

/-- The server of a request that is on its way carries it out. -/
def execute (net : Network) (s : System) (n : Nat) (backend : Backend) (moments : Moments)
    (added : List (String × String)) (uriBytes : Nat) (call : Call) : System :=
  let i := net.origin call.base
  let (reply, after) := (s.servers i).host.serve backend (s.servers i).tables moments
    (call.toRequest added uriBytes)
  s.executed n i call reply after

def step (net : Network) (s : System) : Action → Option System
  | .user event => (s.client.act net.validBase event).map s.proceed
  | .execute n backend moments added uriBytes =>
      match s.exchanges n with
      | some ⟨call, .onWay⟩ => some (s.execute net n backend moments added uriBytes call)
      | _ => none
  | .reply n =>
      match s.exchanges n with
      | some ⟨_, .executed reply⟩ => (s.client.answer net.tokenizer n reply).map s.proceed
      | _ => none
  | .fail n => (s.client.answer net.tokenizer n none).map s.proceed
  | .other i call =>
      some (s.setTables i ((s.servers i).host.store.step (s.servers i).tables call).2)

def receipts (s : System) (i : Nat) (appId : AppId) (key : String) : List ReceiptRow :=
  (s.servers i).tables.receiptsUnder appId key

def history (s : System) : List Note := s.client.desk.history

/-- Keys are random: one that is drawn has not been used, and nobody else uses one that has been
submitted. -/
def Fresh (s : System) : Action → Prop
  | .user (.submit (some key)) =>
      (∀ attempt, .submitted attempt ∈ s.history → attempt.request.requestKey ≠ key) ∧
        ∀ i appId, s.receipts i appId key = []
  | .other _ call => ∀ attempt, .submitted attempt ∈ s.history →
      call.uses ≠ some attempt.request.requestKey
  | _ => True

end System

def Definite (tokenizer : JsonTokenizer) (reply : Option HttpReply) : Prop :=
  ∃ code, code ≠ .internal ∧ request tokenizer reply = .error (.api code)

section Replies

variable {tokenizer : JsonTokenizer} {reply : Option HttpReply}

theorem runtimeHttp_eq_some {status : Nat} {raw : String}
    (h : runtimeHttp reply = some (status, raw)) : ∃ payload, reply = some ⟨status, payload⟩ ∧
      Json.stringOfBytes ((payload.dropPrefix? [239, 187, 191]).getD payload) = some raw := by
  obtain ⟨answer, rfl, hread⟩ := Option.bind_eq_some_iff.1 h
  split_ifs at hread
  obtain ⟨text, htext, heq⟩ := Option.map_eq_some_iff.1 hread
  obtain ⟨rfl, rfl⟩ := Prod.mk.inj heq
  exact ⟨answer.payload, rfl, htext⟩

theorem request_eq_ok {raw : String} (h : request tokenizer reply = .ok raw) :
    ∃ status payload, reply = some ⟨status, payload⟩ ∧ status < 300 := by
  rw [request, bind_eq_ok] at h
  obtain ⟨⟨status, text⟩, hread, hstatus⟩ := h
  obtain ⟨payload, hreply, -⟩ := runtimeHttp_eq_some (okOr_eq_ok.1 hread)
  split_ifs at hstatus with hsuccess
  · exact ⟨status, payload, hreply, hsuccess.2⟩
  · rw [bind_eq_ok] at hstatus
    obtain ⟨_, _, himpossible⟩ := hstatus
    cases himpossible

theorem request_eq_api {code : ErrorCodeDto} (h : request tokenizer reply = .error (.api code)) :
    ∃ status raw error, runtimeHttp reply = some (status, raw) ∧ ¬ (200 ≤ status ∧ status < 300) ∧
      Wire.decode tokenizer (Json.utf8 raw.toList) = .ok error ∧ ApiErrorDto.code error = code := by
  rw [request, bind_eq_error] at h
  rcases h with hnone | ⟨⟨status, raw⟩, hread, hstatus⟩
  · cases (okOr_eq_error.1 hnone).2
  · split_ifs at hstatus with hsuccess
    rw [bind_eq_error] at hstatus
    rcases hstatus with hprotocol | ⟨error, hdecode, hcode⟩
    · obtain ⟨_, _, himpossible⟩ := renameError_eq_error.1 hprotocol
      cases himpossible
    · exact ⟨status, raw, error, okOr_eq_ok.1 hread, hsuccess, renameError_eq_ok.1 hdecode,
        Failure.api.inj (Except.error.inj hcode)⟩

theorem not_definite_success {payload : List UInt8} :
    ¬ Definite tokenizer (some ⟨200, payload⟩) := by
  rintro ⟨code, -, hrequest⟩
  obtain ⟨status, raw, error, hread, hstatus, -, -⟩ := request_eq_api hrequest
  obtain ⟨read, hreply, -⟩ := runtimeHttp_eq_some hread
  have hsame : 200 = status := congrArg HttpReply.status (Option.some.inj hreply)
  exact hstatus (by omega)

theorem encode_internal : Wire.encode ApiFailure.internal.toDto =
    .ok (WireMessage.write ApiFailure.internal.toDto).print := by
  rw [Wire.encode_eq_ok]
  refine ⟨⟨rfl, rfl⟩, ?_, rfl⟩
  decide +kernel

theorem not_definite_internal : ¬ Definite tokenizer (some ApiFailure.internal.intoResponse) := by
  rintro ⟨code, hcode, hrequest⟩
  obtain ⟨status, raw, error, hread, -, hdecode, rfl⟩ := request_eq_api hrequest
  have hpayload : ApiFailure.internal.intoResponse.payload =
      (WireMessage.write ApiFailure.internal.toDto).print := by
    rw [ApiFailure.intoResponse, encode_internal]
  have hmark : (WireMessage.write ApiFailure.internal.toDto).print.dropPrefix? [239, 187, 191] =
      none := by decide +kernel
  obtain ⟨payload, hreply, hbytes⟩ := runtimeHttp_eq_some hread
  obtain rfl : payload = (WireMessage.write ApiFailure.internal.toDto).print := by
    rw [← hpayload, Option.some.inj hreply]
  rw [hmark, Option.getD_none, Json.stringOfBytes_print] at hbytes
  obtain rfl := Option.some.inj hbytes
  rw [Json.utf8_text, (wireCodec tokenizer ApiErrorDto).decode_encode _ _ encode_internal] at hdecode
  obtain rfl := Except.ok.inj hdecode
  exact hcode rfl

end Replies

def Attempt.post (attempt : Attempt) (credential : String) : Call :=
  ⟨attempt.config.base, .post, ["v1", "apps", attempt.config.app.text, "commands"], none,
    credential, attempt.body⟩

namespace System

def load (s : System) (i : Nat) : Exec StoreError Snapshot :=
  (s.servers i).host.store.load (s.servers i).tables (s.servers i).host.scope

/-- The receipts under the key of an attempt where the attempt is to be committed. -/
def receiptsOf (net : Network) (s : System) (attempt : Attempt) : List ReceiptRow :=
  s.receipts (net.origin attempt.config.base) attempt.config.app attempt.request.requestKey

/-- A request that has been posted for the attempt has an answer with the property. -/
def Answered (s : System) (attempt : Attempt) (P : Option HttpReply → Prop) : Prop :=
  ∃ n call reply, .posted n attempt ∈ s.history ∧
    s.exchanges n = some ⟨call, .executed reply⟩ ∧ P reply

end System

/-- A receipt under the key of an attempt is the only one, and where the attempt is to be committed.
The app has passed the revision that the attempt expects, and the page has not been refused it. -/
structure Committed (net : Network) (s : System) (attempt : Attempt) (i : Nat) (appId : AppId) :
    Prop where
  origin : i = net.origin attempt.config.base
  app : appId = attempt.config.app
  once : ∃ row, s.receipts i appId attempt.request.requestKey = [row]
  passed : ∃ current, s.load i = .ok current ∧
    attempt.request.expectedRevision.revision.val < current.revision.val
  carried : s.Answered attempt fun reply => ¬ Definite net.tokenizer reply

structure NetworkFacts (net : Network) (s : System) : Prop where
  serves : ∀ i, (s.servers i).host.Serves (s.servers i).tables
  numbered : ∀ n exchange, s.exchanges n = some exchange → n < s.client.desk.sent
  awaited : ∀ n task, s.client.desk.tasks n = some task →
    ∃ transit, s.exchanges n = some ⟨task.call, transit⟩
  posts : ∀ n call transit, s.exchanges n = some ⟨call, transit⟩ → call.method = .post →
    ∃ attempt credential, .posted n attempt ∈ s.history ∧ call = attempt.post credential
  rows : ∀ attempt, .submitted attempt ∈ s.history → ∀ i appId,
    s.receipts i appId attempt.request.requestKey ≠ [] → Committed net s attempt i appId
  answered : ∀ n attempt credential recover generation call status payload,
    s.client.desk.tasks n = some (.dispatch attempt credential recover generation) →
      s.exchanges n = some ⟨call, .executed (some ⟨status, payload⟩)⟩ → status < 300 →
        s.receiptsOf net attempt ≠ []
  received : ∀ attempt receipt, .received attempt receipt ∈ s.history → s.receiptsOf net attempt ≠ []
  refused : ∀ attempt code, .refused attempt code ∈ s.history →
    s.Answered attempt (Definite net.tokenizer)

/-- What a step leaves of the system. -/
structure Extends (s t : System) : Prop where
  hosts : ∀ i, (t.servers i).host = (s.servers i).host
  revisions : ∀ i before, s.load i = .ok before →
    ∃ current, t.load i = .ok current ∧ before.revision.val ≤ current.revision.val
  executed : ∀ n call reply, s.exchanges n = some ⟨call, .executed reply⟩ →
    t.exchanges n = some ⟨call, .executed reply⟩
  history : ∃ more, t.history = s.history ++ more

section Steps

variable {net : Network} {s t : System} {attempt : Attempt}

theorem Extends.mem (h : Extends s t) {note : Note} (hnote : note ∈ s.history) : note ∈ t.history := by
  obtain ⟨more, heq⟩ := h.history
  rw [heq]
  exact List.mem_append_left _ hnote

theorem Extends.answered (h : Extends s t) {P : Option HttpReply → Prop}
    (hanswered : s.Answered attempt P) : t.Answered attempt P := by
  obtain ⟨n, call, reply, hposted, hexecuted, hreply⟩ := hanswered
  exact ⟨n, call, reply, h.mem hposted, h.executed n call reply hexecuted, hreply⟩

theorem Committed.extends {i : Nat} {appId : AppId} (h : Committed net s attempt i appId)
    (hextends : Extends s t)
    (hrows : t.receipts i appId attempt.request.requestKey =
      s.receipts i appId attempt.request.requestKey) : Committed net t attempt i appId := by
  obtain ⟨before, hbefore, hpassed⟩ := h.passed
  obtain ⟨current, hcurrent, hle⟩ := hextends.revisions i before hbefore
  exact ⟨h.origin, h.app, hrows ▸ h.once, ⟨current, hcurrent, hpassed.trans_le hle⟩,
    hextends.answered h.carried⟩

/-- What may be noted in a state. -/
inductive NoteSound (net : Network) (s : System) : Note → Prop
  | submitted {attempt : Attempt} (hunused : ∀ i appId, s.receipts i appId attempt.request.requestKey = []) :
      NoteSound net s (.submitted attempt)
  | received {attempt : Attempt} {receipt} (hrows : s.receiptsOf net attempt ≠ []) :
      NoteSound net s (.received attempt receipt)
  | refused {attempt : Attempt} {code} (hanswered : s.Answered attempt (Definite net.tokenizer)) :
      NoteSound net s (.refused attempt code)

theorem exchanges_proceed {client : Client} {notes : List Note} {started : Option Task}
    (h : NetworkFacts net s) (hproceeds : Proceeds s.client.desk client.desk notes started)
    (hnumbered : ∀ n task, s.client.desk.tasks n = some task → n < s.client.desk.sent) {n : Nat}
    {exchange : Exchange} :
    (s.proceed client).exchanges n = some exchange ↔
      s.exchanges n = some exchange ∨ n = s.client.desk.sent ∧ ∃ task,
        client.desk.tasks n = some task ∧ started = some task ∧ exchange = ⟨task.call, .onWay⟩ := by
  by_cases hn : n = s.client.desk.sent
  · subst hn
    have hsent : (s.proceed client).exchanges s.client.desk.sent =
        (client.desk.tasks s.client.desk.sent).map fun task => ⟨task.call, .onWay⟩ :=
      Function.update_self _ _ _
    rw [hsent, Option.map_eq_some_iff]
    constructor
    · rintro ⟨task, htask, rfl⟩
      rcases hproceeds.tasks _ task htask with ⟨-, hstarted⟩ | hold
      · exact .inr ⟨rfl, task, htask, hstarted, rfl⟩
      · exact absurd (hnumbered _ task hold) (Nat.lt_irrefl _)
    · rintro (hold | ⟨-, task, htask, -, rfl⟩)
      · exact absurd (h.numbered _ exchange hold) (Nat.lt_irrefl _)
      · exact ⟨task, htask, rfl⟩
  · have hsame : (s.proceed client).exchanges n = s.exchanges n := Function.update_of_ne hn _ _
    rw [hsame]
    exact ⟨.inl, fun hold => hold.resolve_right fun hnew => hn hnew.1⟩

theorem dispatch_of_post {task : Task} (h : task.call.method = .post) :
    ∃ attempt credential generation, task = .dispatch attempt credential false generation := by
  cases task with
  | loadTable config table generation => cases h
  | loadApplication config generation => cases h
  | dispatch attempt credential recover generation =>
      cases recover with
      | false => exact ⟨attempt, credential, generation, rfl⟩
      | true => cases h

/-- The client goes on, noting what holds. -/
theorem NetworkFacts.proceed {k : Nat} {client : Client} {notes : List Note} {started : Option Task}
    (h : NetworkFacts net s)
    (hbefore : SessionFacts k s.client.page.state.session s.client.desk)
    (hproceeds : Proceeds s.client.desk client.desk notes started)
    (hnotes : ∀ note ∈ notes, NoteSound net s note) : NetworkFacts net (s.proceed client) := by
  have hexchange : ∀ n exchange, (s.proceed client).exchanges n = some exchange ↔ _ :=
    fun n exchange => exchanges_proceed h hproceeds hbefore.numbered
  have hmore : (s.proceed client).history = s.history ++ (notes ++ started.elim [] fun task =>
      task.posts s.client.desk.sent) := hproceeds.history.trans (List.append_assoc _ _ _)
  have hextends : Extends s (s.proceed client) := {
    hosts := fun _ => rfl
    revisions := fun i before hload => ⟨before, hload, le_refl _⟩
    executed := fun n call reply hold => (hexchange n _).2 (.inl hold)
    history := ⟨_, hmore⟩ }
  have hnoted : ∀ note ∈ (s.proceed client).history, note ∈ s.history ∨ NoteSound net s note ∨
      ∃ n attempt, note = .posted n attempt := by
    intro note hnote
    rw [hmore, List.mem_append, List.mem_append] at hnote
    rcases hnote with hold | hnew | hposts
    · exact .inl hold
    · exact .inr (.inl (hnotes note hnew))
    · cases started with
      | none => cases hposts
      | some task =>
          rcases Task.posts_eq s.client.desk.sent task with hnone | ⟨attempt, hone⟩
          · rw [Option.elim, hnone] at hposts
            cases hposts
          · rw [Option.elim, hone, List.mem_singleton] at hposts
            exact .inr (.inr ⟨_, attempt, hposts⟩)
  exact {
    serves := h.serves
    numbered := fun n exchange hnew => by
      rcases (hexchange n exchange).1 hnew with hold | ⟨rfl, task, -, hstarted, -⟩
      · exact (h.numbered n exchange hold).trans_le hproceeds.sent
      · exact hproceeds.awaits (by rw [hstarted]; rintro ⟨⟩)
    awaited := fun n task htask => by
      rcases hproceeds.tasks n task htask with ⟨rfl, hstarted⟩ | hold
      · exact ⟨.onWay, (hexchange _ _).2 (.inr ⟨rfl, task, htask, hstarted, rfl⟩)⟩
      · obtain ⟨transit, hsent⟩ := h.awaited n task hold
        exact ⟨transit, (hexchange _ _).2 (.inl hsent)⟩
    posts := fun n call transit hnew hpost => by
      rcases (hexchange n _).1 hnew with hold | ⟨rfl, task, -, hstarted, heq⟩
      · obtain ⟨attempt, credential, hposted, hcall⟩ := h.posts n call transit hold hpost
        exact ⟨attempt, credential, hextends.mem hposted, hcall⟩
      · obtain ⟨rfl, -⟩ := Exchange.mk.inj heq
        obtain ⟨attempt, credential, generation, rfl⟩ := dispatch_of_post hpost
        refine ⟨attempt.intent, credential, ?_, rfl⟩
        rw [hmore, hstarted]
        exact List.mem_append_right _ (List.mem_append_right _ List.mem_cons_self)
    rows := fun attempt hsubmitted i appId hrows => by
      rcases hnoted _ hsubmitted with hold | hsound | ⟨n, other, himpossible⟩
      · exact (h.rows attempt hold i appId hrows).extends hextends rfl
      · cases hsound with
        | submitted hunused => exact absurd (hunused i appId) hrows
      · cases himpossible
    answered := fun n attempt credential recover generation call status payload htask hexecuted
        hstatus => by
      rcases (hexchange n _).1 hexecuted with hold | ⟨-, task, -, -, heq⟩
      · rcases hproceeds.tasks n _ htask with ⟨rfl, -⟩ | hwaiting
        · exact absurd (h.numbered _ _ hold) (Nat.lt_irrefl _)
        · exact h.answered n attempt credential recover generation call status payload hwaiting
            hold hstatus
      · cases (Exchange.mk.inj heq).2
    received := fun attempt receipt hreceived => by
      rcases hnoted _ hreceived with hold | hsound | ⟨n, other, himpossible⟩
      · exact h.received attempt receipt hold
      · cases hsound with
        | received hrows => exact hrows
      · cases himpossible
    refused := fun attempt code hrefused => by
      rcases hnoted _ hrefused with hold | hsound | ⟨n, other, himpossible⟩
      · exact hextends.answered (h.refused attempt code hold)
      · cases hsound with
        | refused hanswered => exact hextends.answered hanswered
      · cases himpossible }

/-- The servers go on. -/
theorem NetworkFacts.serve {k : Nat} (h : NetworkFacts net s)
    (hsession : SessionFacts k s.client.page.state.session s.client.desk)
    (hclient : t.client = s.client)
    (hextends : Extends s t) (hserves : ∀ i, (t.servers i).host.Serves (t.servers i).tables)
    (hcalls : ∀ n, (t.exchanges n).map Exchange.call = (s.exchanges n).map Exchange.call)
    (hrows : ∀ attempt, .submitted attempt ∈ s.history → ∀ i appId,
      t.receipts i appId attempt.request.requestKey = s.receipts i appId attempt.request.requestKey ∨
        t.receipts i appId attempt.request.requestKey ≠ [] ∧ Committed net t attempt i appId)
    (hanswered : ∀ n attempt credential recover generation call status payload,
      s.client.desk.tasks n = some (.dispatch attempt credential recover generation) →
        t.exchanges n = some ⟨call, .executed (some ⟨status, payload⟩)⟩ → status < 300 →
          s.exchanges n = some ⟨call, .executed (some ⟨status, payload⟩)⟩ ∨
            t.receiptsOf net attempt ≠ []) : NetworkFacts net t := by
  have hhistory : t.history = s.history := by rw [System.history, hclient]; rfl
  have hkept : ∀ attempt, .submitted attempt ∈ s.history → s.receiptsOf net attempt ≠ [] →
      t.receiptsOf net attempt ≠ [] := by
    intro attempt hsubmitted hne
    rcases hrows attempt hsubmitted _ attempt.config.app with hsame | ⟨hnew, -⟩
    · exact fun hnil => hne (hsame.symm.trans hnil)
    · exact hnew
  have hback : ∀ n call transit, t.exchanges n = some ⟨call, transit⟩ →
      ∃ before, s.exchanges n = some ⟨call, before⟩ := by
    intro n call transit hnew
    have hcall := hcalls n
    rw [hnew, Option.map_some, eq_comm, Option.map_eq_some_iff] at hcall
    obtain ⟨exchange, hold, rfl⟩ := hcall
    exact ⟨exchange.transit, hold⟩
  have hforth : ∀ n call transit, s.exchanges n = some ⟨call, transit⟩ →
      ∃ after, t.exchanges n = some ⟨call, after⟩ := by
    intro n call transit hold
    have hcall := hcalls n
    rw [hold, Option.map_some, Option.map_eq_some_iff] at hcall
    obtain ⟨exchange, hnew, rfl⟩ := hcall
    exact ⟨exchange.transit, hnew⟩
  exact {
    serves := hserves
    numbered := fun n exchange hnew => by
      obtain ⟨before, hold⟩ := hback n exchange.call exchange.transit hnew
      rw [hclient]
      exact h.numbered n _ hold
    awaited := fun n task htask => by
      obtain ⟨transit, hold⟩ := h.awaited n task (hclient ▸ htask)
      exact hforth n task.call transit hold
    posts := fun n call transit hnew hpost => by
      obtain ⟨before, hold⟩ := hback n call transit hnew
      obtain ⟨attempt, credential, hposted, hcall⟩ := h.posts n call before hold hpost
      exact ⟨attempt, credential, hextends.mem hposted, hcall⟩
    rows := fun attempt hsubmitted i appId hne => by
      rw [hhistory] at hsubmitted
      rcases hrows attempt hsubmitted i appId with hsame | ⟨-, hcommitted⟩
      · exact (h.rows attempt hsubmitted i appId (hsame ▸ hne)).extends hextends hsame
      · exact hcommitted
    answered := fun n attempt credential recover generation call status payload htask hexecuted
        hstatus => by
      rw [hclient] at htask
      rcases hanswered n attempt credential recover generation call status payload htask hexecuted
        hstatus with hold | hne
      · exact hkept attempt.intent
          (hsession.dispatched n attempt credential recover generation htask)
          (h.answered n attempt credential recover generation call status payload htask hold hstatus)
      · exact hne
    received := fun attempt receipt hreceived => by
      rw [hhistory] at hreceived
      exact hkept attempt (Ended.submitted hsession.entries (.inl ⟨receipt, hreceived⟩))
        (h.received attempt receipt hreceived)
    refused := fun attempt code hrefused => by
      rw [hhistory] at hrefused
      exact hextends.answered (h.refused attempt code hrefused) }

section Tables

variable {i j : Nat} {after : Tables}

theorem receipts_setTables (appId : AppId) (key : String) :
    (s.setTables i after).receipts j appId key =
      if j = i then after.receiptsUnder appId key else s.receipts j appId key := by
  by_cases hj : j = i
  · subst hj
    rw [if_pos rfl]
    simp [System.receipts, System.setTables]
  · rw [if_neg hj]
    simp [System.receipts, System.setTables, hj]

theorem load_setTables :
    (s.setTables i after).load j =
      if j = i then (s.servers i).host.store.load after (s.servers i).host.scope else s.load j := by
  by_cases hj : j = i
  · subst hj
    rw [if_pos rfl]
    simp [System.load, System.setTables]
  · rw [if_neg hj]
    simp [System.load, System.setTables, hj]

theorem hosts_setTables : ((s.setTables i after).servers j).host = (s.servers j).host := by
  by_cases hj : j = i
  · subst hj
    simp [System.setTables]
  · simp [System.setTables, hj]

theorem serves_setTables (h : ∀ j, (s.servers j).host.Serves (s.servers j).tables)
    (hafter : (s.servers i).host.Serves after) (j : Nat) :
    ((s.setTables i after).servers j).host.Serves ((s.setTables i after).servers j).tables := by
  by_cases hj : j = i
  · subst hj
    simpa [System.setTables] using hafter
  · simpa [System.setTables, hj] using h j

theorem extends_setTables
    (h : ∀ before, s.load i = .ok before → ∃ current,
      (s.servers i).host.store.load after (s.servers i).host.scope = .ok current ∧
        before.revision.val ≤ current.revision.val) : Extends s (s.setTables i after) where
  hosts _ := hosts_setTables
  revisions := by
    intro j before hbefore
    rw [load_setTables]
    by_cases hj : j = i
    · subst hj
      rw [if_pos rfl]
      exact h before hbefore
    · rw [if_neg hj]
      exact ⟨before, hbefore, le_refl _⟩
  executed _ _ _ hold := hold
  history := ⟨[], (List.append_nil _).symm⟩

end Tables

section Other

variable {k i : Nat} {call : StoreCall}

theorem extends_other (h : NetworkFacts net s) (i : Nat) (call : StoreCall) :
    Extends s (s.setTables i ((s.servers i).host.store.step (s.servers i).tables call).2) := by
  refine extends_setTables fun before hbefore => ?_
  rcases step_advances hbefore (h.serves i).tenant call with
    ⟨_, current, _, hcurrent, hadvances⟩ | ⟨hsame, -⟩
  · exact ⟨current, hcurrent, by rw [hadvances.revision]; omega⟩
  · exact ⟨before, hsame, le_refl _⟩

theorem receipts_other (hfresh : s.Fresh (.other i call)) (hsubmitted : .submitted attempt ∈ s.history)
    (j : Nat) (appId : AppId) :
    (s.setTables i ((s.servers i).host.store.step (s.servers i).tables call).2).receipts j appId
      attempt.request.requestKey = s.receipts j appId attempt.request.requestKey := by
  rw [receipts_setTables]
  split_ifs with hj
  · subst hj
    exact receiptsUnder_step_of_ne (hfresh attempt hsubmitted) appId
  · rfl

theorem NetworkFacts.other (h : NetworkFacts net s)
    (hsession : SessionFacts k s.client.page.state.session s.client.desk)
    (hfresh : s.Fresh (.other i call)) :
    NetworkFacts net
      (s.setTables i ((s.servers i).host.store.step (s.servers i).tables call).2) :=
  h.serve hsession rfl (extends_other h i call)
    (serves_setTables h.serves ((h.serves i).step call)) (fun _ => rfl)
    (fun _ hsubmitted j appId => .inl (receipts_other hfresh hsubmitted j appId))
    fun _ _ _ _ _ _ _ _ _ hexecuted _ => .inl hexecuted

end Other

theorem Attempt.Encoded.bytes (h : attempt.Encoded) :
    Wire.encode attempt.request = .ok (Json.utf8 attempt.body.toList) := by
  obtain ⟨bytes, hencode, hbody⟩ := h
  obtain ⟨-, -, rfl⟩ := Wire.encode_eq_ok.1 hencode
  rw [← Option.some.inj ((Json.stringOfBytes_print _).symm.trans hbody), Json.utf8_text, hencode]

theorem Attempt.Encoded.decode (h : attempt.Encoded) {tokenizer : JsonTokenizer}
    {dto : CommandRequestDto}
    (hdecode : Wire.decode tokenizer (Json.utf8 attempt.body.toList) = .ok dto) :
    dto = attempt.request := by
  rw [(wireCodec tokenizer CommandRequestDto).decode_encode _ _ h.bytes] at hdecode
  exact (Except.ok.inj hdecode).symm

section Executed

variable {k n i : Nat} {call : Call} {reply : Option HttpReply} {after : Tables}

theorem exchanges_executed_self :
    (s.executed n i call reply after).exchanges n = some ⟨call, .executed reply⟩ :=
  Function.update_self _ _ _

theorem exchanges_executed_of_ne {m : Nat} (hm : m ≠ n) :
    (s.executed n i call reply after).exchanges m = s.exchanges m :=
  Function.update_of_ne hm _ _

theorem extends_executed (hn : s.exchanges n = some ⟨call, .onWay⟩)
    (h : Extends s (s.setTables i after)) : Extends s (s.executed n i call reply after) where
  hosts := h.hosts
  revisions := h.revisions
  executed := by
    intro m other answer hold
    have hne : m ≠ n := by
      rintro rfl
      cases hn.symm.trans hold
    exact (exchanges_executed_of_ne hne).trans hold
  history := h.history

theorem calls_executed (hn : s.exchanges n = some ⟨call, .onWay⟩) (m : Nat) :
    ((s.executed n i call reply after).exchanges m).map Exchange.call =
      (s.exchanges m).map Exchange.call := by
  by_cases hm : m = n
  · subst hm
    rw [exchanges_executed_self, hn]
    rfl
  · rw [exchanges_executed_of_ne hm]

/-- A success that is sent for an attempt says that its receipt is stored. -/
def Confirms (net : Network) (s t : System) (n : Nat) (reply : Option HttpReply) : Prop :=
  ∀ attempt credential recover generation status payload,
    s.client.desk.tasks n = some (.dispatch attempt credential recover generation) →
      reply = some ⟨status, payload⟩ → status < 300 → t.receiptsOf net attempt ≠ []

theorem answered_executed (h : Confirms net s (s.executed n i call reply after) n reply) {m : Nat}
    {credential : String} {recover : Bool} {generation : U64} {other : Call} {status : Nat}
    {payload : List UInt8}
    (htask : s.client.desk.tasks m = some (.dispatch attempt credential recover generation))
    (hexecuted : (s.executed n i call reply after).exchanges m =
      some ⟨other, .executed (some ⟨status, payload⟩)⟩) (hstatus : status < 300) :
    s.exchanges m = some ⟨other, .executed (some ⟨status, payload⟩)⟩ ∨
      (s.executed n i call reply after).receiptsOf net attempt ≠ [] := by
  by_cases hm : m = n
  · subst hm
    rw [exchanges_executed_self] at hexecuted
    obtain ⟨-, htransit⟩ := Exchange.mk.inj (Option.some.inj hexecuted)
    exact .inr (h attempt credential recover generation status payload htask
      (Transit.executed.inj htransit) hstatus)
  · exact .inl ((exchanges_executed_of_ne hm).symm.trans hexecuted)

theorem not_definite_of_outcome {host : HostState} {request : HttpRequest} {app : String}
    {tables : Tables} {dto : CommandRequestDto}
    (h : host.CommandOutcome request app tables after reply)
    (hcommits : host.CommitsFor request app tables after dto) :
    ¬ Definite net.tokenizer reply := by
  have hchanged : after ≠ tables := by
    rintro rfl
    obtain ⟨row, hreceipts⟩ := hcommits.receiptsUnder
    have hsame := hreceipts host.scope.appId dto.requestKey
    rw [if_pos ⟨rfl, rfl⟩, List.self_eq_append_right] at hsame
    cases hsame
  cases h with
  | answered hcall hafter hencode hreceipt => exact not_definite_success
  | failed hruns => exact not_definite_internal
  | refused hrefuses hne hsame => exact absurd hsame hchanged
  | dropped hsame => exact absurd hsame hchanged

theorem receiptsOf_of_post (other : Attempt) {credential credential' : String} {recover : Bool}
    {generation : U64} (hattempt : attempt.Encoded) (hother : other.Encoded)
    (hcall : (Task.dispatch other credential recover generation).call = attempt.post credential') :
    t.receiptsOf net other = t.receiptsOf net attempt := by
  cases recover with
  | true => cases congrArg Call.method hcall
  | false =>
      have hbase : other.config.base = attempt.config.base := congrArg Call.base hcall
      have hbody : other.body = attempt.body := congrArg Call.body hcall
      have happ : other.config.app = attempt.config.app := by
        have hpath := congrArg Call.path hcall
        simp only [Task.call, Attempt.post, List.cons.injEq, true_and, and_true] at hpath
        exact Identity.ext_text hpath
      have hrequest : other.request = attempt.request := by
        have hread : Wire.decode compactTokenizer (Json.utf8 attempt.body.toList) =
            .ok other.request := by
          rw [← hbody]
          exact (wireCodec _ CommandRequestDto).decode_encode _ _ hother.bytes
        exact hattempt.decode hread
      rw [System.receiptsOf, System.receiptsOf, hbase, happ, hrequest]

theorem encoded_of_submitted
    (hsession : SessionFacts k s.client.page.state.session s.client.desk)
    (hsubmitted : .submitted attempt ∈ s.history) : attempt.Encoded := by
  obtain ⟨before, hfacts⟩ := hsession.entries.of_mem hsubmitted
  exact hfacts.2.1

/-- What a request that is carried out does. -/
structure Carried (net : Network) (s : System) (n i : Nat) (call : Call) (reply : Option HttpReply)
    (after : Tables) : Prop where
  serves : (s.servers i).host.Serves after
  effect : (s.servers i).host.Keeps (s.servers i).tables after ∨
    ∃ attempt request app, .posted n attempt ∈ s.history ∧ i = net.origin attempt.config.base ∧
      (s.servers i).host.scope.appId = attempt.config.app ∧
        (s.servers i).host.CommitsFor request app (s.servers i).tables after attempt.request ∧
          ¬ Definite net.tokenizer reply
  confirms : Confirms net s (s.executed n i call reply after) n reply

/-- A server carries out a command. -/
theorem carried_post (h : NetworkFacts net s)
    (hsession : SessionFacts k s.client.page.state.session s.client.desk) {credential : String}
    (hn : s.exchanges n = some ⟨attempt.post credential, .onWay⟩)
    (hposted : .posted n attempt ∈ s.history) (horigin : i = net.origin attempt.config.base)
    {request : HttpRequest} (hbody : request.body = some (Json.utf8 attempt.body.toList))
    (houtcome : (s.servers i).host.CommandOutcome request attempt.config.app.text
      (s.servers i).tables after reply) :
    Carried net s n i (attempt.post credential) reply after := by
  have hserves := h.serves i
  have hruns := houtcome.runs
  have hencoded : attempt.Encoded :=
    encoded_of_submitted hsession (submitted_of_posted hsession.entries hposted)
  have hdto : ∀ dto bytes, request.body = some bytes →
      Wire.decode (s.servers i).host.tokenizer bytes = .ok dto → dto = attempt.request := by
    intro dto bytes hbytes hdecode
    obtain rfl := Option.some.inj (hbody.symm.trans hbytes)
    exact hencoded.decode hdecode
  refine ⟨hserves.runs hruns, ?_, ?_⟩
  · rcases hruns.effect hserves with hkeeps | ⟨dto, hcommits⟩
    · exact .inl hkeeps
    · obtain ⟨bytes, hbytes, hdecode⟩ := hcommits.body
      obtain rfl := hdto dto bytes hbytes hdecode
      exact .inr ⟨attempt, request, _, hposted, horigin, Identity.ext_text hcommits.app.symm,
        hcommits, not_definite_of_outcome houtcome hcommits⟩
  · intro other token recover generation status payload htask hreply hstatus
    obtain ⟨transit, hsent⟩ := h.awaited n _ htask
    obtain ⟨hcall, -⟩ := Exchange.mk.inj (Option.some.inj (hsent.symm.trans hn))
    have hother : other.intent.Encoded := encoded_of_submitted hsession
      (hsession.dispatched n other token recover generation htask)
    rw [receiptsOf_of_post other hencoded hother hcall]
    cases houtcome with
    | answered hcall hafter hencode hreceipt =>
        obtain ⟨bytes, hbytes, hdecode⟩ := hcall.body
        obtain rfl := hdto _ bytes hbytes hdecode
        have happ : attempt.config.app = (s.servers i).host.scope.appId :=
          Identity.ext_text hcall.app
        rw [System.receiptsOf, ← horigin, happ]
        change (s.setTables i after).receipts i _ _ ≠ []
        rw [receipts_setTables, if_pos rfl]
        exact hreceipt.stored
    | failed hruns =>
        have hsame : ApiFailure.internal.status = status :=
          congrArg HttpReply.status (Option.some.inj hreply)
        exact absurd hstatus (by rw [← hsame]; decide)
    | refused hrefuses hne hsame =>
        rename_i failure
        have hstatuses : failure.status = status :=
          congrArg HttpReply.status (Option.some.inj hreply)
        rw [HostState.Refuses, hstatuses] at hrefuses
        omega
    | dropped hsame => cases hreply

/-- A server carries out another request. -/
theorem carried_get (h : NetworkFacts net s)
    (hn : s.exchanges n = some ⟨call, .onWay⟩) (hget : call.method ≠ .post)
    (horigin : i = net.origin call.base) {backend : Backend} {moments : Moments}
    {added : List (String × String)} {uriBytes : Nat}
    (hserve : (s.servers i).host.serve backend (s.servers i).tables moments
      (call.toRequest added uriBytes) = (reply, after)) : Carried net s n i call reply after := by
  have hserves := h.serves i
  have hroute : ∀ app, HostState.route (call.toRequest added uriBytes) ≠ some (.commands app) := by
    intro app hcommands
    unfold HostState.route at hcommands
    split at hcommands <;> simp_all [Call.toRequest]
  have hsame : ((s.servers i).host.serve backend (s.servers i).tables moments
      (call.toRequest added uriBytes)).2 = (s.servers i).tables := HostState.serve_reads hroute
  rw [hserve] at hsame
  change after = _ at hsame
  subst hsame
  refine ⟨hserves, .inl (.refl _ _), ?_⟩
  intro attempt token recover generation status payload htask hreply hstatus
  obtain ⟨transit, hsent⟩ := h.awaited n _ htask
  obtain ⟨rfl, -⟩ := Exchange.mk.inj (Option.some.inj (hsent.symm.trans hn))
  cases recover with
  | false => exact absurd rfl hget
  | true =>
      rw [hreply] at hserve
      obtain ⟨happ, context, -, -, -, -, -, row, hrow, hkey⟩ :=
        HostState.serve_receipt hserves rfl (congrArg Prod.fst hserve) hstatus
      have hstored := receiptsUnder_ne_nil_of_key hrow hkey
      have hconfig : attempt.config.app = (s.servers i).host.scope.appId := Identity.ext_text happ
      have hbase : net.origin attempt.config.base = i := horigin.symm
      rw [System.receiptsOf, hbase, hconfig]
      change (s.setTables i (s.servers i).tables).receipts i _ _ ≠ []
      rw [receipts_setTables, if_pos rfl]
      exact hstored

/-- A server carries out a request. -/
theorem carried (h : NetworkFacts net s)
    (hsession : SessionFacts k s.client.page.state.session s.client.desk)
    (hn : s.exchanges n = some ⟨call, .onWay⟩) (backend : Backend) (moments : Moments)
    (added : List (String × String)) (uriBytes : Nat) :
    ∃ reply after, s.execute net n backend moments added uriBytes call =
      s.executed n (net.origin call.base) call reply after ∧
        Carried net s n (net.origin call.base) call reply after := by
  rcases hserve : (s.servers (net.origin call.base)).host.serve backend
    (s.servers (net.origin call.base)).tables moments (call.toRequest added uriBytes) with ⟨reply, after⟩
  refine ⟨reply, after, by rw [System.execute, hserve], ?_⟩
  by_cases hpost : call.method = .post
  · obtain ⟨attempt, credential, hposted, rfl⟩ := h.posts n call _ hn hpost
    exact carried_post h hsession hn hposted rfl rfl
      (HostState.command_outcome (h.serves _) rfl hserve)
  · exact carried_get h hn hpost rfl hserve

theorem Carried.extends (hn : s.exchanges n = some ⟨call, .onWay⟩)
    (h : Carried net s n i call reply after) : Extends s (s.executed n i call reply after) := by
  refine extends_executed hn (extends_setTables fun before hbefore => ?_)
  rcases h.effect with hkeeps | ⟨attempt, request, app, -, -, -, hcommits, -⟩
  · exact ⟨before, hkeeps.load.trans hbefore, le_refl _⟩
  · obtain ⟨loaded, current, hloaded, hcurrent, -, hrevision, -⟩ := hcommits.step
    obtain rfl := Except.ok.inj (hbefore.symm.trans hloaded)
    exact ⟨current, hcurrent, by rw [hrevision]; omega⟩

/-- A request that is carried out commits the attempt. -/
structure CommitsNow (net : Network) (s t : System) (n i : Nat) (reply : Option HttpReply)
    (attempt : Attempt) : Prop where
  origin : i = net.origin attempt.config.base
  posted : .posted n attempt ∈ s.history
  indefinite : ¬ Definite net.tokenizer reply
  stored : ∃ row, t.receiptsOf net attempt = s.receiptsOf net attempt ++ [row]
  step : ∃ before current, s.load i = .ok before ∧ t.load i = .ok current ∧
    attempt.request.expectedRevision.revision = before.revision ∧
      current.revision.val = before.revision.val + 1

/-- The receipts of an attempt stay as they are, or the request commits it. -/
theorem Carried.rows (hsession : SessionFacts k s.client.page.state.session s.client.desk)
    (h : Carried net s n i call reply after) (hsubmitted : .submitted attempt ∈ s.history)
    (j : Nat) (appId : AppId) :
    (s.executed n i call reply after).receipts j appId attempt.request.requestKey =
        s.receipts j appId attempt.request.requestKey ∨
      (j = i ∧ appId = attempt.config.app) ∧
        CommitsNow net s (s.executed n i call reply after) n i reply attempt := by
  change (s.setTables i after).receipts j appId _ = _ ∨ _
  rw [receipts_setTables]
  by_cases hj : j = i
  · subst hj
    rw [if_pos rfl]
    rcases h.effect with hkeeps | ⟨other, request, app, hposted, horigin, happ, hcommits, hdefinite⟩
    · exact .inl (hkeeps.receipts appId _)
    · obtain ⟨row, hreceipts⟩ := hcommits.receiptsUnder
      rw [hreceipts, happ]
      by_cases hhit : other.config.app = appId ∧
          other.request.requestKey = attempt.request.requestKey
      · obtain ⟨rfl, hkey⟩ := hhit
        obtain rfl := eq_of_submitted hsession.entries
          (submitted_of_posted hsession.entries hposted) hsubmitted hkey
        refine .inr ⟨⟨rfl, rfl⟩, horigin, hposted, hdefinite, ⟨row, ?_⟩, ?_⟩
        · change (s.setTables j after).receiptsOf net other = _
          rw [System.receiptsOf, System.receiptsOf, ← horigin, receipts_setTables, if_pos rfl,
            hreceipts, happ, if_pos ⟨rfl, rfl⟩]
          rfl
        · obtain ⟨before, current, hbefore, hcurrent, hexpected, hrevision, -⟩ := hcommits.step
          refine ⟨before, current, hbefore, ?_, hexpected, hrevision⟩
          change (s.setTables j after).load j = _
          rw [load_setTables, if_pos rfl]
          exact hcurrent
      · rw [if_neg hhit, List.append_nil]
        exact .inl rfl
  · rw [if_neg hj]
    exact .inl rfl

theorem NetworkFacts.carried (h : NetworkFacts net s)
    (hsession : SessionFacts k s.client.page.state.session s.client.desk)
    (hn : s.exchanges n = some ⟨call, .onWay⟩) (hcarried : Carried net s n i call reply after) :
    NetworkFacts net (s.executed n i call reply after) := by
  refine h.serve hsession rfl (hcarried.extends hn) (serves_setTables h.serves hcarried.serves)
    (calls_executed hn) (fun attempt hsubmitted j appId => ?_)
    fun _ _ _ _ _ _ _ _ htask hexecuted hstatus =>
      answered_executed hcarried.confirms htask hexecuted hstatus
  refine (hcarried.rows hsession hsubmitted j appId).imp_right fun hnow => ?_
  obtain ⟨⟨rfl, rfl⟩, hcommits⟩ := hnow
  obtain ⟨row, hstored⟩ := hcommits.stored
  obtain ⟨before, current, hbefore, hcurrent, hexpected, hrevision⟩ := hcommits.step
  -- An attempt that is committed already expects a revision that has been passed.
  have hunused : s.receiptsOf net attempt = [] := by
    by_contra hne
    obtain ⟨loaded, hloaded, hpassed⟩ := (h.rows attempt hsubmitted _ _ hne).passed
    rw [← hcommits.origin] at hloaded
    obtain rfl := Except.ok.inj (hbefore.symm.trans hloaded)
    rw [hexpected] at hpassed
    exact lt_irrefl _ hpassed
  rw [hunused, List.nil_append, System.receiptsOf, ← hcommits.origin] at hstored
  refine ⟨by rw [hstored]; exact List.cons_ne_nil _ _, hcommits.origin, rfl, ⟨row, hstored⟩,
    ⟨current, hcurrent, by rw [hexpected, hrevision]; omega⟩,
    n, call, reply, hcommits.posted, exchanges_executed_self, hcommits.indefinite⟩

end Executed

/-- What holds after at most k actions. -/
structure SystemFacts (net : Network) (k : Nat) (s : System) : Prop where
  session : SessionFacts k s.client.page.state.session s.client.desk
  network : NetworkFacts net s

variable {k : Nat}

theorem SystemFacts.start {page : Page} (hpage : page.state.session = State.start.session)
    {servers : Nat → Server} (hserves : ∀ i, (servers i).host.Serves (servers i).tables) :
    SystemFacts net 0 (.start page servers) where
  session := hpage ▸ SessionFacts.start
  network := {
    serves := hserves
    numbered := by rintro n exchange ⟨⟩
    awaited := by rintro n task ⟨⟩
    posts := by rintro n call transit ⟨⟩
    rows := by rintro attempt ⟨⟩
    answered := by rintro n attempt credential recover generation call status payload ⟨⟩
    received := by rintro attempt receipt ⟨⟩
    refused := by rintro attempt code ⟨⟩ }

/-- A reply that the client goes on with says what is noted. -/
theorem SystemFacts.answer (h : SystemFacts net k s) {n : Nat} {reply : Option HttpReply}
    (hreply : ∀ answer, reply = some answer →
      ∃ call, s.exchanges n = some ⟨call, .executed reply⟩)
    {client : Client} (hanswer : s.client.answer net.tokenizer n reply = some client) :
    SystemFacts net k (s.proceed client) := by
  obtain ⟨hsession, notes, continued, hproceeds, hnotes⟩ := h.session.answer hanswer
  refine ⟨hsession, h.network.proceed h.session hproceeds fun note hnote => ?_⟩
  cases hnotes note hnote with
  | received htask hread =>
      rename_i attempt credential recover generation receipt
      rw [readReply, bind_eq_ok] at hread
      obtain ⟨raw, hrequest, -⟩ := hread
      obtain ⟨status, payload, heq, hstatus⟩ := request_eq_ok hrequest
      obtain ⟨call, hexecuted⟩ := hreply _ heq
      subst heq
      have hrows : s.receiptsOf net attempt ≠ [] := h.network.answered n attempt credential recover
        generation call status payload htask hexecuted hstatus
      exact .received hrows
  | refused hposted hrequest hcode =>
      obtain ⟨status, raw, error, hread, -, -, -⟩ := request_eq_api hrequest
      obtain ⟨payload, heq, -⟩ := runtimeHttp_eq_some hread
      obtain ⟨call, hexecuted⟩ := hreply _ heq
      exact .refused ⟨n, call, reply, hposted, hexecuted, _, hcode, hrequest⟩

/-- Every action keeps the facts, when keys are fresh. -/
theorem SystemFacts.step (h : SystemFacts net k s) (hk : k + 1 < 2 ^ 64) {action : Action}
    (hfresh : s.Fresh action) (hstep : s.step net action = some t) :
    SystemFacts net (k + 1) t := by
  cases action with
  | user event =>
      obtain ⟨client, hact, rfl⟩ := Option.map_eq_some_iff.1 hstep
      have hkeys : ∀ key, event = .submit (some key) →
          (∀ other, .submitted other ∈ s.client.desk.history → other.request.requestKey ≠ key) ∧
            ∀ i appId, s.receipts i appId key = [] := by
        rintro key rfl
        exact hfresh
      obtain ⟨hsession, notes, started, hproceeds, hnotes⟩ :=
        h.session.act hk (fun key hkey => (hkeys key hkey).1) hact
      refine ⟨hsession, h.network.proceed h.session hproceeds fun note hnote => ?_⟩
      obtain ⟨attempt, rfl, hkey⟩ := hnotes note hnote
      exact .submitted (hkeys _ hkey).2
  | execute n backend moments added uriBytes =>
      rw [System.step] at hstep
      split at hstep
      · rename_i call hn
        obtain rfl := Option.some.inj hstep
        obtain ⟨reply, after, heq, hcarried⟩ :=
          carried h.network h.session hn backend moments added uriBytes
        rw [heq]
        exact ⟨h.session.mono, h.network.carried h.session hn hcarried⟩
      · cases hstep
  | reply n =>
      rw [System.step] at hstep
      split at hstep
      · rename_i call reply hn
        obtain ⟨client, hanswer, rfl⟩ := Option.map_eq_some_iff.1 hstep
        have hafter := h.answer (fun _ _ => ⟨call, hn⟩) hanswer
        exact ⟨hafter.session.mono, hafter.network⟩
      · cases hstep
  | fail n =>
      obtain ⟨client, hanswer, rfl⟩ := Option.map_eq_some_iff.1 hstep
      have hafter := h.answer (by rintro answer ⟨⟩) hanswer
      exact ⟨hafter.session.mono, hafter.network⟩
  | other i call =>
      obtain rfl := Option.some.inj hstep
      exact ⟨h.session.mono, h.network.other h.session hfresh⟩

end Steps

end Evobase.Runtime
