import Evobase.Runtime.Network

/-!
# Outcomes of attempts

In every run of the page and its servers a submitted attempt is committed at most once, and the page
forgets an attempt only for its receipt or for a refusal after which it is never committed
(`commands_at_most_once`). The price is an attempt that the page can never forget: one that was not
committed and expects a revision that the app has passed (`retained_for_ever`).

`Exact` collects what holds in every state of a run, and `Stuck` is the state from which there is
no way out. The run of the witness has a post that arrives late, after the retry of the attempt
was answered.
-/

namespace Evobase.Runtime

open Foundation

/-- What is known of the attempts of a system. An attempt that the page has submitted is open, or it
has ended with its receipt or with its refusal. -/
structure Exact (net : Network) (s : System) : Prop where
  ordered : EachEntry NoteFacts s.history
  retained : s.client.page.state.attempt.map Attempt.intent = openAttempt s.history
  settled : ∀ attempt, .submitted attempt ∈ s.history →
    openAttempt s.history = some attempt ∨ Ended s.history attempt
  once : ∀ attempt, .submitted attempt ∈ s.history → ∀ i appId,
    s.receipts i appId attempt.request.requestKey ≠ [] →
      i = net.origin attempt.config.base ∧ appId = attempt.config.app ∧
        ∃ row, s.receipts i appId attempt.request.requestKey = [row]
  received : ∀ attempt receipt, .received attempt receipt ∈ s.history →
    receiptMatches receipt attempt ∧ s.receiptsOf net attempt ≠ []
  refused : ∀ attempt code, .refused attempt code ∈ s.history →
    (∃ n, postsOf attempt s.history = [n]) ∧
      ∀ i appId, s.receipts i appId attempt.request.requestKey = []

section Runs

variable {net : Network} {page : Page} {servers : Nat → Server} {s t : System} {attempt : Attempt} {k : Nat}
  {actions more : List Action}

theorem SystemFacts.unused_of_refused (h : SystemFacts net k s) {code : ErrorCodeDto}
    (hrefused : .refused attempt code ∈ s.history) (i : Nat) (appId : AppId) :
    s.receipts i appId attempt.request.requestKey = [] := by
  by_contra hne
  have hsubmitted : .submitted attempt ∈ s.history :=
    Ended.submitted h.session.entries (.inr ⟨code, hrefused⟩)
  obtain ⟨m, other, answer, hcommitting, hcarried, hindefinite⟩ :=
    (h.network.rows attempt hsubmitted i appId hne).carried
  obtain ⟨n, call, reply, hposted, hexecuted, hdefinite⟩ := h.network.refused attempt code hrefused
  obtain ⟨only, hposts⟩ : ∃ n, postsOf attempt s.history = [n] :=
    posts_of_refused h.session.entries hrefused
  have hm : m ∈ postsOf attempt s.history := mem_postsOf.2 hcommitting
  have hn : n ∈ postsOf attempt s.history := mem_postsOf.2 hposted
  rw [hposts, List.mem_singleton] at hm hn
  obtain rfl : m = n := hm.trans hn.symm
  obtain ⟨-, htransit⟩ := Exchange.mk.inj (Option.some.inj (hcarried.symm.trans hexecuted))
  exact hindefinite (Transit.executed.inj htransit ▸ hdefinite)

theorem SystemFacts.exact (h : SystemFacts net k s) : Exact net s where
  ordered := h.session.entries
  retained := h.session.opened
  settled _ hsubmitted := open_or_ended h.session.entries hsubmitted
  once attempt hsubmitted i appId hne := by
    have hcommitted := h.network.rows attempt hsubmitted i appId hne
    exact ⟨hcommitted.origin, hcommitted.app, hcommitted.once⟩
  received attempt receipt hreceived := by
    obtain ⟨before, hfacts⟩ := h.session.entries.of_mem hreceived
    exact ⟨hfacts.2, h.network.received attempt receipt hreceived⟩
  refused attempt code hrefused :=
    ⟨posts_of_refused h.session.entries hrefused, h.unused_of_refused hrefused⟩

theorem SystemFacts.run (h : SystemFacts net k s) (hlength : k + actions.length < 2 ^ 64)
    (hfresh : EachAction (System.step net) System.Fresh s actions)
    (hrun : runActions (System.step net) s actions = some t) :
    SystemFacts net (k + actions.length) t := by
  have hinv := runActions_induction_of_each
    (fun before s => k + before.length < 2 ^ 64 → SystemFacts net (k + before.length) s) []
    (fun before s a t hfresh hinv hstep hlong => ?_) (fun _ => h) hfresh hrun hlength
  · exact hinv
  · rw [List.length_append, List.length_singleton] at hlong ⊢
    exact (hinv (by omega)).step (by omega) hfresh hstep

theorem history_step {action : Action} (hstep : s.step net action = some t) :
    s.history <+: t.history := by
  cases action with
  | user event =>
      obtain ⟨client, hact, rfl⟩ := Option.map_eq_some_iff.1 hstep
      exact Client.act_history hact
  | execute n backend moments added uriBytes =>
      rw [System.step] at hstep
      split at hstep
      · obtain rfl := Option.some.inj hstep
        exact List.prefix_rfl
      · cases hstep
  | reply n =>
      rw [System.step] at hstep
      split at hstep
      · obtain ⟨client, hanswer, rfl⟩ := Option.map_eq_some_iff.1 hstep
        exact Client.answer_history hanswer
      · cases hstep
  | fail n =>
      obtain ⟨client, hanswer, rfl⟩ := Option.map_eq_some_iff.1 hstep
      exact Client.answer_history hanswer
  | other i call =>
      obtain rfl := Option.some.inj hstep
      exact List.prefix_rfl

theorem history_run (hrun : runActions (System.step net) s actions = some t) :
    s.history <+: t.history :=
  runActions_invariant (fun t => s.history <+: t.history)
    (fun _ _ _ hprefix hstep => hprefix.trans (history_step hstep)) List.prefix_rfl hrun

/-- In every run of a page that has not submitted anything and its servers, what is known of the
attempts is exact, and stays: an attempt that has been refused is never committed afterwards. -/
theorem commands_at_most_once (hpage : page.state.session = State.start.session)
    (hserves : ∀ i, (servers i).host.Serves (servers i).tables)
    (hfresh : EachAction (System.step net) System.Fresh (.start page servers) (actions ++ more))
    (hlength : (actions ++ more).length < 2 ^ 64)
    (hs : runActions (System.step net) (.start page servers) actions = some s)
    (ht : runActions (System.step net) s more = some t) :
    Exact net s ∧ Exact net t ∧ s.history <+: t.history ∧
      ∀ attempt code, .refused attempt code ∈ s.history →
        ∀ i appId, t.receipts i appId attempt.request.requestKey = [] := by
  obtain ⟨hfirst, hlater⟩ := (eachAction_append_iff hs).1 hfresh
  rw [List.length_append] at hlength
  have hfacts : SystemFacts net (0 + actions.length) s :=
    (SystemFacts.start hpage hserves).run (by omega) hfirst hs
  have hafter : SystemFacts net (0 + actions.length + more.length) t :=
    hfacts.run (by omega) hlater ht
  exact ⟨hfacts.exact, hafter.exact, history_run ht, fun attempt code hrefused =>
    hafter.unused_of_refused ((history_run ht).subset hrefused)⟩

/-- The attempt is uncertain, is not committed, and expects a revision that the app has passed. -/
structure Stuck (net : Network) (s : System) (attempt : Attempt) : Prop where
  retained : s.client.page.state.attempt = some attempt
  uncertain : attempt.uncertain = true
  missing : s.receiptsOf net attempt = []
  passed : ∃ current, s.load (net.origin attempt.config.base) = .ok current ∧
    attempt.request.expectedRevision.revision.val < current.revision.val

theorem Stuck.serve (hstuck : Stuck net s attempt) (hclient : t.client = s.client)
    (hextends : Extends s t) (hrows : t.receiptsOf net attempt = s.receiptsOf net attempt) :
    Stuck net t attempt := by
  obtain ⟨before, hbefore, hpassed⟩ := hstuck.passed
  obtain ⟨current, hcurrent, hle⟩ := hextends.revisions _ before hbefore
  exact ⟨hclient ▸ hstuck.retained, hstuck.uncertain, hrows.trans hstuck.missing,
    current, hcurrent, hpassed.trans_le hle⟩

theorem Stuck.answer (h : SystemFacts net k s) (hstuck : Stuck net s attempt) {n : Nat}
    {reply : Option HttpReply}
    (hreply : ∀ answer, reply = some answer →
      ∃ call, s.exchanges n = some ⟨call, .executed reply⟩)
    {client : Client} (hanswer : s.client.answer net.tokenizer n reply = some client) :
    Stuck net (s.proceed client) attempt := by
  obtain ⟨task, htask, hstate, -⟩ := Client.of_answer hanswer
  have hresumes : Resumes net.tokenizer s.client.page.state.session reply task _ _ :=
    resumes_resume task
  rcases attempt_of_resumes h.session htask hresumes hstuck.retained hstuck.uncertain with
    hkept | ⟨credential, recover, receipt, rfl, hread⟩
  · refine ⟨?_, hstuck.uncertain, hstuck.missing, hstuck.passed⟩
    change client.page.state.attempt = _
    rw [hstate]
    exact hkept
  · rw [readReply, bind_eq_ok] at hread
    obtain ⟨raw, hrequest, -⟩ := hread
    obtain ⟨status, payload, rfl, hstatus⟩ := request_eq_ok hrequest
    obtain ⟨call, hexecuted⟩ := hreply _ rfl
    exact absurd hstuck.missing (h.network.answered n attempt credential recover _ call status
      payload htask hexecuted hstatus)

theorem Stuck.step (h : SystemFacts net k s) (hstuck : Stuck net s attempt) {action : Action}
    (hfresh : s.Fresh action) (hstep : s.step net action = some t) : Stuck net t attempt := by
  have hsubmitted : .submitted attempt.intent ∈ s.history := by
    refine submitted_of_openAttempt (h.session.opened.symm.trans ?_)
    exact congrArg (Option.map Attempt.intent) hstuck.retained
  cases action with
  | user event =>
      obtain ⟨client, hact, rfl⟩ := Option.map_eq_some_iff.1 hstep
      obtain ⟨page, started, hhandle, hpage, -⟩ := Client.of_act hact
      refine ⟨?_, hstuck.uncertain, hstuck.missing, hstuck.passed⟩
      change client.page.state.attempt = _
      rw [hpage]
      exact attempt_of_acts (acts_handle hhandle) hstuck.retained hstuck.uncertain
  | execute n backend moments added uriBytes =>
      rw [System.step] at hstep
      split at hstep
      · rename_i call hn
        obtain rfl := Option.some.inj hstep
        obtain ⟨reply, after, heq, hcarried⟩ :=
          carried h.network h.session hn backend moments added uriBytes
        rw [heq]
        refine hstuck.serve rfl (hcarried.extends hn) ?_
        rcases hcarried.rows h.session hsubmitted (net.origin attempt.config.base)
          attempt.config.app with hsame | ⟨-, hcommits⟩
        · exact hsame
        · -- A commit would expect the revision that it finds.
          obtain ⟨before, -, hbefore, -, hexpected, -⟩ := hcommits.step
          obtain ⟨loaded, hloaded, hpassed⟩ := hstuck.passed
          rw [hcommits.origin] at hbefore
          obtain rfl := Except.ok.inj (hbefore.symm.trans hloaded)
          rw [← hexpected] at hpassed
          exact absurd hpassed (lt_irrefl _)
      · cases hstep
  | reply n =>
      rw [System.step] at hstep
      split at hstep
      · rename_i call reply hn
        obtain ⟨client, hanswer, rfl⟩ := Option.map_eq_some_iff.1 hstep
        exact hstuck.answer h (fun _ _ => ⟨call, hn⟩) hanswer
      · cases hstep
  | fail n =>
      obtain ⟨client, hanswer, rfl⟩ := Option.map_eq_some_iff.1 hstep
      exact hstuck.answer h (by rintro answer ⟨⟩) hanswer
  | other i call =>
      obtain rfl := Option.some.inj hstep
      exact hstuck.serve rfl (extends_other h.network i call)
        (receipts_other hfresh hsubmitted _ attempt.config.app)

theorem Stuck.run (h : SystemFacts net k s) (hstuck : Stuck net s attempt)
    (hlength : k + actions.length < 2 ^ 64)
    (hfresh : EachAction (System.step net) System.Fresh s actions)
    (hrun : runActions (System.step net) s actions = some t) : Stuck net t attempt := by
  induction actions generalizing k s with
  | nil =>
      obtain rfl := Option.some.inj hrun
      exact hstuck
  | cons action actions ih =>
      obtain ⟨next, hstep, hrest⟩ := runActions_cons_eq_some.1 hrun
      obtain ⟨hfirst, hlater⟩ := (eachAction_cons_iff hstep).1 hfresh
      rw [List.length_cons] at hlength
      exact ih (h.step (by omega) hfirst hstep) (hstuck.step h hfirst hstep) (by omega) hlater hrest

def Event.Locked : Event → Prop
  | .base _ | .app _ | .refresh | .table _ | .record _ | .command _ | .param _ _ | .submit _ => True
  | _ => False

theorem handle_locked {validBase : String → Bool} (hretained : page.state.attempt = some attempt)
    {event : Event} (hlocked : event.Locked) : page.handle validBase event = none := by
  have hpage : page.locked = true := by simp [Page.locked, hretained]
  cases event <;> first | exact hlocked.elim | simp [Page.handle, hpage, hretained]

/-- An uncertain attempt that is not committed and expects a revision that the app has passed is
retained for ever, whatever the user, the network and the other clients do: it is never committed,
and the page never refreshes, selects or submits again. -/
theorem retained_for_ever (h : SystemFacts net k s) (hstuck : Stuck net s attempt)
    (hlength : k + actions.length < 2 ^ 64)
    (hfresh : EachAction (System.step net) System.Fresh s actions)
    (hrun : runActions (System.step net) s actions = some t) :
    t.client.page.state.attempt = some attempt ∧ t.receiptsOf net attempt = [] ∧
      ∀ event : Event, event.Locked → t.client.act net.validBase event = none := by
  have hafter := hstuck.run h hlength hfresh hrun
  refine ⟨hafter.retained, hafter.missing, fun event hlocked => ?_⟩
  rw [Client.act, handle_locked hafter.retained hlocked]
  rfl

theorem servers_of_user_fail {event : Event} {n : Nat}
    (h : runActions (System.step net) s [.user event, .fail n] = some t) :
    t.servers = s.servers := by
  obtain ⟨next, huser, hrest⟩ := runActions_cons_eq_some.1 h
  obtain ⟨last, hfail, hend⟩ := runActions_cons_eq_some.1 hrest
  obtain ⟨client, -, rfl⟩ := Option.map_eq_some_iff.1 huser
  obtain ⟨again, -, rfl⟩ := Option.map_eq_some_iff.1 hfail
  obtain rfl := Option.some.inj hend
  rfl

end Runs

def ticketTable : TableId := (openTicket recA ticketActor.text).tableId

def storedRevision : I64 := ⟨3, by decide, by decide⟩

def loadedRevision : U64 := ⟨3, by decide, by decide⟩

def ticketRows : Tables :=
  { digestStore.firstRows ticketSpec ticketFacts with
    applications := [⟨ticketSpec.definition.appId, ticketSpec.identity digestStore, storedRevision,
      (recordsToJson ticketFacts.records).print⟩] }

def ticketServer : Server :=
  ⟨pilotHost digestStore (ticketSpec.identity digestStore), ticketRows⟩

theorem load_ticketRows : digestStore.load ticketRows ticketScope =
    .ok ⟨ticketSpec.definition, ticketFacts, loadedRevision, ticketSpec.identity digestStore⟩ := by
  have hfacts : validateRecords ticketSpec.definition ticketScope ticketFacts.records =
      .ok ticketFacts := by decide +kernel
  have hfirst : digestStore.load (digestStore.firstRows ticketSpec ticketFacts) ticketScope =
      .ok _ := Store.load_firstRows hfacts
  obtain ⟨application, release, hselect, hreads⟩ := load_eq_ok_iff.1 hfirst
  obtain ⟨happlication, hrelease⟩ := selectApplication_eq_some.1 hselect
  obtain rfl := (List.mem_singleton.1 (List.mem_of_find?_eq_some happlication))
  refine load_eq_ok_iff.2 ⟨⟨ticketSpec.definition.appId, ticketSpec.identity digestStore, storedRevision,
      (recordsToJson ticketFacts.records).print⟩, release,
    selectApplication_eq_some.2 ⟨?_, hrelease⟩,
    { hreads with revision := rfl, positive := by decide }⟩
  simp [ticketRows, ticketScope, ticketSpec]

theorem serves_ticketServer : ticketServer.host.Serves ticketServer.tables :=
  ⟨rfl, _, load_ticketRows, rfl⟩

def ticketPage : Page := { Page.start with
  app := ticketScope.appId.text
  credential := pilotCaller.credential
  state := { State.start with
    metadata := some {
      apiVersion := apiVersionNumber
      appId := ticketScope.appId
      releaseId := ticketSpec.identity digestStore
      revision := ⟨U64.one⟩
      canonicalAppspec := none
      supported := HostState.supported
      tables := []
      commands := [⟨cmdClose.text, cmdClose.text, ticketTable, [⟨fldN, fldN.text, .text, false⟩],
        [recA]⟩] }
    list := some {
      apiVersion := apiVersionNumber
      appId := ticketScope.appId
      tableId := ticketTable
      releaseId := ticketSpec.identity digestStore
      revision := ⟨U64.one⟩
      records := [⟨recA, .empty⟩]
      hasMore := false }
    table := ticketTable.text
    record := recA.text
    params := .ofList [(fldN, "done")] } }

def ticketNetwork : Network := ⟨compactTokenizer, fun _ => true, fun _ => 0⟩

def ticketSystem : System := .start ticketPage fun _ => ticketServer

def lostClosing : List Action := [.user (.submit (some "close")), .fail 0]

theorem lostClosing_check : (runActions (System.step ticketNetwork) ticketSystem lostClosing).any
    (fun s => s.client.page.state.attempt.any fun attempt =>
      attempt.uncertain && attempt.request.expectedRevision.revision = U64.one) = true := by
  decide +kernel

theorem fresh_lostClosing :
    EachAction (System.step ticketNetwork) System.Fresh ticketSystem lostClosing := by
  refine ⟨⟨?_, fun i appId => rfl⟩, fun next hnext => ⟨trivial, fun last hlast => trivial⟩⟩
  rintro attempt ⟨⟩

theorem lostClosing_run : ∃ s attempt,
    runActions (System.step ticketNetwork) ticketSystem lostClosing = some s ∧
      s.servers = ticketSystem.servers ∧ s.client.page.state.attempt = some attempt ∧
        attempt.uncertain = true ∧ attempt.request.expectedRevision.revision = U64.one := by
  obtain ⟨s, hrun, hattempt⟩ := (Option.any_eq_true _ _).1 lostClosing_check
  obtain ⟨attempt, hretained, hcheck⟩ := (Option.any_eq_true _ _).1 hattempt
  rw [Bool.and_eq_true, decide_eq_true_iff] at hcheck
  refine ⟨s, attempt, hrun, ?_, hretained, hcheck⟩
  exact servers_of_user_fail hrun

theorem request_receipt {tokenizer : JsonTokenizer} {response : ReceiptResponseDto}
    {payload : List UInt8} (h : Wire.encode response = .ok payload) : ∃ raw,
    request tokenizer (some ⟨200, payload⟩) = .ok raw ∧
      Wire.decode tokenizer (Json.utf8 raw.toList) = .ok response := by
  obtain ⟨-, hpre, hpayload⟩ := Wire.encode_eq_ok.1 h
  have hlength : payload.length ≤ 1048576 := by
    rw [Wire.preflight, bind_eq_ok] at hpre
    obtain ⟨_, hlimit, -⟩ := hpre
    rw [Wire.limit, rejectIf_eq_ok] at hlimit
    exact not_lt.1 hlimit
  have hmark : payload.dropPrefix? [239, 187, 191] = none := by
    rw [hpayload]
    rfl
  refine ⟨response.toJson.text, ?_, ?_⟩
  · have hread : runtimeHttp (some ⟨200, payload⟩) = some (200, response.toJson.text) := by
      rw [runtimeHttp, Option.bind_eq_bind, Option.bind_some, if_neg (by simpa using hlength), hmark,
        Option.getD_none, hpayload]
      exact congrArg (Option.map fun text => (200, text)) (Json.stringOfBytes_print _)
    rw [request, hread]
    rfl
  · rw [Json.utf8_text]
    exact (wireCodec tokenizer ReceiptResponseDto).decode_encode _ _ (hpayload ▸ h)

/-- The receipt of the attempt that waits ends it. -/
theorem Client.answer_receipt {tokenizer : JsonTokenizer} {client : Client} {n : Nat}
    {attempt : Attempt} {credential : String} {recover : Bool} {reply : Option HttpReply}
    {raw : String} {receipt : ReceiptResponseDto}
    (htask : client.desk.tasks n =
      some (.dispatch attempt credential recover client.page.state.generation))
    (hattempt : client.page.state.attempt = some attempt)
    (hrequest : request tokenizer reply = .ok raw)
    (hdecode : Wire.decode tokenizer (Json.utf8 raw.toList) = .ok receipt)
    (hmatches : receiptMatches receipt attempt) :
    ∃ next, client.answer tokenizer n reply = some next ∧
      .received attempt.intent receipt ∈ next.desk.history := by
  have hread : readReply tokenizer ReceiptResponseDto reply = .ok receipt := by
    rw [readReply, hrequest, ok_bind, hdecode]
    rfl
  rw [Client.answer, htask, Option.bind_eq_bind, Option.bind_some]
  simp only [resume, dispatch, ne_eq, not_true_eq_false, if_false, hrequest, hdecode, finishReceipt,
    if_pos hmatches, hattempt, outcomes, hread]
  refine ⟨_, rfl, ?_⟩
  simp [Desk.await, Desk.note]

/-- Without a reply the attempt stays and is in doubt. -/
theorem Client.answer_lost {tokenizer : JsonTokenizer} {client : Client} {n : Nat}
    {attempt : Attempt} {credential : String} {recover : Bool}
    (htask : client.desk.tasks n =
      some (.dispatch attempt credential recover client.page.state.generation))
    (hattempt : client.page.state.attempt = some attempt) :
    client.answer tokenizer n none =
      some ⟨client.page.withState (client.page.state.unresolved attempt), client.desk.remove n⟩ := by
  rw [Client.answer, htask, Option.bind_eq_bind, Option.bind_some]
  have hrequest : request tokenizer none = .error .transport := rfl
  simp only [resume, dispatch, ne_eq, not_true_eq_false, if_false, hrequest, reduceCtorEq, false_and,
    true_or, if_true, hattempt]
  rw [show outcomes tokenizer none (some attempt) (client.page.state.unresolved attempt).attempt = []
    from rfl, note_nil]
  rfl

theorem System.step_execute {net : Network} {s : System} {n : Nat} {call : Call}
    {backend : Backend} {moments : Moments} {request : HttpRequest} {reply : Option HttpReply}
    {after : Tables} (hn : s.exchanges n = some ⟨call, .onWay⟩)
    (hrequest : call.toRequest [] 0 = request)
    (hserve : (s.servers (net.origin call.base)).host.serve backend
      (s.servers (net.origin call.base)).tables moments request = (reply, after)) :
    s.step net (.execute n backend moments [] 0) =
      some (s.executed n (net.origin call.base) call reply after) := by
  rw [System.step]
  simp only [hn, System.execute, hrequest, hserve]

theorem System.step_reply {net : Network} {s : System} {n : Nat} {call : Call}
    {reply : Option HttpReply} {client : Client} (hn : s.exchanges n = some ⟨call, .executed reply⟩)
    (hanswer : s.client.answer net.tokenizer n reply = some client) :
    s.step net (.reply n) = some (s.proceed client) := by
  rw [System.step]
  simp only [hn, hanswer, Option.map_some]

theorem Attempt.intent_doubted {attempt : Attempt} (h : attempt.uncertain = false) :
    attempt.doubted.intent = attempt :=
  Attempt.intent_eq h

def closingAttempt : Attempt :=
  ⟨⟨Page.start.base, ticketScope.appId, ""⟩, closeMessage, closeMessage.toJson.text, false⟩

def closingTask : Task :=
  .dispatch closingAttempt pilotCaller.credential false ticketPage.state.generation

def closingPage : Page := ticketPage.withState { ticketPage.state with
  attempt := some closingAttempt
  busy := true
  notice := .sending }

theorem encode_closeMessage : Wire.encode closeMessage = .ok closeMessage.toJson.print := by
  have hfits : Fits closeMessage.toJson :=
    ⟨by decide +kernel, by decide +kernel, by decide +kernel⟩
  refine Wire.encode_eq_ok.2 ⟨⟨rfl, by decide +kernel⟩, ?_, rfl⟩
  rw [Wire.preflight_eq, (preflight_print_iff closeMessage.exact_toJson).2 hfits]
  rfl

theorem attemptFor_closing {config : Config} (hbase : config.base = Page.start.base)
    (happ : config.app = ticketScope.appId) {metadata : MetadataResponseDto}
    (hrelease : metadata.releaseId = closeMessage.releaseId) {list : ListResponseDto}
    (hrevision : list.revision = closeMessage.expectedRevision) {command : CommandMetadataDto}
    (hcommand : command.commandId = closeMessage.commandId) :
    Page.attemptFor config metadata list command closeMessage.recordId closeMessage.params
      "k" = .ok closingAttempt := by
  rw [Page.attemptFor, hrelease, hrevision, hcommand]
  have hrequest : (⟨apiVersionNumber, closeMessage.commandId, closeMessage.recordId,
      closeMessage.params, "k", closeMessage.expectedRevision,
      closeMessage.releaseId⟩ : CommandRequestDto) = closeMessage := rfl
  simp only [hrequest, encode_closeMessage, renameError, ok_bind, Json.stringOfBytes_print, okOr,
    hbase, happ]
  rfl

theorem handle_closing : ticketPage.handle (fun _ => true) (.submit (some "k")) =
    some (closingPage, some closingTask) := by
  have hconfig : ticketPage.config (fun _ => true) =
      .ok ⟨Page.start.base, ticketScope.appId, pilotCaller.credential⟩ := by
    decide +kernel
  obtain ⟨command, hchosen, hcommand, hparams⟩ : ∃ command,
      ticketPage.state.chosenCommand = some command ∧ command.commandId = closeMessage.commandId ∧
        Page.readParams command.inputFields ticketPage.state.params = (closeMessage.params, .empty) :=
    ⟨_, rfl, rfl, by decide +kernel⟩
  have hrecord : Identity.ofText? .record ticketPage.state.record = some closeMessage.recordId :=
    Identity.ofText?_text recA
  have hmetadata : ticketPage.state.metadata = some _ := rfl
  have hlist : ticketPage.state.list = some _ := rfl
  rw [Page.handle, if_neg (by decide), Page.submit]
  simp only [hconfig, hmetadata, hlist, hchosen, hrecord, hparams]
  rw [if_pos (by decide), if_neg (by decide), attemptFor_closing rfl rfl rfl rfl hcommand]
  rfl

theorem toRequest_closing : closingTask.call.toRequest [] 0 = closeRequest := by
  have hbody : Json.utf8 closeMessage.toJson.text.toList = closeMessage.toJson.print :=
    Json.utf8_text _
  simp only [Call.toRequest, closingTask, Task.call, closingAttempt, hbody, if_true,
    List.append_nil, closeRequest, pilotHeaders]

/-- The command is answered with its receipt. -/
theorem exists_receipt_of_closing {answer : Option HttpReply} {closed : Tables}
    (hserve : ticketPilot.serve (.up .applied) firstTables pilotMoments closeRequest =
      (answer, closed)) : ∃ payload response, answer = some ⟨200, payload⟩ ∧
    Wire.encode response = .ok payload ∧ receiptMatches response closingAttempt.doubted := by
  have hserves : ticketPilot.Serves firstTables :=
    serves_firstRows digestStore rfl (by decide +kernel : validateRecords ticketSpec.definition
      ticketScope ticketFacts.records = .ok ticketFacts)
  have htells : ticketPilot.Tells pilotMoments closeRequest firstTables closed answer := by
    have hboth : ticketPilot.Tells pilotMoments closeRequest firstTables
        (ticketPilot.serve (.up .applied) firstTables pilotMoments closeRequest).2
        (ticketPilot.serve (.up .applied) firstTables pilotMoments closeRequest).1 :=
      HostState.serve_tells hserves
    rwa [hserve] at hboth
  have hstatus : answer.map (·.status) = some 200 := by
    have hclosed := closeRequest_check.1
    rwa [hserve] at hclosed
  obtain ⟨payload, rfl⟩ := exists_payload_of_status hstatus
  obtain ⟨bytes, dto, response, hbody, hdecode, hencode, hreceipt⟩ :=
    htells.committed _ payload rfl rfl
  obtain rfl : closeMessage.toJson.print = bytes := Option.some.inj hbody
  obtain rfl : closeMessage = dto := Except.ok.inj
    (((wireCodec _ CommandRequestDto).decode_encode _ _ encode_closeMessage).symm.trans hdecode)
  exact ⟨payload, response, rfl, hencode, hreceipt.appId, hreceipt.commandId, hreceipt.recordId,
    hreceipt.releaseId, hreceipt.requestKey⟩

def pilotSystem : System := .start ticketPage fun _ => ⟨ticketPilot, firstTables⟩

/-- The first post of the attempt is late: it arrives after the second one was answered. -/
def retriedClosing : List Action :=
  [.user (.submit (some "k")), .fail 0, .user .retry, .execute 1 (.up .applied) pilotMoments [] 0,
    .reply 1, .execute 0 (.up .applied) pilotMoments [] 0]

def closingSystem : System :=
  pilotSystem.proceed
    ⟨closingPage, (Desk.start.note [.submitted closingAttempt]).await (some closingTask)⟩

theorem step_closing : pilotSystem.step ticketNetwork (.user (.submit (some "k"))) =
    some closingSystem := by
  have hpage : pilotSystem.client = .start ticketPage := rfl
  have hnotes : submissions ticketPage.state.attempt closingPage.state.attempt =
      [.submitted closingAttempt] := by
    rw [show ticketPage.state.attempt = none from rfl,
      show closingPage.state.attempt = some closingAttempt from rfl, submissions,
      Attempt.intent_eq rfl]
  have hvalid : ticketNetwork.validBase = fun _ => true := rfl
  rw [System.step, hpage, hvalid, Client.act, Client.start, handle_closing, Option.bind_eq_bind,
    Option.bind_some]
  simp only [hnotes, Option.map_some]
  rfl

theorem retriedClosing_run : ∃ s response,
    runActions (System.step ticketNetwork) pilotSystem retriedClosing = some s ∧
      .received closingAttempt response ∈ s.history := by
  rcases hserve : ticketPilot.serve (.up .applied) firstTables pilotMoments closeRequest with
    ⟨answer, closed⟩
  obtain ⟨payload, response, rfl, hencode, hmatches⟩ := exists_receipt_of_closing hserve
  obtain ⟨raw, hrequest, hdecode⟩ : ∃ raw,
      request compactTokenizer (some ⟨200, payload⟩) = .ok raw ∧
        Wire.decode compactTokenizer (Json.utf8 raw.toList) = .ok response :=
    request_receipt hencode
  let doubted : Client :=
    ⟨closingPage.withState (closingPage.state.unresolved closingAttempt),
      closingSystem.client.desk.remove 0⟩
  have hlost : closingSystem.client.answer compactTokenizer 0 none = some doubted :=
    Client.answer_lost rfl rfl
  have hfail : closingSystem.step ticketNetwork (.fail 0) =
      some (closingSystem.proceed doubted) :=
    congrArg (Option.map closingSystem.proceed) hlost
  let again : Task :=
    .dispatch closingAttempt.doubted pilotCaller.credential false doubted.page.state.generation
  let resent : Client :=
    ⟨doubted.page.withState { doubted.page.state with busy := true, notice := .sending },
      doubted.desk.await (some again)⟩
  let posted := (closingSystem.proceed doubted).proceed resent
  have hretry : (closingSystem.proceed doubted).step ticketNetwork (.user .retry) =
      some posted :=
    congrArg (Option.map (closingSystem.proceed doubted).proceed)
      (rfl : doubted.act (fun _ => true) .retry = some resent)
  have hcall : again.call = closingTask.call := by
    simp only [again, closingTask, Task.call, Attempt.doubted]
  let executed := posted.executed 1 0 again.call (some ⟨200, payload⟩) closed
  have hexecute : posted.step ticketNetwork (.execute 1 (.up .applied) pilotMoments [] 0) =
      some executed :=
    System.step_execute rfl (by rw [hcall, toRequest_closing]) hserve
  obtain ⟨ended, hended, hreceived⟩ : ∃ ended,
      resent.answer compactTokenizer 1 (some ⟨200, payload⟩) = some ended ∧
        .received closingAttempt.doubted.intent response ∈ ended.desk.history :=
    Client.answer_receipt rfl rfl hrequest hdecode hmatches
  have hreply : executed.step ticketNetwork (.reply 1) = some (executed.proceed ended) :=
    System.step_reply exchanges_executed_self hended
  rcases hlate : ticketPilot.serve (.up .applied) closed pilotMoments closeRequest with
    ⟨late, after⟩
  have harrives : (executed.proceed ended).step ticketNetwork
      (.execute 0 (.up .applied) pilotMoments [] 0) =
        some ((executed.proceed ended).executed 0 0 closingTask.call late after) :=
    System.step_execute rfl toRequest_closing hlate
  refine ⟨_, response, runActions_cons_eq_some.2 ⟨_, step_closing,
    runActions_cons_eq_some.2 ⟨_, hfail, runActions_cons_eq_some.2 ⟨_, hretry,
      runActions_cons_eq_some.2 ⟨_, hexecute, runActions_cons_eq_some.2 ⟨_, hreply,
        runActions_cons_eq_some.2 ⟨_, harrives, rfl⟩⟩⟩⟩⟩⟩, ?_⟩
  rw [Attempt.intent_doubted rfl] at hreceived
  exact hreceived

/-- Both posts of the attempt are executed, and it has one receipt. -/
theorem commands_at_most_once_tickets : ∃ s response,
    runActions (System.step ticketNetwork) pilotSystem retriedClosing = some s ∧
      .received closingAttempt response ∈ s.history ∧
      (∃ row, s.receipts 0 ticketScope.appId "k" = [row]) ∧ Exact ticketNetwork s := by
  obtain ⟨s, response, hrun, hreceived⟩ := retriedClosing_run
  have hfacts : validateRecords ticketSpec.definition ticketScope ticketFacts.records =
      .ok ticketFacts := by decide +kernel
  have hfresh : EachAction (System.step ticketNetwork) System.Fresh pilotSystem
      retriedClosing := by
    refine ⟨⟨?_, fun i appId => rfl⟩, fun _ _ => ⟨trivial, fun _ _ => ⟨trivial, fun _ _ =>
      ⟨trivial, fun _ _ => ⟨trivial, fun _ _ => ⟨trivial, fun _ _ => trivial⟩⟩⟩⟩⟩⟩
    rintro attempt ⟨⟩
  have hexact : Exact ticketNetwork s :=
    (commands_at_most_once rfl (fun _ => serves_firstRows digestStore rfl hfacts)
      (by rw [List.append_nil]; exact hfresh) (by decide) hrun rfl).1
  have hsubmitted : .submitted closingAttempt ∈ s.history :=
    Ended.submitted hexact.ordered (.inl ⟨response, hreceived⟩)
  obtain ⟨-, -, hrow⟩ := hexact.once closingAttempt hsubmitted _ _
    (hexact.received closingAttempt response hreceived).2
  exact ⟨s, response, hrun, hreceived, hrow, hexact⟩

theorem retained_for_ever_tickets : ∃ s t attempt,
    runActions (System.step ticketNetwork) ticketSystem lostClosing = some s ∧
      runActions (System.step ticketNetwork) s [.user .disconnect] = some t ∧
        Stuck ticketNetwork s attempt ∧ t.client.page.state.attempt = some attempt := by
  obtain ⟨s, attempt, hrun, hservers, hretained, huncertain, hexpected⟩ := lostClosing_run
  have hfacts : SystemFacts ticketNetwork (0 + lostClosing.length) s :=
    (SystemFacts.start rfl fun _ => serves_ticketServer).run (by decide) fresh_lostClosing hrun
  obtain ⟨snapshot, hload, hrevision⟩ : ∃ snapshot, digestStore.load ticketRows ticketScope =
      .ok snapshot ∧ snapshot.revision = loadedRevision := ⟨_, load_ticketRows, rfl⟩
  have hstuck : Stuck ticketNetwork s attempt := by
    refine ⟨hretained, huncertain, ?_, snapshot, ?_, ?_⟩
    · rw [System.receiptsOf, System.receipts, hservers]
      rfl
    · rw [System.load, hservers]
      exact hload
    · rw [hexpected, hrevision]
      decide
  obtain ⟨t, ht⟩ : ∃ t, runActions (System.step ticketNetwork) s [.user .disconnect] = some t :=
    ⟨_, rfl⟩
  refine ⟨s, t, attempt, hrun, ht, hstuck, (retained_for_ever hfacts hstuck (by decide) ?_ ht).1⟩
  exact ⟨trivial, fun _ _ => trivial⟩

end Evobase.Runtime
