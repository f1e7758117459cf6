import Evobase.AppSpec.Lifecycle

/-!
# One application for a key

A submission is recorded in the book of receipts under its scope, its actor and its key,
together with the intent of its request. Over any run of submissions each key is applied
at most once; from then on a request under the key is answered from the book: with the
receipt when it asks for the same thing (`SameRequest`), and with a conflict otherwise.

Two requests are compared by the intent that the book keeps: the rule, the order, the trimmed
notes and the patches of the lines, in whatever order these come.
-/

namespace Evobase

open Foundation

def trimNote : Value → Value
  | .text note => .text (trim note)
  | value => value

/-- A request that the rule accepts, whatever the facts are. -/
structure RawSubmitOrder.WellFormed (rule : RawSubmitOrderRule) (request : RawSubmitOrder) :
    Prop where
  key : boundedKey request.idempotencyKey = true
  changes_le : request.changes.entries.length ≤ 1
  notes : ∀ field value, request.changes.get? field = some value →
    field = rule.notesField ∧ isNote value = true
  patches_le : request.linePatches.length ≤ 256
  patches : ∀ patch ∈ request.linePatches, patch.changes.entries.length ≤ 1 ∧
    ∀ field value, patch.changes.get? field = some value →
      field = rule.quantityField ∧ isQuantity value = true
  lines : (request.linePatches.map (·.lineId)).Nodup

/-- What a well formed request asks for. -/
def RawSubmitOrder.intent (rule : RawSubmitOrderRule) (request : RawSubmitOrder) :
    NormalizedIntent :=
  ⟨rule, request.orderId, request.changes.mapEntries fun _ => trimNote,
    sortBy (·.lineId) request.linePatches⟩

/-- The requests ask for the same thing: the same order, the same note up to outer white
space, and the same patches in any order. -/
structure SameRequest (rule rule' : RawSubmitOrderRule) (request request' : RawSubmitOrder) :
    Prop where
  rule : rule = rule'
  order : request.orderId = request'.orderId
  notes : ∀ field, (request.changes.get? field).map trimNote =
    (request'.changes.get? field).map trimNote
  patches : ∀ patch, patch ∈ request.linePatches ↔ patch ∈ request'.linePatches

section Intent

variable {rule rule' : RawSubmitOrderRule} {request request' : RawSubmitOrder}

theorem mapM_trimNote {entries : List (FieldId × Value)} (h : ∀ c ∈ entries, isNote c.2 = true)
    {changes : List (FieldId × Value)} :
    (entries.mapM fun change => match change.2 with
      | .text note => (.ok (change.1, Value.text (trim note)) : Exec PolicyError (FieldId × Value))
      | _ => Exec.panic "validated bounded note") = .ok changes ↔
      changes = entries.map fun c => (c.1, trimNote c.2) := by
  induction entries generalizing changes with
  | nil => rw [List.mapM_nil, pure_eq_ok, List.map_nil, eq_comm]
  | cons change rest ih =>
      obtain ⟨field, value⟩ := change
      have hnote := h (field, value) List.mem_cons_self
      cases value with
      | text note =>
          simp only [List.mapM_cons, ok_bind, bind_eq_ok, pure_eq_ok,
            ih fun c hc => h c (List.mem_cons_of_mem _ hc), List.map_cons, trimNote]
          constructor
          · rintro ⟨_, rfl, rfl⟩
            rfl
          · rintro rfl
            exact ⟨_, rfl, rfl⟩
      | _ => cases hnote

theorem normalizedIntent_eq_ok_iff {intent : NormalizedIntent} :
    normalizedIntent request rule = .ok intent ↔
      request.WellFormed rule ∧ intent = request.intent rule := by
  simp only [normalizedIntent, bind_eq_ok, each_eq_ok_iff, rejectIf_eq_ok, not_or, not_exists,
    not_and, not_not, Bool.not_eq_false, gt_iff_lt, not_lt, Except.ok.injEq]
  have hlines := forall_zip_tail_sortBy_iff (fun patch : LinePatch => patch.lineId)
    request.linePatches
  constructor
  · rintro ⟨-, ⟨hkey, hlength, hpatchesLe⟩, ⟨⟩, hnotes, ⟨⟩, hpatches, changes, hchanges, -, hfresh, rfl⟩
    have hnote : ∀ c ∈ request.changes.entries, isNote c.2 = true := fun c hc => by
      obtain ⟨-, -, hnote⟩ := hnotes c hc
      exact hnote
    obtain rfl := (mapM_trimNote hnote).1 hchanges
    refine ⟨⟨hkey, hlength, fun field value hvalue => ?_, hpatchesLe, fun patch hpatch => ?_,
      hlines.1 hfresh⟩, ?_⟩
    · obtain ⟨-, hfield, hvalue⟩ := hnotes _ (OrdMap.mem_entries_iff.2 hvalue)
      exact ⟨hfield, hvalue⟩
    · obtain ⟨-, hle, hchange⟩ := hpatches patch hpatch
      refine ⟨hle, fun field value hvalue => ?_⟩
      obtain ⟨-, hfield, hvalue⟩ := hchange _ (OrdMap.mem_entries_iff.2 hvalue)
      exact ⟨hfield, hvalue⟩
    · rw [RawSubmitOrder.intent, OrdMap.ofList_map_entries]
  · rintro ⟨h, rfl⟩
    have hnotes : ∀ c ∈ request.changes.entries, c.1 = rule.notesField ∧ isNote c.2 = true :=
      fun c hc => h.notes _ _ (OrdMap.mem_entries_iff.1 hc)
    refine ⟨(), ⟨h.key, h.changes_le, h.patches_le⟩, (), fun c hc =>
      ⟨(), (hnotes c hc).1, (hnotes c hc).2⟩, (), fun patch hpatch => ⟨(), (h.patches patch hpatch).1,
        fun c hc => ?_⟩, _, (mapM_trimNote fun c hc => (hnotes c hc).2).2 rfl, (),
      hlines.2 h.lines, ?_⟩
    · obtain ⟨hfield, hvalue⟩ := (h.patches patch hpatch).2 _ _ (OrdMap.mem_entries_iff.1 hc)
      exact ⟨(), hfield, hvalue⟩
    · rw [RawSubmitOrder.intent, OrdMap.ofList_map_entries]

theorem intent_eq_iff (h : request.WellFormed rule) (h' : request'.WellFormed rule') :
    request.intent rule = request'.intent rule' ↔ SameRequest rule rule' request request' := by
  have hnodup : request.linePatches.Nodup := List.Nodup.of_map _ h.lines
  have hnodup' : request'.linePatches.Nodup := List.Nodup.of_map _ h'.lines
  constructor
  · intro heq
    rw [RawSubmitOrder.intent, RawSubmitOrder.intent, NormalizedIntent.mk.injEq] at heq
    obtain ⟨hrule, horder, hchanges, hpatches⟩ := heq
    refine ⟨hrule, horder, fun field => ?_, fun patch => ?_⟩
    · have hfield := congrArg (fun changes : OrdMap FieldId Value => changes.get? field) hchanges
      simpa only [OrdMap.get?_mapEntries] using hfield
    · rw [← mem_sortBy fun patch : LinePatch => patch.lineId, hpatches, mem_sortBy]
  · rintro ⟨rfl, horder, hnotes, hpatches⟩
    have hperm : request.linePatches.Perm request'.linePatches :=
      (List.perm_ext_iff_of_nodup hnodup hnodup').2 hpatches
    have hchanges : (request.changes.mapEntries fun _ => trimNote) =
        request'.changes.mapEntries fun _ => trimNote := OrdMap.ext_get? fun field => by
      rw [OrdMap.get?_mapEntries, OrdMap.get?_mapEntries, hnotes]
    rw [RawSubmitOrder.intent, RawSubmitOrder.intent, horder, hchanges,
      sortBy_eq_of_perm _ hperm h.lines]

end Intent

abbrev ReceiptKey := Scope × ActorId × String

def CheckedCommandBatch.receiptKey (batch : CheckedCommandBatch) : ReceiptKey :=
  (batch.scope, batch.actor, batch.idempotencyKey)

/-- The book after a batch has been applied. -/
def ReceiptBook.recordApplied (book : ReceiptBook) (batch : CheckedCommandBatch) :
    Exec PolicyError ReceiptBook :=
  match book.entries.lookup batch.receiptKey with
  | some (intent, _) =>
      if intent ≠ batch.intent then .error (.fail .intentConflict) else .ok book
  | none => .ok ⟨(batch.receiptKey, (batch.intent, batch.receipt)) :: book.entries⟩

/-- The arguments of a submission that do not come from the store. -/
structure SubmitCall where
  host : SessionVerifier
  caller : Caller
  dataRevision : U64
  policy : OwnerRolePolicy
  command : SubmitOrderRule
  request : RawSubmitOrder

/-- The answer to a call. -/
def SubmitCall.decide (call : SubmitCall) (spec : CheckedAppSpec) (facts : CheckedRecords)
    (book : ReceiptBook) : Exec PolicyError CommandDecision :=
  decideSubmitOrder call.host call.caller spec.definition facts call.dataRevision call.policy
    call.command book call.request

/-- The caller may submit, and the order exists and is the caller's to submit. -/
structure SubmitCall.Admitted (call : SubmitCall) (spec : CheckedAppSpec) (facts : CheckedRecords)
    (context : TrustedContext) : Prop where
  policy : OwnerRolePolicy.check spec.definition call.policy.rule = .ok call.policy
  command : SubmitOrderRule.check spec.definition call.policy call.command.rule = .ok call.command
  scope : call.caller.scope = facts.scope
  revision : call.dataRevision.val ≠ 0
  resolved : call.host.resolve call.caller .submit = .ok context
  allowed : ∃ order,
    facts.find call.command.rule.orderTable call.request.orderId = some order ∧
      call.policy.allows context order .submit

/-- What an applied submission has been checked for. -/
structure SubmitCall.AppliedBy (call : SubmitCall) (spec : CheckedAppSpec) (facts : CheckedRecords)
    (book : ReceiptBook) (batch : CheckedCommandBatch) : Prop where
  fresh : book.entries.lookup batch.receiptKey = none
  wellFormed : call.request.WellFormed call.command.rule
  intent : batch.intent = call.request.intent call.command.rule
  applied : ∃ next, Applied spec.definition facts batch.writes next

section Calls

variable {spec : CheckedAppSpec} {facts : CheckedRecords} {book : ReceiptBook} {call : SubmitCall}

theorem SubmitCall.appliedBy_of_decide {batch : CheckedCommandBatch}
    (h : call.decide spec facts book = .ok (.apply batch)) :
    call.AppliedBy spec facts book batch := by
  simp only [decide, decideSubmitOrder, bind_eq_ok, rejectIf_eq_ok, okOr_eq_ok,
    checkScope_eq_ok_iff, normalizedIntent_eq_ok_iff] at h
  obtain ⟨context, -, -, ⟨-, hscope, -⟩, -, -, order, -, -, -, _, ⟨hwellFormed, rfl⟩, h⟩ := h
  split at h
  · split_ifs at h
    cases h
  · rename_i hlookup
    simp only [bind_eq_ok, rejectIf_eq_ok, okOr_eq_ok, Exec.lift_eq_ok, Except.ok.injEq,
      CommandDecision.apply.injEq] at h
    obtain ⟨-, -, -, -, -, -, lineWrites, -, rows, hrows, next, hvalidate, proposed, -, -, -, rfl⟩ := h
    exact ⟨hlookup, hwellFormed, rfl, next, rows, hrows, hscope ▸ hvalidate⟩

/-- An admitted call under a key that the book knows is answered from the book. -/
theorem SubmitCall.Admitted.decide_of_lookup {context : TrustedContext}
    (h : call.Admitted spec facts context) (hfacts : facts.ValidFor spec.definition)
    (hwellFormed : call.request.WellFormed call.command.rule) {previous : NormalizedIntent}
    {receipt : SubmissionReceipt}
    (hlookup : book.entries.lookup
      (call.caller.scope, context.actor, call.request.idempotencyKey) = some (previous, receipt)) :
    call.decide spec facts book =
      if previous = call.request.intent call.command.rule then .ok (.replay receipt)
      else .error (.fail .intentConflict) := by
  obtain ⟨hvalid, hnormal⟩ := (validFor_iff (wellFormed spec)).1 hfacts
  obtain ⟨-, hpolicy⟩ := OwnerRolePolicy.check_eq_ok_iff.1 h.policy
  obtain ⟨haccepted, hcommand⟩ := SubmitOrderRule.check_eq_ok_iff.1 h.command
  have hpolicySpec : call.policy.definition = spec.definition := by rw [hpolicy]
  have hcommandSpec : call.command.definition = spec.definition := by rw [hcommand]
  have hscope : call.policy.checkScope call.caller.scope facts = .ok () := by
    rw [checkScope_eq_ok_iff, hpolicySpec, h.scope]
    exact ⟨hvalid.app, rfl, facts, (validateRecords_eq_ok_iff (wellFormed spec)).2
      ⟨hvalid, by rw [hnormal]⟩⟩
  have happ : call.caller.scope.appId = spec.definition.appId := h.scope ▸ hvalid.app
  obtain ⟨order, horder, hallows⟩ := h.allowed
  have hintent := normalizedIntent_eq_ok_iff.2 ⟨hwellFormed, rfl⟩
  have hchecks : ¬ (call.command.definition.appId ≠ call.caller.scope.appId ∨
      spec.definition.appId ≠ call.caller.scope.appId ∨ call.command.definition ≠ spec.definition ∨
      call.policy.definition ≠ spec.definition ∨
      call.command.rule.policyRuleId ≠ call.policy.rule.ruleId ∨ call.dataRevision.val = 0) := by
    simp [hcommandSpec, hpolicySpec, happ, haccepted.policyRule, h.revision]
  rw [decide, decideSubmitOrder, h.resolved, Exec.ofExcept, ok_bind, hscope, ok_bind,
    rejectIf_bind_of_not hchecks, horder, okOr, ok_bind, rejectIf_bind_of_not (not_not.2 hallows),
    hintent, ok_bind, hlookup]

theorem ReceiptBook.recordApplied_of_fresh {batch : CheckedCommandBatch}
    (h : book.entries.lookup batch.receiptKey = none) :
    book.recordApplied batch =
      .ok ⟨(batch.receiptKey, (batch.intent, batch.receipt)) :: book.entries⟩ := by
  rw [recordApplied, h]

end Calls

/-- A submission that has been applied. -/
structure AppliedSubmission where
  rule : RawSubmitOrderRule
  request : RawSubmitOrder
  batch : CheckedCommandBatch

/-- The facts and the book that submissions lead to, with the applied submissions in their
order. The facts may be changed by others between two submissions. A call that is not
answered by an application leaves the facts and the book as they are. -/
inductive SubmissionRun (spec : CheckedAppSpec) :
    List AppliedSubmission → CheckedRecords → ReceiptBook → Prop
  | start (facts : CheckedRecords) (hfacts : facts.ValidFor spec.definition) :
      SubmissionRun spec [] facts ⟨[]⟩
  | submit {log : List AppliedSubmission} {facts next : CheckedRecords} {book book' : ReceiptBook}
      {batch : CheckedCommandBatch} (hrun : SubmissionRun spec log facts book) (call : SubmitCall)
      (hdecide : call.decide spec facts book = .ok (.apply batch))
      (hrecord : book.recordApplied batch = .ok book')
      (happly : Applied spec.definition facts batch.writes next) :
      SubmissionRun spec (log ++ [⟨call.command.rule, call.request, batch⟩]) next book'
  | edit {log : List AppliedSubmission} {facts next : CheckedRecords} {book : ReceiptBook}
      (hrun : SubmissionRun spec log facts book) (hnext : next.ValidFor spec.definition) :
      SubmissionRun spec log next book

/-- The book holds the applied submissions, each under its own key. -/
structure Recorded (log : List AppliedSubmission) (book : ReceiptBook) : Prop where
  entries : book.entries = (log.map fun entry =>
    (entry.batch.receiptKey, (entry.batch.intent, entry.batch.receipt))).reverse
  keys : (log.map fun entry => entry.batch.receiptKey).Nodup
  intents : ∀ entry ∈ log, entry.request.WellFormed entry.rule ∧
    entry.batch.intent = entry.request.intent entry.rule

theorem Recorded.lookup_eq_some {log : List AppliedSubmission} {book : ReceiptBook}
    (h : Recorded log book) {entry : AppliedSubmission} (hentry : entry ∈ log) :
    book.entries.lookup entry.batch.receiptKey = some (entry.batch.intent, entry.batch.receipt) := by
  have hkeys : (book.entries.map (·.1)).Nodup := by
    rw [h.entries, List.map_reverse, List.nodup_reverse, List.map_map]
    exact h.keys
  rw [lookup_eq_some_iff_mem hkeys, h.entries, List.mem_reverse]
  exact List.mem_map.2 ⟨entry, hentry, rfl⟩

theorem Recorded.fresh {log : List AppliedSubmission} {book : ReceiptBook} (h : Recorded log book)
    {key : ReceiptKey} (hkey : book.entries.lookup key = none) :
    key ∉ log.map fun entry => entry.batch.receiptKey := by
  intro hmem
  obtain ⟨entry, hentry, rfl⟩ := List.mem_map.1 hmem
  rw [h.lookup_eq_some hentry] at hkey
  cases hkey

theorem SubmissionRun.recorded {spec : CheckedAppSpec} {log : List AppliedSubmission}
    {facts : CheckedRecords} {book : ReceiptBook} (h : SubmissionRun spec log facts book) :
    facts.ValidFor spec.definition ∧ Recorded log book := by
  induction h with
  | start facts hfacts => exact ⟨hfacts, rfl, List.nodup_nil, by simp⟩
  | edit hrun hnext ih => exact ⟨hnext, ih.2⟩
  | @submit log facts next book book' batch hrun call hdecide hrecord happly ih =>
      obtain ⟨hfacts, hrecorded⟩ := ih
      have happlied := SubmitCall.appliedBy_of_decide hdecide
      rw [ReceiptBook.recordApplied_of_fresh happlied.fresh, Except.ok.injEq] at hrecord
      subst hrecord
      refine ⟨applied_validFor (wellFormed spec) happly, ?_, ?_, ?_⟩
      · simp [hrecorded.entries]
      · rw [List.map_append, List.nodup_append]
        refine ⟨hrecorded.keys, by simp, fun key hkey key' hkey' heq => ?_⟩
        obtain rfl : key' = batch.receiptKey := by simpa using hkey'
        exact hrecorded.fresh happlied.fresh (heq ▸ hkey)
      · intro entry hentry
        rcases List.mem_append.1 hentry with hold | hlast
        · exact hrecorded.intents entry hold
        · obtain rfl := List.mem_singleton.1 hlast
          exact ⟨happlied.wellFormed, happlied.intent⟩

/-- Over any run every key is applied at most once, and recording the application never
fails. After that an admitted, well formed request under the key is answered with the
original receipt when it asks for the same thing, and with a conflict otherwise. -/
theorem submitOrder_idempotent (spec : CheckedAppSpec) (log : List AppliedSubmission)
    (facts : CheckedRecords) (book : ReceiptBook) (hrun : SubmissionRun spec log facts book) :
    (log.map fun entry => entry.batch.receiptKey).Nodup ∧
    (∀ call batch, SubmitCall.decide call spec facts book = .ok (.apply batch) →
      (batch.receiptKey ∉ log.map fun entry => entry.batch.receiptKey) ∧
        (∃ book', book.recordApplied batch = .ok book') ∧
        ∃ next, Applied spec.definition facts batch.writes next) ∧
    ∀ entry ∈ log, ∀ call context, SubmitCall.Admitted call spec facts context →
      (call.caller.scope, context.actor, call.request.idempotencyKey) = entry.batch.receiptKey →
      call.request.WellFormed call.command.rule →
        (SameRequest entry.rule call.command.rule entry.request call.request →
          call.decide spec facts book = .ok (.replay entry.batch.receipt)) ∧
        (¬ SameRequest entry.rule call.command.rule entry.request call.request →
          call.decide spec facts book = .error (.fail .intentConflict)) := by
  obtain ⟨hfacts, hrecorded⟩ := hrun.recorded
  refine ⟨hrecorded.keys, fun call batch hdecide => ?_, ?_⟩
  · have happlied := SubmitCall.appliedBy_of_decide hdecide
    exact ⟨hrecorded.fresh happlied.fresh,
      ⟨_, ReceiptBook.recordApplied_of_fresh happlied.fresh⟩, happlied.applied⟩
  · intro entry hentry call context hadmitted hkey hwellFormed
    obtain ⟨hentryFormed, hentryIntent⟩ := hrecorded.intents entry hentry
    have hlookup := hrecorded.lookup_eq_some hentry
    rw [← hkey] at hlookup
    have hdecide := hadmitted.decide_of_lookup hfacts hwellFormed hlookup
    rw [hentryIntent] at hdecide
    have hsame := intent_eq_iff hentryFormed hwellFormed
    exact ⟨fun h => by rw [hdecide, if_pos (hsame.2 h)],
      fun h => by rw [hdecide, if_neg fun heq => h (hsame.1 heq)]⟩

/-- The submission of the order of the shop. -/
def submitShopCall : SubmitCall where
  host := ticketHost ticketActor
  caller := shopCaller
  dataRevision := U64.one
  policy := shopPolicy
  command := shopSubmitRule
  request := submitShopOrder

def shopContext : TrustedContext :=
  ⟨ticketActor, shopScope, .empty, U64.one, "store:t"⟩

theorem submitShopCall_admitted :
    submitShopCall.Admitted shopSpec submittedShopFacts shopContext where
  policy := by decide +kernel
  command := by decide +kernel
  scope := rfl
  revision := by decide
  resolved := by decide +kernel
  allowed := ⟨submittedOrder ⟨"rec_o", by decide⟩ ticketActor.text, by decide +kernel,
    by decide +kernel⟩

theorem submitOrder_idempotent_shop :
    ∃ log book receipt, SubmissionRun shopSpec log submittedShopFacts book ∧
      submitShopCall.decide shopSpec submittedShopFacts book = .ok (.replay receipt) := by
  have hrun : (submitShopCall.decide shopSpec shopFacts ⟨[]⟩ >>= fun decision =>
    match decision with
    | .apply batch =>
        okOr (.fail .invalidInput) (applyWrites shopFacts.records batch.writes) >>= fun rows =>
          Exec.lift (fun _ => .invalidInput) (validateRecords shopDefinition shopScope rows) >>=
            fun next => .ok (next, batch.receiptKey)
    | .replay _ => Exec.fail .invalidInput) =
      .ok (submittedShopFacts, (shopScope, ticketActor, "k")) := by decide +kernel
  obtain ⟨decision, hdecide, happly⟩ := bind_eq_ok.1 hrun
  cases decision with
  | replay receipt => cases happly
  | apply batch =>
      simp only [bind_eq_ok, okOr_eq_ok, Exec.lift_eq_ok, Except.ok.injEq, Prod.mk.injEq] at happly
      obtain ⟨rows, hrows, next, hvalidate, rfl, hkey⟩ := happly
      have happlied := SubmitCall.appliedBy_of_decide hdecide
      have hlater := SubmissionRun.submit
        (.start shopFacts ⟨shopFacts.records, by decide +kernel⟩) submitShopCall hdecide
        (ReceiptBook.recordApplied_of_fresh happlied.fresh) ⟨rows, hrows, hvalidate⟩
      refine ⟨_, _, batch.receipt, hlater, ?_⟩
      exact ((submitOrder_idempotent shopSpec _ _ _ hlater).2.2 _ List.mem_cons_self
        submitShopCall shopContext submitShopCall_admitted hkey.symm happlied.wellFormed).1
        ⟨rfl, rfl, fun _ => rfl, fun _ => Iff.rfl⟩

end Evobase
