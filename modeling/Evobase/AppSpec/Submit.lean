import Evobase.AppSpec.Transition

/-!
# Submitting an order

`decideSubmitOrder` moves an order from draft to submitted, writes its note and the
quantities of its lines, and leaves everything else of the order and of the lines as it
is. A request that has been applied before under the same key is answered from the book of
receipts.
-/

namespace Evobase

open Foundation

structure LinePatch where
  lineId : RecordId
  changes : OrdMap FieldId Value
deriving DecidableEq

structure RawSubmitOrder where
  orderId : RecordId
  idempotencyKey : String
  changes : OrdMap FieldId Value
  linePatches : List LinePatch
deriving DecidableEq

structure NormalizedIntent where
  command : RawSubmitOrderRule
  orderId : RecordId
  changes : OrdMap FieldId Value
  linePatches : List LinePatch
deriving DecidableEq

structure SubmissionReceipt where
  orderId : RecordId
  state : String
deriving DecidableEq

structure CheckedCommandBatch where
  scope : Scope
  actor : ActorId
  bindingId : String
  expectedRevision : U64
  membershipRevision : U64
  policyRevision : U64
  idempotencyKey : String
  intent : NormalizedIntent
  writes : List RawRecord
  receipt : SubmissionReceipt
deriving DecidableEq

/-- The receipts of applied requests, by scope, actor and key. -/
structure ReceiptBook where
  entries : List ((Scope × ActorId × String) × (NormalizedIntent × SubmissionReceipt))

inductive CommandDecision where
  | apply (batch : CheckedCommandBatch)
  | replay (receipt : SubmissionReceipt)
deriving DecidableEq

def isQuantity : Value → Bool
  | .integer n => 1 ≤ n.val && n.val ≤ 10000
  | _ => false

def isNote : Value → Bool
  | .text note => note.utf8ByteSize ≤ 1000
  | _ => false

def normalizedIntent (request : RawSubmitOrder) (rule : RawSubmitOrderRule) :
    Exec PolicyError NormalizedIntent := do
  rejectIf (boundedKey request.idempotencyKey = false ∨ request.changes.entries.length > 1 ∨
    request.linePatches.length > 256) (.fail .invalidInput)
  each (fun change => do
    rejectIf (change.1 ≠ rule.notesField) (.fail .immutableField)
    rejectIf (isNote change.2 = false) (.fail .invalidInput)) request.changes.entries
  each (fun patch => do
    rejectIf (patch.changes.entries.length > 1) (.fail .invalidInput)
    each (fun change => do
      rejectIf (change.1 ≠ rule.quantityField) (.fail .immutableField)
      rejectIf (isQuantity change.2 = false) (.fail .invalidQuantity)) patch.changes.entries)
    request.linePatches
  let changes ← request.changes.entries.mapM fun change =>
    match change.2 with
    | .text note => .ok (change.1, Value.text (trim note))
    | _ => Exec.panic "validated bounded note"
  let linePatches := sortBy (·.lineId) request.linePatches
  rejectIf (∃ pair ∈ linePatches.zip linePatches.tail, pair.1.lineId = pair.2.lineId)
    (.fail .invalidInput)
  .ok ⟨rule, request.orderId, .ofList changes, linePatches⟩

/-- The order after the submission. -/
def updatedOrder (rule : RawSubmitOrderRule) (intent : NormalizedIntent) (order : RawRecord) :
    RawRecord :=
  { order with
    values := (order.values.extend intent.changes).insert rule.stateField (.text "submitted") }

/-- The line after the submission: its quantity is replaced when the request says so. -/
def updatedLine (intent : NormalizedIntent) (line : RawRecord) : RawRecord :=
  match intent.linePatches.find? fun patch => patch.lineId = line.id with
  | some patch => { line with values := line.values.extend patch.changes }
  | none => line

def isCapturedPrice : Option Value → Bool
  | some (.money price) => 0 ≤ price.val
  | _ => false

/-- A line as it will be written. -/
def submitLine (rule : RawSubmitOrderRule) (intent : NormalizedIntent) (line : RawRecord) :
    Exec PolicyError RawRecord := do
  let updated := updatedLine intent line
  rejectIf ((updated.values.get? rule.quantityField).any isQuantity = false)
    (.fail .invalidQuantity)
  rejectIf (isCapturedPrice (updated.values.get? rule.capturedPriceField) = false)
    (.fail .invalidInput)
  .ok updated

def applyWrites (rows writes : List RawRecord) : Option (List RawRecord) :=
  writes.foldlM (fun rows write => replaceRow write rows) rows

/-- The lines of an order. -/
def linesOf (rule : RawSubmitOrderRule) (scope : Scope) (order : RecordId)
    (facts : CheckedRecords) : List RawRecord :=
  facts.records.filter fun row => row.tableId = rule.lineTable ∧
    row.values.get? rule.lineOrderField = some (.ref ⟨scope, rule.orderTable, order⟩)

def decideSubmitOrder (host : SessionVerifier) (caller : Caller) (spec : RawAppSpec)
    (facts : CheckedRecords) (dataRevision : U64) (policy : OwnerRolePolicy)
    (command : SubmitOrderRule) (receipts : ReceiptBook) (request : RawSubmitOrder) :
    Exec PolicyError CommandDecision := do
  let context ← Exec.ofExcept .authority (host.resolve caller .submit)
  policy.checkScope caller.scope facts
  rejectIf (command.definition.appId ≠ caller.scope.appId ∨ spec.appId ≠ caller.scope.appId ∨
    command.definition ≠ spec ∨ policy.definition ≠ spec ∨
    command.rule.policyRuleId ≠ policy.rule.ruleId ∨ dataRevision.val = 0)
    (.fail .scopeMismatch)
  let order ← okOr (.fail .denied) (facts.find command.rule.orderTable request.orderId)
  rejectIf (¬ policy.allows context order .submit) (.fail .denied)
  let intent ← normalizedIntent request command.rule
  match receipts.entries.lookup (caller.scope, context.actor, request.idempotencyKey) with
  | some (previous, receipt) =>
      if previous = intent then .ok (.replay receipt) else .error (.fail .intentConflict)
  | none => do
      rejectIf (order.values.get? command.rule.stateField ≠ some (.text "draft")) (.fail .notDraft)
      let lines := linesOf command.rule caller.scope request.orderId facts
      rejectIf (lines = []) (.fail .emptyOrder)
      rejectIf (∃ patch ∈ intent.linePatches, patch.lineId ∉ lines.map (·.id))
        (.fail .invalidInput)
      let lineWrites ← lines.mapM (submitLine command.rule intent)
      let writes := updatedOrder command.rule intent order :: lineWrites
      let finalRows ← okOr (.fail .invalidInput) (applyWrites facts.records writes)
      let checkedFinal ← Exec.lift (fun _ => .invalidInput)
        (validateRecords spec caller.scope finalRows)
      let proposed ← okOr (.fail .invalidInput)
        (checkedFinal.find command.rule.orderTable request.orderId)
      rejectIf (¬ policy.allows context proposed .submit) (.fail .denied)
      .ok (.apply {
        scope := caller.scope
        actor := context.actor
        bindingId := context.bindingId
        expectedRevision := dataRevision
        membershipRevision := context.membershipRevision
        policyRevision := policy.rule.revision
        idempotencyKey := request.idempotencyKey
        intent
        writes
        receipt := ⟨request.orderId, "submitted"⟩ })

theorem of_normalizedIntent {request : RawSubmitOrder} {rule : RawSubmitOrderRule}
    {intent : NormalizedIntent} (h : normalizedIntent request rule = .ok intent) :
    (∀ field value, intent.changes.get? field = some value →
      field = rule.notesField ∧ ∃ note, request.changes.get? field = some (.text note) ∧
        value = .text (trim note)) ∧
    ∀ patch ∈ intent.linePatches, ∀ field value, patch.changes.get? field = some value →
      field = rule.quantityField ∧ isQuantity value = true := by
  simp only [normalizedIntent, bind_eq_ok, each_eq_ok_iff, rejectIf_eq_ok, mapM_eq_ok_iff,
    Except.ok.injEq, not_not, Bool.not_eq_false] at h
  obtain ⟨-, -, ⟨⟩, hnotes, ⟨⟩, hpatches, changes, hchanges, -, -, rfl⟩ := h
  refine ⟨fun field value hvalue => ?_, fun patch hpatch field value hvalue => ?_⟩
  · have hshape : changes.map (·.1) = request.changes.entries.map (·.1) ∧
        ∀ c ∈ changes, ∃ note, (c.1, Value.text note) ∈ request.changes.entries ∧
          c.2 = .text (trim note) := by
      clear hnotes hpatches hvalue
      generalize request.changes.entries = entries at hchanges
      induction hchanges with
      | nil => simp
      | @cons change c _ _ hhead _ ih =>
          obtain ⟨id, v⟩ := change
          cases v with
          | text note =>
              obtain rfl : (id, Value.text (trim note)) = c := Except.ok.inj hhead
              refine ⟨by simp [ih.1], fun d hd => ?_⟩
              rcases List.mem_cons.1 hd with rfl | hd
              · exact ⟨note, by simp, rfl⟩
              · obtain ⟨note', hmem, heq⟩ := ih.2 d hd
                exact ⟨note', by simp [hmem], heq⟩
          | _ => cases hhead
    have hnodup : (changes.map (·.1)).Nodup := by
      rw [hshape.1]
      exact OrdMap.keys_nodup _
    obtain ⟨note, hmem, heq⟩ := hshape.2 _ ((OrdMap.get?_ofList_eq_some_iff hnodup).1 hvalue)
    obtain ⟨-, hfield, -⟩ := hnotes _ hmem
    exact ⟨hfield, note, OrdMap.mem_entries_iff.1 hmem, heq⟩
  · obtain ⟨-, -, hentries⟩ := hpatches patch ((mem_sortBy _).1 hpatch)
    obtain ⟨-, hfield, hquantity⟩ := hentries _ (OrdMap.mem_entries_iff.2 hvalue)
    exact ⟨hfield, hquantity⟩

/-- What an applied submission has looked at and what it writes. -/
structure Submission (spec : RawAppSpec) (facts : CheckedRecords) (command : SubmitOrderRule)
    (request : RawSubmitOrder) (batch : CheckedCommandBatch) (scope : Scope) (order : RawRecord)
    (intent : NormalizedIntent) (lineWrites : List RawRecord) : Prop where
  definition : command.definition = spec
  found : facts.find command.rule.orderTable request.orderId = some order
  intended : normalizedIntent request command.rule = .ok intent
  draft : order.values.get? command.rule.stateField = some (.text "draft")
  lines : (linesOf command.rule scope request.orderId facts).mapM (submitLine command.rule intent) =
    .ok lineWrites
  writes : batch.writes = updatedOrder command.rule intent order :: lineWrites

theorem of_decideSubmitOrder {host : SessionVerifier} {caller : Caller} {spec : RawAppSpec}
    {facts : CheckedRecords} {dataRevision : U64} {policy : OwnerRolePolicy}
    {command : SubmitOrderRule} {receipts : ReceiptBook} {request : RawSubmitOrder}
    {batch : CheckedCommandBatch}
    (h : decideSubmitOrder host caller spec facts dataRevision policy command receipts request =
      .ok (.apply batch)) :
    ∃ order intent lineWrites,
      Submission spec facts command request batch caller.scope order intent lineWrites := by
  simp only [decideSubmitOrder, bind_eq_ok, rejectIf_eq_ok, okOr_eq_ok, not_or, not_not] at h
  obtain ⟨context, -, ⟨⟩, -, -, ⟨-, -, hdefinition, -⟩, order, horder, -, -, intent, hintent, h⟩ := h
  split at h
  · split_ifs at h
    cases h
  · simp only [bind_eq_ok, rejectIf_eq_ok, okOr_eq_ok, not_not, Except.ok.injEq,
      CommandDecision.apply.injEq] at h
    obtain ⟨-, hdraft, -, -, -, -, lineWrites, hlines, rows, -, checked, -, proposed, -, -, -, rfl⟩ := h
    exact ⟨order, intent, lineWrites, hdefinition, horder, hintent, hdraft, hlines, rfl⟩

theorem get?_updatedOrder (rule : RawSubmitOrderRule) (intent : NormalizedIntent)
    (order : RawRecord) (id : FieldId) :
    (updatedOrder rule intent order).values.get? id =
      if id = rule.stateField then some (.text "submitted")
      else (intent.changes.get? id).or (order.values.get? id) := by
  rw [updatedOrder, OrdMap.get?_insert, OrdMap.get?_extend]

/-- A line changes at most in its quantity. -/
theorem updatedLine_frame {request : RawSubmitOrder} {rule : RawSubmitOrderRule}
    {intent : NormalizedIntent} (h : normalizedIntent request rule = .ok intent)
    (line : RawRecord) :
    (updatedLine intent line).key = line.key ∧ ∀ id, id ≠ rule.quantityField →
      (updatedLine intent line).values.get? id = line.values.get? id := by
  unfold updatedLine
  split
  · rename_i patch hpatch
    refine ⟨rfl, fun id hid => ?_⟩
    rw [OrdMap.get?_extend]
    cases hvalue : patch.changes.get? id with
    | none => rw [Option.none_or]
    | some value =>
        have hmem := List.mem_of_find?_eq_some hpatch
        exact absurd ((of_normalizedIntent h).2 patch hmem id value hvalue).1 hid
  · exact ⟨rfl, fun _ _ => rfl⟩

theorem Submission.mem_lineWrites {spec : RawAppSpec} {facts : CheckedRecords}
    {command : SubmitOrderRule} {request : RawSubmitOrder} {batch : CheckedCommandBatch}
    {scope : Scope} {order : RawRecord} {intent : NormalizedIntent} {lineWrites : List RawRecord}
    (h : Submission spec facts command request batch scope order intent lineWrites)
    {write : RawRecord} (hwrite : write ∈ lineWrites) :
    ∃ line ∈ facts.records, line.tableId = command.rule.lineTable ∧
      write = updatedLine intent line := by
  obtain ⟨line, hline, hsubmit⟩ := exists_of_mem_mapM h.lines hwrite
  obtain ⟨hmem, htable, -⟩ : line ∈ facts.records ∧ _ := by
    simpa [linesOf] using hline
  simp only [submitLine, bind_eq_ok, Except.ok.injEq] at hsubmit
  obtain ⟨-, -, -, -, rfl⟩ := hsubmit
  exact ⟨line, hmem, htable, rfl⟩

end Evobase
