import Evobase.AppSpec.Idempotency

/-!
# What a submission writes

A submission writes the order and every line of the order, once each. Which fields it may write is
chosen by the rule, and the check of the rule keeps them apart from the owner of the order, from
every reference and from every captured price, so these are what they were.

The frame is stated for the writes as a whole (`SubmissionWrites`): their keys, the fields that a
row may change, and the rows that stay. A patch for a line of another order is refused before
anything is written.
-/

namespace Evobase

open Foundation

/-- The record is a line of the order. -/
def IsLineOf (rule : RawSubmitOrderRule) (order : RecordId) (row : RawRecord) : Prop :=
  row.tableId = rule.lineTable ∧ ∃ reference,
    row.values.get? rule.lineOrderField = some (.ref reference) ∧
      reference.tableId = rule.orderTable ∧ reference.recordId = order

def IsOrder (rule : RawSubmitOrderRule) (order : RecordId) (row : RawRecord) : Prop :=
  row.tableId = rule.orderTable ∧ row.id = order

/-- The order goes from draft to submitted and gets the trimmed note of the request, when there is
one. -/
structure OrderWrite (rule : RawSubmitOrderRule) (request : RawSubmitOrder) (old new : RawRecord) :
    Prop where
  draft : old.values.get? rule.stateField = some (.text "draft")
  submitted : new.values.get? rule.stateField = some (.text "submitted")
  note : request.changes.get? rule.notesField = none ∧
      new.values.get? rule.notesField = old.values.get? rule.notesField ∨
    ∃ note, request.changes.get? rule.notesField = some (.text note) ∧
      new.values.get? rule.notesField = some (.text (trim note))
  rest : ∀ field, field ≠ rule.stateField → field ≠ rule.notesField →
    new.values.get? field = old.values.get? field

/-- The line gets the quantity of its patch, when there is one. -/
structure LineWrite (rule : RawSubmitOrderRule) (request : RawSubmitOrder) (old new : RawRecord) :
    Prop where
  patched : ∀ patch ∈ request.linePatches, patch.lineId = old.id →
    ∀ value, patch.changes.get? rule.quantityField = some value →
      new.values.get? rule.quantityField = some value
  unpatched : (∀ patch ∈ request.linePatches, patch.lineId = old.id →
      patch.changes.get? rule.quantityField = none) →
    new.values.get? rule.quantityField = old.values.get? rule.quantityField
  rest : ∀ field, field ≠ rule.quantityField → new.values.get? field = old.values.get? field
  quantity : ∃ n : I64, new.values.get? rule.quantityField = some (.integer n) ∧
    1 ≤ n.val ∧ n.val ≤ 10000
  price : ∃ n : I64, new.values.get? rule.capturedPriceField = some (.money n) ∧ 0 ≤ n.val

/-- Owner, references and captured prices are what they were. -/
structure Kept (spec : RawAppSpec) (old new : RawRecord) : Prop where
  scope : new.scope = old.scope
  owner : ∀ policy ∈ spec.policies, policy.tableId = old.tableId →
    new.values.get? policy.ownerField = old.values.get? policy.ownerField
  references : ∀ field target, spec.hasType old.tableId field (.ref target) →
    new.values.get? field = old.values.get? field
  prices : ∀ capture ∈ spec.captureRules, capture.lineTable = old.tableId →
    new.values.get? capture.capturedPriceField = old.values.get? capture.capturedPriceField

/-- The writes of a submission. -/
structure SubmissionWrites (spec : RawAppSpec) (facts : CheckedRecords) (rule : RawSubmitOrderRule)
    (request : RawSubmitOrder) (writes : List RawRecord) : Prop where
  found : ∃ order ∈ facts.records, IsOrder rule request.orderId order
  once : (writes.map RawRecord.key).Nodup
  targets : ∀ key, key ∈ writes.map RawRecord.key ↔ ∃ old ∈ facts.records, old.key = key ∧
    (IsOrder rule request.orderId old ∨ IsLineOf rule request.orderId old)
  order : ∀ old ∈ facts.records, ∀ new ∈ writes, new.key = old.key →
    IsOrder rule request.orderId old → OrderWrite rule request old new
  lines : ∀ old ∈ facts.records, ∀ new ∈ writes, new.key = old.key →
    IsLineOf rule request.orderId old → LineWrite rule request old new
  kept : ∀ old ∈ facts.records, ∀ new ∈ writes, new.key = old.key → Kept spec old new
  valid : ∃ next, Applied spec facts writes next
  patches : ∀ patch ∈ request.linePatches, ∃ old ∈ facts.records,
    IsLineOf rule request.orderId old ∧ old.id = patch.lineId

section Frame

variable {spec : RawAppSpec} {facts : CheckedRecords} {policy : OwnerRolePolicy}
  {rule : RawSubmitOrderRule} {request : RawSubmitOrder}

theorem hasType_unique {table : TableId} {field : FieldId} {a b : FieldType}
    (ha : spec.hasType table field a) (hb : spec.hasType table field b) : a = b :=
  Option.some.inj (ha.symm.trans hb)

theorem field_ne_of_hasType {table : TableId} {field other : FieldId} {a b : FieldType}
    (ha : spec.hasType table field a) (hb : spec.hasType table other b) (hne : a ≠ b) :
    field ≠ other := by
  rintro rfl
  exact hne (hasType_unique ha hb)

theorem kept_of_order (hspec : WellFormed spec)
    (haccepted : SubmitOrderRule.Accepted spec policy rule)
    (hpolicy : OwnerRolePolicy.Accepted spec policy.rule) {old new : RawRecord}
    (htable : old.tableId = rule.orderTable) (hscope : new.scope = old.scope)
    (hrest : ∀ field, field ≠ rule.stateField → field ≠ rule.notesField →
      new.values.get? field = old.values.get? field) : Kept spec old new := by
  refine ⟨hscope, fun other hother hotherTable => ?_, fun field target htype => ?_,
    fun capture hcapture hline => ?_⟩
  · obtain rfl : other = policy.rule := by
      refine List.inj_on_of_nodup_map hspec.policyTables hother hpolicy.declared ?_
      rw [hotherTable, htable, haccepted.orderTable]
    exact hrest _ haccepted.state_ne_owner.symm haccepted.notes_ne_owner.symm
  · rw [htable] at htype
    exact hrest _ (field_ne_of_hasType htype haccepted.state (by simp))
      (field_ne_of_hasType htype haccepted.notes (by simp))
  · obtain ⟨product, hcaptured⟩ := hspec.captures capture hcapture
    have htype := hcaptured.target
    rw [hline, htable] at htype
    exact hrest _ (field_ne_of_hasType htype haccepted.state (by simp))
      (field_ne_of_hasType htype haccepted.notes (by simp))

theorem kept_of_line (hspec : WellFormed spec)
    (haccepted : SubmitOrderRule.Accepted spec policy rule) {old new : RawRecord}
    (htable : old.tableId = rule.lineTable) (hscope : new.scope = old.scope)
    (hrest : ∀ field, field ≠ rule.quantityField →
      new.values.get? field = old.values.get? field) : Kept spec old new := by
  refine ⟨hscope, fun other hother hotherTable => ?_, fun field target htype => ?_,
    fun capture hcapture hline => ?_⟩
  · have htype := (hspec.policies other hother).owner
    rw [hotherTable, htable] at htype
    exact hrest _ (field_ne_of_hasType htype haccepted.quantity (by simp))
  · rw [htable] at htype
    exact hrest _ (field_ne_of_hasType htype haccepted.quantity (by simp))
  · obtain ⟨product, hcaptured⟩ := hspec.captures capture hcapture
    have htype := hcaptured.target
    rw [hline, htable] at htype
    exact hrest _ (field_ne_of_hasType htype haccepted.quantity (by simp))

theorem orderWrite_updatedOrder (haccepted : SubmitOrderRule.Accepted spec policy rule)
    (hrequest : request.WellFormed rule) {order : RawRecord}
    (hdraft : order.values.get? rule.stateField = some (.text "draft")) :
    OrderWrite rule request order (updatedOrder rule (request.intent rule) order) := by
  have hchanges : ∀ field, (request.intent rule).changes.get? field =
      (request.changes.get? field).map trimNote := fun field => OrdMap.get?_mapEntries _ _ _
  refine ⟨hdraft, by rw [get?_updatedOrder, if_pos rfl], ?_, fun field hstate hnotes => ?_⟩
  · rw [get?_updatedOrder, if_neg haccepted.state_ne_notes.symm, hchanges]
    cases hchange : request.changes.get? rule.notesField with
    | none => exact .inl ⟨rfl, rfl⟩
    | some value =>
        have hnote := (hrequest.notes _ _ hchange).2
        cases value with
        | text note => exact .inr ⟨note, rfl, rfl⟩
        | _ => cases hnote
  · rw [get?_updatedOrder, if_neg hstate, hchanges]
    cases hchange : request.changes.get? field with
    | none => rfl
    | some value => exact absurd (hrequest.notes _ _ hchange).1 hnotes

theorem find?_patch (hrequest : request.WellFormed rule) {patch : LinePatch}
    (hpatch : patch ∈ request.linePatches) :
    (request.intent rule).linePatches.find? (fun p => p.lineId = patch.lineId) = some patch := by
  have hmem : patch ∈ (request.intent rule).linePatches := (mem_sortBy _).2 hpatch
  have hnodup : ((request.intent rule).linePatches.map (·.lineId)).Nodup :=
    ((sortBy_perm _ _).map _).nodup_iff.2 hrequest.lines
  exact find?_key_eq_some hnodup hmem

theorem lineWrite_of_submitLine (hrequest : request.WellFormed rule) {old new : RawRecord}
    (h : submitLine rule (request.intent rule) old = .ok new) :
    new = updatedLine (request.intent rule) old ∧ LineWrite rule request old new := by
  simp only [submitLine, bind_eq_ok, rejectIf_eq_ok, Bool.not_eq_false, Except.ok.injEq] at h
  obtain ⟨-, hquantity, -, hprice, rfl⟩ := h
  have hframe := updatedLine_frame (normalizedIntent_eq_ok_iff.2 ⟨hrequest, rfl⟩) old
  refine ⟨rfl, fun patch hpatch hline value hvalue => ?_, fun hnone => ?_, hframe.2, ?_, ?_⟩
  · have hfind := find?_patch hrequest hpatch
    rw [hline] at hfind
    simp only [updatedLine, hfind, OrdMap.get?_extend, hvalue, Option.some_or]
  · unfold updatedLine
    split
    · next patch hfind =>
        have hmem := (mem_sortBy _).1 (List.mem_of_find?_eq_some hfind)
        have hline : patch.lineId = old.id := by simpa using List.find?_some hfind
        rw [OrdMap.get?_extend, hnone patch hmem hline, Option.none_or]
    · rfl
  · obtain ⟨value, hvalue, hrange⟩ := (Option.any_eq_true _ _).1 hquantity
    cases value with
    | integer n =>
        simp only [isQuantity, Bool.and_eq_true, decide_eq_true_eq] at hrange
        exact ⟨n, hvalue, hrange.1, hrange.2⟩
    | _ => cases hrange
  · cases hvalue : (updatedLine (request.intent rule) old).values.get? rule.capturedPriceField with
    | none => simp [hvalue, isCapturedPrice] at hprice
    | some value =>
        rw [hvalue] at hprice
        cases value with
        | money n => exact ⟨n, rfl, by simpa [isCapturedPrice] using hprice⟩
        | _ => cases hprice

@[simp] theorem updatedLine_scope (intent : NormalizedIntent) (line : RawRecord) :
    (updatedLine intent line).scope = line.scope := by
  unfold updatedLine
  split <;> rfl

theorem mem_linesOf_iff (hspec : WellFormed spec) (hfacts : facts.ValidFor spec)
    (haccepted : SubmitOrderRule.Accepted spec policy rule) {row : RawRecord} {order : RecordId} :
    row ∈ linesOf rule facts.scope order facts ↔ row ∈ facts.records ∧ IsLineOf rule order row := by
  simp only [linesOf, List.mem_filter, decide_eq_true_eq, IsLineOf]
  refine and_congr_right fun hrow => and_congr_right fun htable => ?_
  constructor
  · intro hvalue
    exact ⟨_, hvalue, rfl, rfl⟩
  · rintro ⟨reference, hvalue, hrefTable, hrefId⟩
    obtain ⟨hvalid, -⟩ := (validFor_iff hspec).1 hfacts
    obtain ⟨t, ht, hvalues⟩ := (hvalid.each row hrow).table
    obtain ⟨field, hfield, -⟩ := Option.map_eq_some_iff.1 haccepted.lineOrder
    obtain ⟨t', ht', hmem, hid⟩ := RawAppSpec.field_some hfield
    obtain rfl : t = t' := Option.some.inj (ht.symm.trans (htable ▸ ht'))
    have hrefScope := ((hvalues field hmem).reference reference
      (by rw [hid, RawRecord.value, hvalue]; rfl)).1
    rw [hvalue]
    obtain ⟨refScope, refTable, refId⟩ := reference
    simp only at hrefScope hrefTable hrefId
    rw [hrefScope, hrefTable, hrefId]

variable {host : SessionVerifier} {caller : Caller} {dataRevision : U64} {command : SubmitOrderRule}
  {receipts : ReceiptBook} {batch : CheckedCommandBatch}

/-- An applied submission is about the scope of the facts, and its patches are about lines of the
order. -/
theorem scope_of_decideSubmitOrder
    (h : decideSubmitOrder host caller spec facts dataRevision policy command receipts request =
      .ok (.apply batch)) :
    facts.scope = caller.scope ∧ request.WellFormed command.rule ∧
      (∃ next, Applied spec facts batch.writes next) ∧ ∀ patch ∈ request.linePatches,
        patch.lineId ∈ (linesOf command.rule caller.scope request.orderId facts).map (·.id) := by
  simp only [decideSubmitOrder, bind_eq_ok, rejectIf_eq_ok, okOr_eq_ok, checkScope_eq_ok_iff,
    normalizedIntent_eq_ok_iff] at h
  obtain ⟨context, -, -, ⟨-, hscope, -⟩, -, -, order, -, -, -, _, ⟨hrequest, rfl⟩, h⟩ := h
  split at h
  · split_ifs at h
    cases h
  · simp only [bind_eq_ok, rejectIf_eq_ok, okOr_eq_ok, Exec.lift_eq_ok, Except.ok.injEq,
      CommandDecision.apply.injEq, not_exists, not_and, not_not] at h
    obtain ⟨-, -, -, -, -, hpatches, lineWrites, -, rows, hrows, next, hnext, -, -, -, -, rfl⟩ := h
    exact ⟨hscope, hrequest, ⟨next, rows, hrows, hscope ▸ hnext⟩,
      fun patch hpatch => hpatches patch ((mem_sortBy _).2 hpatch)⟩

theorem submissionWrites_of_decide (hspec : WellFormed spec) (hfacts : facts.ValidFor spec)
    (hpolicy : OwnerRolePolicy.Accepted spec policy.rule)
    (haccepted : SubmitOrderRule.Accepted spec policy command.rule)
    (h : decideSubmitOrder host caller spec facts dataRevision policy command receipts request =
      .ok (.apply batch)) :
    SubmissionWrites spec facts command.rule request batch.writes := by
  obtain ⟨hscope, hrequest, happlied, hpatches⟩ := scope_of_decideSubmitOrder h
  obtain ⟨order, intent, lineWrites, hsubmission⟩ := of_decideSubmitOrder h
  obtain ⟨-, rfl⟩ := normalizedIntent_eq_ok_iff.1 hsubmission.intended
  obtain ⟨horder, horderTable, horderId⟩ := CheckedRecords.find_some hsubmission.found
  have hlines := mapM_eq_ok_iff.1 hsubmission.lines
  rw [← hscope] at hlines hpatches
  have hmem : ∀ row, row ∈ linesOf command.rule facts.scope request.orderId facts ↔
      row ∈ facts.records ∧ IsLineOf command.rule request.orderId row :=
    fun row => mem_linesOf_iff hspec hfacts haccepted
  have hkeys := ((validFor_iff hspec).1 hfacts).1.keys
  have hlineKeys : lineWrites.map RawRecord.key =
      (linesOf command.rule facts.scope request.orderId facts).map RawRecord.key := by
    have hsame : List.Forall₂ Eq (lineWrites.map RawRecord.key)
        ((linesOf command.rule facts.scope request.orderId facts).map RawRecord.key) := by
      rw [List.forall₂_map_left_iff, List.forall₂_map_right_iff]
      refine hlines.flip.imp fun new old hnew => ?_
      rw [(lineWrite_of_submitLine hrequest hnew).1]
      exact (updatedLine_frame hsubmission.intended old).1
    rwa [List.forall₂_eq_eq_eq] at hsame
  have horderKey : (updatedOrder command.rule (request.intent command.rule) order).key = order.key := rfl
  have hwriteKeys : batch.writes.map RawRecord.key = order.key ::
      (linesOf command.rule facts.scope request.orderId facts).map RawRecord.key := by
    rw [hsubmission.writes, List.map_cons, horderKey, hlineKeys]
  have horderUnique : ∀ old ∈ facts.records, IsOrder command.rule request.orderId old → old = order := by
    rintro old hold ⟨htable, hid⟩
    exact eq_of_key_eq hspec hfacts hold horder
      (key_eq_key_iff.2 ⟨htable.trans horderTable.symm, hid.trans horderId.symm⟩)
  -- A write is the write of the order or of the line with its key.
  have hcases : ∀ old ∈ facts.records, ∀ new ∈ batch.writes, new.key = old.key →
      old = order ∧ new = updatedOrder command.rule (request.intent command.rule) order ∨
        IsLineOf command.rule request.orderId old ∧
          submitLine command.rule (request.intent command.rule) old = .ok new := by
    intro old hold new hnew hkey
    rw [hsubmission.writes] at hnew
    rcases List.mem_cons.1 hnew with rfl | hnew
    · exact .inl ⟨eq_of_key_eq hspec hfacts hold horder (hkey.symm.trans horderKey), rfl⟩
    · obtain ⟨line, hline, hsubmit⟩ := exists_of_mem_mapM hsubmission.lines hnew
      rw [← hscope] at hline
      obtain ⟨hlineMem, hlineOf⟩ := (hmem line).1 hline
      have hlineKey : new.key = line.key := by
        rw [(lineWrite_of_submitLine hrequest hsubmit).1]
        exact (updatedLine_frame hsubmission.intended line).1
      obtain rfl := eq_of_key_eq hspec hfacts hold hlineMem (hkey.symm.trans hlineKey)
      exact .inr ⟨hlineOf, hsubmit⟩
  have hdistinct : ∀ old, IsOrder command.rule request.orderId old →
      ¬ IsLineOf command.rule request.orderId old :=
    fun old hisOrder hisLine => haccepted.tables_ne (hisLine.1.symm.trans hisOrder.1)
  refine ⟨⟨order, horder, horderTable, horderId⟩, ?_, fun key => ?_, fun old hold new hnew hkey hisOrder => ?_,
    fun old hold new hnew hkey hisLine => ?_, fun old hold new hnew hkey => ?_, happlied,
    fun patch hpatch => ?_⟩
  · rw [hwriteKeys, List.nodup_cons]
    refine ⟨fun hkey => ?_, (List.Sublist.map _ List.filter_sublist).nodup hkeys⟩
    obtain ⟨line, hline, hlineKey⟩ := List.mem_map.1 hkey
    obtain ⟨hlineMem, hlineOf⟩ := (hmem line).1 hline
    obtain rfl := eq_of_key_eq hspec hfacts hlineMem horder hlineKey
    exact hdistinct line ⟨horderTable, horderId⟩ hlineOf
  · rw [hwriteKeys, List.mem_cons, List.mem_map]
    constructor
    · rintro (rfl | ⟨line, hline, rfl⟩)
      · exact ⟨order, horder, rfl, .inl ⟨horderTable, horderId⟩⟩
      · obtain ⟨hlineMem, hlineOf⟩ := (hmem line).1 hline
        exact ⟨line, hlineMem, rfl, .inr hlineOf⟩
    · rintro ⟨old, hold, rfl, hisOrder | hisLine⟩
      · exact .inl (by rw [horderUnique old hold hisOrder])
      · exact .inr ⟨old, (hmem old).2 ⟨hold, hisLine⟩, rfl⟩
  · rcases hcases old hold new hnew hkey with ⟨rfl, rfl⟩ | ⟨hisLine, -⟩
    · exact orderWrite_updatedOrder haccepted hrequest hsubmission.draft
    · exact absurd hisLine (hdistinct old hisOrder)
  · rcases hcases old hold new hnew hkey with ⟨rfl, rfl⟩ | ⟨-, hsubmit⟩
    · exact absurd hisLine (hdistinct old ⟨horderTable, horderId⟩)
    · exact (lineWrite_of_submitLine hrequest hsubmit).2
  · rcases hcases old hold new hnew hkey with ⟨rfl, rfl⟩ | ⟨hisLine, hsubmit⟩
    · exact kept_of_order hspec haccepted hpolicy horderTable rfl
        (orderWrite_updatedOrder haccepted hrequest hsubmission.draft).rest
    · obtain ⟨rfl, hwrite⟩ := lineWrite_of_submitLine hrequest hsubmit
      exact kept_of_line hspec haccepted hisLine.1 (updatedLine_scope _ _) hwrite.rest
  · obtain ⟨line, hline, hid⟩ := List.mem_map.1 (hpatches patch hpatch)
    obtain ⟨hlineMem, hlineOf⟩ := (hmem line).1 hline
    exact ⟨line, hlineMem, hlineOf, hid⟩

theorem checkScope_yields (scope : Scope) (facts : CheckedRecords)
    (hvalid : ∃ out, validateRecords policy.definition facts.scope facts.records = .ok out) :
    Yields (fun _ => facts.scope = scope) (fun halt => ∃ e, halt = .fail e)
      (policy.checkScope scope facts) := by
  unfold OwnerRolePolicy.checkScope
  by_cases hmatch : scope.appId ≠ policy.definition.appId ∨ facts.scope ≠ scope
  · rw [rejectIf, if_pos hmatch]
    exact ⟨_, rfl⟩
  · rw [rejectIf_bind_of_not hmatch]
    rw [not_or, not_not, not_not] at hmatch
    obtain ⟨out, hout⟩ := hvalid
    rw [← hmatch.2, hout]
    rfl

/-- A note is known to be a text before it is trimmed, so no request stops the check. -/
theorem normalizedIntent_yields (request : RawSubmitOrder) (rule : RawSubmitOrderRule) :
    Yields (fun intent => intent = request.intent rule) (fun halt => ∃ e, halt = .fail e)
      (normalizedIntent request rule) := by
  cases hresult : normalizedIntent request rule with
  | ok intent => exact (normalizedIntent_eq_ok_iff.1 hresult).2
  | error halt =>
      rw [normalizedIntent, bind_eq_error] at hresult
      rcases hresult with hbounds | ⟨-, -, hresult⟩
      · exact ⟨_, (rejectIf_eq_error.1 hbounds).2.symm⟩
      rw [bind_eq_error] at hresult
      rcases hresult with hnotes | ⟨⟨⟩, hnotes, hresult⟩
      · obtain ⟨change, -, hchange⟩ := exists_of_each_eq_error hnotes
        rcases bind_eq_error.1 hchange with hfield | ⟨-, -, hnote⟩
        · exact ⟨_, (rejectIf_eq_error.1 hfield).2.symm⟩
        · exact ⟨_, (rejectIf_eq_error.1 hnote).2.symm⟩
      rw [bind_eq_error] at hresult
      rcases hresult with hpatches | ⟨-, -, hresult⟩
      · obtain ⟨patch, -, hpatch⟩ := exists_of_each_eq_error hpatches
        rcases bind_eq_error.1 hpatch with hlength | ⟨-, -, hchanges⟩
        · exact ⟨_, (rejectIf_eq_error.1 hlength).2.symm⟩
        · obtain ⟨change, -, hchange⟩ := exists_of_each_eq_error hchanges
          rcases bind_eq_error.1 hchange with hfield | ⟨-, -, hquantity⟩
          · exact ⟨_, (rejectIf_eq_error.1 hfield).2.symm⟩
          · exact ⟨_, (rejectIf_eq_error.1 hquantity).2.symm⟩
      have hnote : ∀ c ∈ request.changes.entries, isNote c.2 = true := by
        intro c hc
        have hvisit := each_eq_ok_iff.1 hnotes c hc
        simp only [bind_eq_ok, rejectIf_eq_ok, Bool.not_eq_false] at hvisit
        exact hvisit.choose_spec.2
      rw [bind_eq_error] at hresult
      rcases hresult with hpanic | ⟨changes, -, hresult⟩
      · exact absurd (hpanic.symm.trans ((mapM_trimNote hnote).2 rfl)) (by simp)
      rcases bind_eq_error.1 hresult with hfresh | ⟨-, -, hdone⟩
      · exact ⟨_, (rejectIf_eq_error.1 hfresh).2.symm⟩
      · cases hdone

/-- A patch of a record that is no line of the order is refused, unless the request has been
applied before and is answered with the receipt. -/
theorem refused_of_patch (hspec : WellFormed spec) (hfacts : facts.ValidFor spec)
    (hdefinition : policy.definition = spec)
    (haccepted : SubmitOrderRule.Accepted spec policy command.rule) {patch : LinePatch}
    (hpatch : patch ∈ request.linePatches) (hforeign : ∀ old ∈ facts.records,
      IsLineOf command.rule request.orderId old → old.id ≠ patch.lineId) :
    Yields (fun decision => ∃ context intent receipt, host.resolve caller .submit = .ok context ∧
        receipts.entries.lookup (caller.scope, context.actor, request.idempotencyKey) =
          some (intent, receipt) ∧ decision = .replay receipt)
      (fun halt => ∃ e, halt = .fail e)
      (decideSubmitOrder host caller spec facts dataRevision policy command receipts request) := by
  obtain ⟨hvalid, hnormal⟩ := (validFor_iff hspec).1 hfacts
  have hvalidates : ∃ out, validateRecords policy.definition facts.scope facts.records = .ok out :=
    ⟨facts, hdefinition ▸ (validateRecords_eq_ok_iff hspec).2 ⟨hvalid, by rw [hnormal]⟩⟩
  rw [decideSubmitOrder]
  cases hcontext : host.resolve caller .submit with
  | error e => exact ⟨_, rfl⟩
  | ok context =>
      refine (checkScope_yields caller.scope facts hvalidates).bind fun _ hscope => ?_
      refine (yields_rejectIf ⟨_, rfl⟩).bind fun _ _ => ?_
      refine (yields_okOr ⟨_, rfl⟩).bind fun order _ => ?_
      refine (yields_rejectIf ⟨_, rfl⟩).bind fun _ _ => ?_
      refine (normalizedIntent_yields request command.rule).bind fun intent hintent => ?_
      cases hlookup : receipts.entries.lookup
          (caller.scope, context.actor, request.idempotencyKey) with
      | some entry =>
          obtain ⟨previous, receipt⟩ := entry
          by_cases hsame : previous = intent
          · simp only [if_pos hsame]
            exact ⟨context, previous, receipt, rfl, hlookup, rfl⟩
          · simp only [if_neg hsame]
            exact ⟨_, rfl⟩
      | none =>
          refine (yields_rejectIf ⟨_, rfl⟩).bind fun _ _ => ?_
          refine (yields_rejectIf ⟨_, rfl⟩).bind fun _ _ => ?_
          refine (yields_rejectIf ⟨_, rfl⟩).bind fun _ hknown => ?_
          refine absurd ⟨patch, ?_, fun hline => ?_⟩ hknown
          · rw [hintent]
            exact (mem_sortBy _).2 hpatch
          · obtain ⟨line, hline, hid⟩ := List.mem_map.1 hline
            rw [← hscope, mem_linesOf_iff hspec hfacts haccepted] at hline
            exact hforeign line hline.1 hline.2 hid

end Frame

/-- A submission that is applied writes the order and exactly its lines, each once. The order goes
from draft to submitted and gets the trimmed note, a line gets the quantity of its patch, and
nothing else changes: no owner, no scope, no reference and no captured price. The facts with the
writes are valid. A patch of another record is refused. -/
theorem submitOrder_writes (spec : CheckedAppSpec) (rawPolicy : RawOwnerRolePolicy)
    (policy : OwnerRolePolicy) (hpolicy : OwnerRolePolicy.check spec.definition rawPolicy = .ok policy)
    (rule : RawSubmitOrderRule) (command : SubmitOrderRule)
    (hcommand : SubmitOrderRule.check spec.definition policy rule = .ok command)
    (facts : CheckedRecords) (hfacts : facts.ValidFor spec.definition) (host : SessionVerifier)
    (caller : Caller) (dataRevision : U64) (receipts : ReceiptBook) (request : RawSubmitOrder) :
    (∀ batch, decideSubmitOrder host caller spec.definition facts dataRevision policy command receipts
        request = .ok (.apply batch) →
      SubmissionWrites spec.definition facts rule request batch.writes) ∧
    ∀ patch ∈ request.linePatches,
      (∀ old ∈ facts.records, IsLineOf rule request.orderId old → old.id ≠ patch.lineId) →
      (∃ e, decideSubmitOrder host caller spec.definition facts dataRevision policy command receipts
          request = .error (.fail e)) ∨
        ∃ context intent receipt, host.resolve caller .submit = .ok context ∧
          receipts.entries.lookup (caller.scope, context.actor, request.idempotencyKey) =
            some (intent, receipt) ∧
          decideSubmitOrder host caller spec.definition facts dataRevision policy command receipts
            request = .ok (.replay receipt) := by
  have hspec := wellFormed spec
  obtain ⟨hpolicyAccepted, rfl⟩ := OwnerRolePolicy.check_eq_ok_iff.1 hpolicy
  obtain ⟨haccepted, rfl⟩ := SubmitOrderRule.check_eq_ok_iff.1 hcommand
  refine ⟨fun batch hdecide =>
    submissionWrites_of_decide hspec hfacts hpolicyAccepted haccepted hdecide, ?_⟩
  intro patch hpatch hforeign
  have hyields : Yields _ _ (decideSubmitOrder host caller spec.definition facts dataRevision
      ⟨spec.definition, rawPolicy⟩ ⟨spec.definition, rule⟩ receipts request) :=
    refused_of_patch hspec hfacts rfl haccepted hpatch hforeign
  cases hresult : decideSubmitOrder host caller spec.definition facts dataRevision
      ⟨spec.definition, rawPolicy⟩ ⟨spec.definition, rule⟩ receipts request with
  | error halt =>
      rw [hresult] at hyields
      obtain ⟨e, rfl⟩ := hyields
      exact .inl ⟨e, rfl⟩
  | ok decision =>
      rw [hresult] at hyields
      obtain ⟨context, intent, receipt, hresolve, hlookup, rfl⟩ := hyields
      exact .inr ⟨context, intent, receipt, hresolve, hlookup, rfl⟩

theorem submitOrder_writes_shop :
    ∃ batch, decideSubmitOrder (ticketHost ticketActor) shopCaller shopDefinition shopFacts
        ⟨1, by decide, by decide⟩ shopPolicy shopSubmitRule ⟨[]⟩ submitShopOrder =
          .ok (.apply batch) ∧
      SubmissionWrites shopDefinition shopFacts shopSubmitRule.rule submitShopOrder batch.writes := by
  have hrun : (decideSubmitOrder (ticketHost ticketActor) shopCaller shopDefinition shopFacts
      ⟨1, by decide, by decide⟩ shopPolicy shopSubmitRule ⟨[]⟩ submitShopOrder >>= fun decision =>
    decision.casesOn (fun _ => .ok ()) fun _ => Exec.fail .invalidInput) = .ok () := by
    decide +kernel
  obtain ⟨decision, hdecide, happly⟩ := bind_eq_ok.1 hrun
  cases decision with
  | replay receipt => cases happly
  | apply batch =>
      exact ⟨batch, hdecide, (submitOrder_writes shopSpec shopPolicy.rule shopPolicy
        (by decide +kernel) shopSubmitRule.rule shopSubmitRule (by decide +kernel) shopFacts
        ⟨shopFacts.records, by decide +kernel⟩ (ticketHost ticketActor) shopCaller
        ⟨1, by decide, by decide⟩ ⟨[]⟩ submitShopOrder).1 batch hdecide⟩

end Evobase
