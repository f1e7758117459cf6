import Evobase.Relations.Soundness

/-!
# What an output reveals

Two stores that agree on everything a policy allows (`Alike`) give the same outputs: the
same values and the same errors, budgets included. The policy has to be honest about
complete scans, since the rows of a scanned table are counted before they are read.

The proof goes over the formula, and at every read both stores are asked the same question of the
policy: when it allows, the answers are the same by `Alike`, and when it denies, both stop with
the same error.
-/

namespace Evobase

open Foundation

/-- A complete scan is allowed only when every row of the table and each field is. -/
def OutputPolicy.Honest (policy : OutputPolicy) (store : RelationStore) : Prop :=
  ∀ table fields, policy.allowCompleteScan store.records.scope table fields = true →
    (∀ row ∈ store.records.records, row.tableId = table →
      policy.allowRecord store.records.scope table row.id = true) ∧
    ∀ field ∈ fields, policy.allowField store.records.scope table field = true

/-- The stores agree on whether the record exists and on the values of its allowed fields. -/
def AgreeOn (policy : OutputPolicy) (store store' : RelationStore) (table : TableId)
    (id : RecordId) : Prop :=
  match store.records.find table id, store'.records.find table id with
  | some row, some row' => ∀ field, policy.allowField store.records.scope table field = true →
      row.values.get? field = row'.values.get? field
  | none, none => True
  | _, _ => False

/-- The policy allows both stores and cannot tell them apart. -/
structure Alike (policy : OutputPolicy) (store store' : RelationStore) : Prop where
  spec : store'.spec = store.spec
  scope : store'.records.scope = store.records.scope
  snapshot : policy.allowSnapshot store.spec store.records = true
  snapshot' : policy.allowSnapshot store'.spec store'.records = true
  honest : policy.Honest store
  honest' : policy.Honest store'
  records : ∀ table id, policy.allowRecord store.records.scope table id = true →
    AgreeOn policy store store' table id

/-- Two rows of one key that agree on the allowed fields. -/
structure RowsAlike (policy : OutputPolicy) (row row' : RawRecord) : Prop where
  scope : row'.scope = row.scope
  tableId : row'.tableId = row.tableId
  id : row'.id = row.id
  values : ∀ field, policy.allowField row.scope row.tableId field = true →
    row.values.get? field = row'.values.get? field

section Alike

variable {policy : OutputPolicy} {store store' : RelationStore} {row row' : RawRecord}

theorem RelationStore.scope_of_mem (hrow : row ∈ store.records.records) :
    row.scope = store.records.scope :=
  (RelationStore.validRecord hrow).inScope

theorem Alike.rows (h : Alike policy store store') (hrow : row ∈ store.records.records)
    (hrow' : row' ∈ store'.records.records) (htable : row'.tableId = row.tableId)
    (hid : row'.id = row.id)
    (hallowed : policy.allowRecord store.records.scope row.tableId row.id = true) :
    RowsAlike policy row row' := by
  have hscope := RelationStore.scope_of_mem hrow
  refine ⟨?_, htable, hid, fun field hfield => ?_⟩
  · rw [RelationStore.scope_of_mem hrow', h.scope, hscope]
  · have hagree := h.records row.tableId row.id hallowed
    rw [AgreeOn, RelationStore.find_eq_some_iff.2 ⟨hrow, rfl, rfl⟩,
      RelationStore.find_eq_some_iff.2 ⟨hrow', htable, hid⟩] at hagree
    exact hagree field (hscope ▸ hfield)

theorem Alike.authorizeSnapshot (h : Alike policy store store') :
    store.authorizeSnapshot policy = .ok () ∧ store'.authorizeSnapshot policy = .ok () := by
  simp [RelationStore.authorizeSnapshot, h.snapshot, h.snapshot', rejectIf]

theorem Alike.authorizedRecord (h : Alike policy store store') (table : TableId) (id : RecordId) :
    Agree (fun row row' => row ∈ store.records.records ∧ RowsAlike policy row row')
      (store.authorizedRecord policy table id) (store'.authorizedRecord policy table id) := by
  rw [RelationStore.authorizedRecord, RelationStore.authorizedRecord, h.scope]
  by_cases hallowed : policy.allowRecord store.records.scope table id = true
  · rw [rejectIf_bind_of_not (by simp [hallowed]), rejectIf_bind_of_not (by simp [hallowed])]
    have hagree := h.records table id hallowed
    unfold AgreeOn at hagree
    cases hrow : store.records.find table id <;> cases hrow' : store'.records.find table id <;>
      rw [hrow, hrow'] at hagree
    · rfl
    · exact hagree.elim
    · exact hagree.elim
    · obtain ⟨hmem, rfl, rfl⟩ := RelationStore.find_eq_some_iff.1 hrow
      obtain ⟨hmem', htable, hid⟩ := RelationStore.find_eq_some_iff.1 hrow'
      exact ⟨hmem, h.rows hmem hmem' htable hid hallowed⟩
  · simp [rejectIf, hallowed, Agree]

theorem RowsAlike.authorizeField (h : RowsAlike policy row row') (field : FieldId) :
    RelationStore.authorizeField policy row' field = RelationStore.authorizeField policy row field := by
  rw [RelationStore.authorizeField, RelationStore.authorizeField, h.scope, h.tableId, h.id]

theorem RowsAlike.get? (h : RowsAlike policy row row') {field : FieldId} {u : Unit}
    (hfield : RelationStore.authorizeField policy row field = .ok u) :
    row'.values.get? field = row.values.get? field := by
  rw [RelationStore.authorizeField, rejectIf_eq_ok, not_or] at hfield
  exact (h.values field (by simpa using hfield.2)).symm

theorem Alike.authorizeScan (h : Alike policy store store') (table : TableId)
    (fields : List FieldId) :
    store'.authorizeScan policy table fields = store.authorizeScan policy table fields := by
  rw [RelationStore.authorizeScan, RelationStore.authorizeScan, h.scope]

theorem Alike.requireTarget (h : Alike policy store store') (table : TableId) (field : FieldId)
    (target : TableId) : store'.requireTarget table field target = store.requireTarget table field target := by
  rw [RelationStore.requireTarget, RelationStore.requireTarget, h.spec]

theorem pairwise_rowsOf (store : RelationStore) (table : TableId) :
    ((store.rowsOf table).map (·.id)).Pairwise (· < ·) := by
  have hsorted := (coherent_of_validFor (wellFormed store.spec) store.valid).sorted
  rw [List.pairwise_map]
  refine (hsorted.filter fun row => row.tableId = table).imp_of_mem fun {a b} ha hb hlt => ?_
  have htable := (mem_rowsOf.1 ha).2.trans (mem_rowsOf.1 hb).2.symm
  rw [RawRecord.key, RawRecord.key, Prod.Lex.toLex_lt_toLex] at hlt
  rcases hlt with hlt | ⟨-, hlt⟩
  · exact absurd htable hlt.ne
  · exact hlt

/-- The rows of a table that may be scanned are the same rows in both stores. -/
theorem Alike.rowsOf (h : Alike policy store store') {table : TableId} {fields : List FieldId}
    {u : Unit} (hscan : store.authorizeScan policy table fields = .ok u) :
    List.Forall₂ (fun row row' => row ∈ store.rowsOf table ∧ RowsAlike policy row row')
      (store.rowsOf table) (store'.rowsOf table) := by
  rw [RelationStore.authorizeScan, rejectIf_eq_ok, not_or] at hscan
  have hcomplete : policy.allowCompleteScan store.records.scope table fields = true := by
    simpa using hscan.1
  have hallowed := (h.honest table fields hcomplete).1
  have hallowed' := (h.honest' table fields (by rwa [h.scope])).1
  rw [h.scope] at hallowed'
  have hids : (store.rowsOf table).map (·.id) = (store'.rowsOf table).map (·.id) := by
    refine eq_of_pairwise_lt (fun id : RecordId => id) (pairwise_rowsOf store table)
      (pairwise_rowsOf store' table) fun id => ?_
    simp only [List.mem_map, mem_rowsOf]
    constructor
    · rintro ⟨row, ⟨hrow, rfl⟩, rfl⟩
      have hagree := h.records _ _ (hallowed row hrow rfl)
      rw [AgreeOn, RelationStore.find_eq_some_iff.2 ⟨hrow, rfl, rfl⟩] at hagree
      cases hfind : store'.records.find row.tableId row.id with
      | none =>
          rw [hfind] at hagree
          exact hagree.elim
      | some row' =>
          obtain ⟨hrow', htable, hid⟩ := RelationStore.find_eq_some_iff.1 hfind
          exact ⟨row', ⟨hrow', htable⟩, hid⟩
    · rintro ⟨row', ⟨hrow', rfl⟩, rfl⟩
      have hagree := h.records _ _ (hallowed' row' hrow' rfl)
      have hself := RelationStore.find_eq_some_iff.2 ⟨hrow', rfl, rfl⟩
      rw [AgreeOn, hself] at hagree
      cases hfind : store.records.find row'.tableId row'.id with
      | none =>
          rw [hfind] at hagree
          exact hagree.elim
      | some row =>
          obtain ⟨hrow, htable, hid⟩ := RelationStore.find_eq_some_iff.1 hfind
          exact ⟨row, ⟨hrow, htable⟩, hid⟩
  refine forall₂_of_map_eq hids fun row hrow row' hrow' hid => ?_
  obtain ⟨hmem, htable⟩ := mem_rowsOf.1 hrow
  obtain ⟨hmem', htable'⟩ := mem_rowsOf.1 hrow'
  refine ⟨hrow, h.rows hmem hmem' (htable'.trans htable.symm) hid.symm ?_⟩
  rw [htable]
  exact hallowed row hmem htable

theorem Alike.lookup (h : Alike policy store store') (table : TableId) (record : RecordId)
    (refField targetField : FieldId) :
    store.lookup policy table record refField targetField =
      store'.lookup policy table record refField targetField := by
  rw [RelationStore.lookup, RelationStore.lookup, h.authorizeSnapshot.1, h.authorizeSnapshot.2,
    ok_bind, ok_bind, h.spec, h.scope]
  refine (h.authorizedRecord table record).bind_eq fun row row' _ halike => ?_
  obtain ⟨-, hrows⟩ := halike
  rw [hrows.authorizeField]
  refine bind_congr_ok fun _ hfield => bind_congr_ok fun target _ => bind_congr_ok fun _ _ =>
    bind_congr_ok fun _ _ => ?_
  rw [hrows.get? hfield]
  cases row.values.get? refField with
  | none => rfl
  | some value =>
      cases value with
      | ref reference =>
          refine (h.authorizedRecord _ _).bind_eq fun targetRow targetRow' _ halike => ?_
          obtain ⟨-, htarget⟩ := halike
          rw [htarget.authorizeField]
          refine bind_congr_ok fun _ hread => ?_
          rw [htarget.get? hread]
      | _ => rfl

theorem Alike.reverseRefs (h : Alike policy store store') (table : TableId) (record : RecordId)
    (childTable : TableId) (refField : FieldId) :
    store.reverseRefs policy table record childTable refField =
      store'.reverseRefs policy table record childTable refField := by
  rw [RelationStore.reverseRefs, RelationStore.reverseRefs, h.authorizeSnapshot.1,
    h.authorizeSnapshot.2, ok_bind, ok_bind]
  refine (h.authorizedRecord table record).bind_eq fun _ _ _ _ => ?_
  rw [h.requireTarget, h.authorizeScan]
  refine bind_congr_ok fun _ _ => bind_congr_ok fun _ hscan => ?_
  refine foldlM_eq_of_forall₂ (h.rowsOf hscan) (fun result child child' ⟨_, hchild⟩ => ?_) []
  rw [hchild.authorizeField]
  refine bind_congr_ok fun _ hfield => ?_
  rw [hchild.get? hfield, hchild.id]

theorem authorizedRecord_ok {table : TableId} {id : RecordId}
    (h : store.authorizedRecord policy table id = .ok row) :
    store.records.find table id = some row := by
  rw [RelationStore.authorizedRecord] at h
  obtain ⟨_, -, h⟩ := bind_eq_ok.1 h
  exact okOr_eq_ok.1 h

variable {formulas : CheckedFormulas}

theorem Alike.authorizeExpression (h : Alike policy store store') (fuel : Nat) (table : TableId)
    (expression : Expression) :
    formulas.authorizeExpression store' policy fuel table expression =
      formulas.authorizeExpression store policy fuel table expression := by
  induction fuel generalizing table expression with
  | zero => rfl
  | succ fuel ih =>
      cases expression <;>
        simp only [CheckedFormulas.authorizeExpression, h.spec, h.scope, h.authorizeScan, ih]

theorem RowsAlike.sumChildren (hrow : RowsAlike policy row row') {limits : FormulaLimits}
    {refField : FieldId}
    {eval eval' : RawRecord → Budget → Exec RelationError (Metered Numeric)}
    {children children' : List RawRecord}
    (hchildren : List.Forall₂ (fun child child' => RowsAlike policy child child' ∧
      ∀ budget, eval child budget = eval' child' budget) children children') (budget : Budget) :
    Evobase.sumChildren policy limits refField row eval children budget =
      Evobase.sumChildren policy limits refField row' eval' children' budget := by
  refine foldlM_eq_of_forall₂ hchildren (fun sum child child' ⟨hchild, heval⟩ => ?_) _
  rw [hchild.authorizeField, hrow.tableId, hrow.id]
  refine bind_congr_ok fun _ hfield => ?_
  rw [hchild.get? hfield]
  simp only [heval]

theorem addValues_congr {eval eval' : Expression → Budget → Exec RelationError (Metered Numeric)}
    {values : List Expression} (heval : ∀ value ∈ values, ∀ budget, eval value budget = eval' value budget)
    (budget : Budget) : addValues eval values budget = addValues eval' values budget := by
  have hsame : List.Forall₂ (fun value value' => value = value' ∧ value ∈ values) values values :=
    List.forall₂_same.2 fun value hvalue => ⟨rfl, hvalue⟩
  rw [addValues, addValues]
  refine congrArg (· >>= _) (foldlM_eq_of_forall₂ hsame (fun total value _ ⟨heq, hvalue⟩ => ?_) _)
  subst heq
  rw [heval value hvalue]

/-- An authorized expression has the same value, error and budget for alike rows. -/
theorem Alike.evaluateExpression (h : Alike policy store store') {fuel authFuel room : Nat}
    (hscope : row.scope = store.records.scope) (hrow : RowsAlike policy row row')
    {expression : Expression} {u : Unit}
    (hauth : formulas.authorizeExpression store policy authFuel row.tableId expression = .ok u)
    (budget : Budget) :
    formulas.evaluateExpression store policy fuel room row expression budget =
      formulas.evaluateExpression store' policy fuel room row' expression budget := by
  induction room generalizing row row' authFuel expression u budget with
  | zero => rfl
  | succ room ih =>
      cases authFuel with
      | zero => cases hauth
      | succ authFuel =>
          rw [CheckedFormulas.evaluateExpression, CheckedFormulas.evaluateExpression]
          refine bind_congr_ok fun budget _ => ?_
          cases expression with
          | field field =>
              simp only [hrow.authorizeField, hrow.tableId, h.spec]
              refine bind_congr_ok fun _ hfield => ?_
              rw [hrow.get? hfield]
          | lookup refField targetField =>
              rw [CheckedFormulas.authorizeExpression] at hauth
              obtain ⟨target, htarget, hfields⟩ := bind_eq_ok.1 hauth
              rw [rejectIf_eq_ok, not_or] at hfields
              have href : row'.values.get? refField = row.values.get? refField :=
                (hrow.values refField (by rw [hscope]; simpa using hfields.1)).symm
              simp only [hrow.tableId, hrow.id, h.spec, href, h.lookup]
          | sum childTable refField value =>
              rw [CheckedFormulas.authorizeExpression] at hauth
              obtain ⟨fields, hcollect, hauth⟩ := bind_eq_ok.1 hauth
              obtain ⟨_, hscan, hauth⟩ := bind_eq_ok.1 hauth
              simp only [h.requireTarget, h.authorizeScan, h.spec, hrow.tableId]
              refine bind_congr_ok fun _ _ => bind_congr_ok fun fields _ =>
                bind_congr_ok fun _ hscan => bind_congr_ok fun kind _ => ?_
              have hchildren := (h.rowsOf hscan).imp fun child child' halike => by
                obtain ⟨hmem, htable⟩ := mem_rowsOf.1 halike.1
                exact And.intro halike.2 fun budget =>
                  ih (RelationStore.scope_of_mem hmem) halike.2 (htable ▸ hauth) budget
              rw [hrow.sumChildren hchildren]
          | product left right =>
              rw [CheckedFormulas.authorizeExpression] at hauth
              obtain ⟨_, hleft, hright⟩ := bind_eq_ok.1 hauth
              simp only [ih hscope hrow hleft, ih hscope hrow hright]
          | total values =>
              rw [CheckedFormulas.authorizeExpression, each_eq_ok_iff] at hauth
              exact addValues_congr (fun value hvalue => ih hscope hrow (hauth value hvalue)) budget
          | named name =>
              rw [CheckedFormulas.authorizeExpression] at hauth
              obtain ⟨expression, hname, hauth⟩ := bind_eq_ok.1 hauth
              rw [Exec.expect_eq_ok] at hname
              simp only [hrow.tableId, hname]
              exact ih hscope hrow hauth budget

end Alike

/-- Two stores that a policy cannot tell apart give the same outputs, whatever bounds the
recursion of the formulas. -/
theorem CheckedFormulas.noninterference (formulas : CheckedFormulas) (policy : OutputPolicy)
    (store store' : RelationStore) (h : Alike policy store store') :
    (∀ fuel table record name, formulas.evaluate store policy fuel table record name =
      formulas.evaluate store' policy fuel table record name) ∧
    (∀ table record refField targetField,
      store.lookup policy table record refField targetField =
        store'.lookup policy table record refField targetField) ∧
    ∀ table record childTable refField,
      store.reverseRefs policy table record childTable refField =
        store'.reverseRefs policy table record childTable refField := by
  refine ⟨fun fuel table record name => ?_, h.lookup, h.reverseRefs⟩
  rw [evaluate, evaluate, h.authorizeSnapshot.1, h.authorizeSnapshot.2, ok_bind, ok_bind, h.spec]
  refine bind_congr_ok fun expression _ => ?_
  refine (h.authorizedRecord table record).bind_eq fun row row' hrow halike => ?_
  obtain ⟨hmem, hrows⟩ := halike
  obtain ⟨-, htable, -⟩ := RelationStore.find_eq_some_iff.1 (authorizedRecord_ok hrow)
  refine bind_congr_ok fun _ _ => ?_
  rw [h.authorizeExpression]
  refine bind_congr_ok fun _ hauth => bind_congr_ok fun budget _ => ?_
  rw [h.evaluateExpression (RelationStore.scope_of_mem hmem) hrows (htable ▸ hauth)]

/-- Everything may be read but the products. -/
def hideProducts : OutputPolicy where
  allowSnapshot _ _ := true
  allowRecord _ table _ := table ≠ tblP
  allowField _ table _ := table ≠ tblP
  allowCompleteScan _ table _ := table ≠ tblP

/-- The shop of the order after its product has become dearer. -/
def dearerShop : RelationStore where
  spec := shopSpec
  records := ⟨shopScope, [shopLine recL recO recP
      (.money shopPrice), draftOrder recO "a",
    shopProduct recP ⟨7, by decide, by decide⟩]⟩
  valid := ⟨[shopLine recL recO recP
      (.money shopPrice), draftOrder recO "a",
    shopProduct recP ⟨7, by decide, by decide⟩], by decide +kernel⟩

theorem hideProducts_honest (store : RelationStore) : hideProducts.Honest store := by
  rintro table fields hscan
  exact ⟨by rintro row - rfl; exact hscan, fun field _ => hscan⟩

theorem noninterference_dearerShop :
    (∀ formulas : CheckedFormulas, ∀ fuel table record name,
      formulas.evaluate CheckedFormulas.orderedShop hideProducts fuel table record name =
        formulas.evaluate dearerShop hideProducts fuel table record name) ∧
    CheckedFormulas.orderedShop.records ≠ dearerShop.records := by
  refine ⟨fun formulas => (CheckedFormulas.noninterference formulas hideProducts CheckedFormulas.orderedShop
    dearerShop ⟨rfl, rfl, rfl, rfl, hideProducts_honest _, hideProducts_honest _,
      fun table id htable => ?_⟩).1, by decide +kernel⟩
  have hfind : dearerShop.records.find table id = CheckedFormulas.orderedShop.records.find table id := by
    have hne : (⟨"tbl_p", by decide⟩ : TableId) ≠ table := fun h =>
      of_decide_eq_true htable h.symm
    have hproduct : ∀ price, [shopProduct ⟨"rec_p", by decide⟩ price].find? (fun row =>
        row.tableId = table ∧ row.id = id) = none := by
      intro price
      rw [List.find?_singleton, if_neg]
      exact fun h => hne (of_decide_eq_true h).1
    have happend : ∀ price, ([shopLine ⟨"rec_l", by decide⟩ ⟨"rec_o", by decide⟩
        ⟨"rec_p", by decide⟩ (.money ⟨5, by decide, by decide⟩),
        draftOrder ⟨"rec_o", by decide⟩ "a"] ++ [shopProduct ⟨"rec_p", by decide⟩ price]).find?
        (fun row => row.tableId = table ∧ row.id = id) = _ := fun price => by
      rw [List.find?_append, hproduct price]
    exact (happend _).trans (happend _).symm
  rw [AgreeOn, hfind]
  cases CheckedFormulas.orderedShop.records.find table id with
  | none => trivial
  | some row => exact fun _ _ => rfl

end Evobase
