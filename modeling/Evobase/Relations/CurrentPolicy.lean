import Evobase.AppSpec.Projection
import Evobase.Relations.Noninterference

/-!
# Row policies as an output policy

`CurrentOutputPolicy` answers the questions of the relation store about one record or one
field at a time, and asks the host for the caller at every question. It shows exactly the
cells that `project` shows, and it never allows a complete scan.

The agreement is stated for cells, records and scans, and for the evaluation of formulas: a value
depends on the cells that are read and on no others (`SameKeys`).
-/

namespace Evobase

open Foundation

/-- What the answers are made from. -/
structure CurrentOutputPolicy where
  host : SessionVerifier
  caller : Caller
  facts : CheckedRecords
  policies : List OwnerRolePolicy

namespace CurrentOutputPolicy

variable (output : CurrentOutputPolicy)

/-- The caller and the policy of a table, when the facts are of the scope. -/
def current (scope : Scope) (table : TableId) : Option (TrustedContext × OwnerRolePolicy) := do
  if scope ≠ output.caller.scope then none
  else
    let context ← (output.host.resolve output.caller .read).toOption
    let policy ← output.policies.find? fun policy => policy.rule.tableId = table
    let _ ← (policy.checkScope scope output.facts).toOption
    some (context, policy)

def allowSnapshot (spec : CheckedAppSpec) (facts : CheckedRecords) : Bool :=
  facts = output.facts && output.policies ≠ [] &&
    output.policies.all (fun policy => policy.definition = spec.definition) &&
    (output.host.resolve output.caller .read).toBool

def allowRecord (scope : Scope) (table : TableId) (record : RecordId) : Bool :=
  match output.current scope table with
  | none => false
  | some (context, policy) =>
      (output.facts.find table record).any fun row => policy.allows context row .read

def allowField (scope : Scope) (table : TableId) (field : FieldId) : Bool :=
  (output.current scope table).any fun (_, policy) => field ∈ policy.rule.readFields.keys

/-- A complete scan is never allowed, even of a table without rows. -/
def toOutputPolicy : OutputPolicy where
  allowSnapshot := output.allowSnapshot
  allowRecord := output.allowRecord
  allowField := output.allowField
  allowCompleteScan _ _ _ := false

@[simp] theorem allowSnapshot_toOutputPolicy :
    output.toOutputPolicy.allowSnapshot = output.allowSnapshot := rfl

@[simp] theorem allowRecord_toOutputPolicy :
    output.toOutputPolicy.allowRecord = output.allowRecord := rfl

@[simp] theorem allowField_toOutputPolicy :
    output.toOutputPolicy.allowField = output.allowField := rfl

theorem authorizeScan_denied {output : CurrentOutputPolicy} {store : RelationStore}
    {table : TableId} {fields : List FieldId} {u : Unit} :
    store.authorizeScan output.toOutputPolicy table fields ≠ .ok u := by
  rw [RelationStore.authorizeScan, ne_eq, rejectIf_eq_ok, not_not]
  exact .inl rfl

end CurrentOutputPolicy

/-- A field of a record of a table. -/
structure Cell where
  table : TableId
  record : RecordId
  field : FieldId

/-- The projection under a policy shows the cell. -/
def Projects (host : SessionVerifier) (caller : Caller) (facts : CheckedRecords)
    (policy : OwnerRolePolicy) (purpose : ProjectionPurpose) (cell : Cell) : Prop :=
  cell.table = policy.rule.tableId ∧ ∃ out, project host caller facts policy purpose = .ok out ∧
    ∃ row ∈ out.rows, row.id = cell.record ∧ cell.field ∈ row.values.keys

section Cells

variable {output : CurrentOutputPolicy} {spec : RawAppSpec} {policy : OwnerRolePolicy}
  {scope : Scope} {table : TableId}

/-- The policies were checked against the definition that the facts are valid for. -/
structure CurrentOutputPolicy.CheckedFor (output : CurrentOutputPolicy) (spec : RawAppSpec) :
    Prop where
  facts : output.facts.ValidFor spec
  policies : ∀ policy ∈ output.policies, ∃ rule, OwnerRolePolicy.check spec rule = .ok policy

theorem CurrentOutputPolicy.CheckedFor.accepted (h : output.CheckedFor spec)
    (hpolicy : policy ∈ output.policies) :
    policy.definition = spec ∧ OwnerRolePolicy.Accepted spec policy.rule := by
  obtain ⟨rule, hcheck⟩ := h.policies policy hpolicy
  obtain ⟨haccepted, rfl⟩ := OwnerRolePolicy.check_eq_ok_iff.1 hcheck
  exact ⟨rfl, haccepted⟩

theorem policy_unique (hspec : WellFormed spec) (h : output.CheckedFor spec)
    {policy' : OwnerRolePolicy} (hpolicy : policy ∈ output.policies)
    (hpolicy' : policy' ∈ output.policies) (htable : policy'.rule.tableId = policy.rule.tableId) :
    policy' = policy := by
  obtain ⟨hdefinition, haccepted⟩ := h.accepted hpolicy
  obtain ⟨hdefinition', haccepted'⟩ := h.accepted hpolicy'
  have hrule : policy'.rule = policy.rule :=
    List.inj_on_of_nodup_map hspec.policyTables haccepted'.declared haccepted.declared htable
  cases policy
  cases policy'
  simp_all

theorem current_eq_some_iff (hspec : WellFormed spec) (h : output.CheckedFor spec)
    {context : TrustedContext} :
    output.current scope table = some (context, policy) ↔
      scope = output.caller.scope ∧ output.host.resolve output.caller .read = .ok context ∧
        policy ∈ output.policies ∧ policy.rule.tableId = table ∧
        policy.checkScope scope output.facts = .ok () := by
  have htoOption : ∀ {ε α : Type} {x : Except ε α} {a : α}, x.toOption = some a ↔ x = .ok a := by
    intro ε α x a
    cases x <;> simp [Except.toOption]
  by_cases hscope : scope = output.caller.scope
  · simp only [CurrentOutputPolicy.current, hscope, ne_eq, not_true_eq_false, if_false,
      Option.bind_eq_bind, Option.bind_eq_some_iff, htoOption, Option.some.injEq, Prod.mk.injEq,
      true_and]
    constructor
    · rintro ⟨_, hresolve, found, hfind, ⟨⟩, hcheck, rfl, rfl⟩
      exact ⟨hresolve, List.mem_of_find?_eq_some hfind, by simpa using List.find?_some hfind, hcheck⟩
    · rintro ⟨hresolve, hmem, htable, hcheck⟩
      have hfind : output.policies.find? (fun policy => policy.rule.tableId = table) =
          some policy := by
        cases hfind : output.policies.find? (fun policy => policy.rule.tableId = table) with
        | none => exact absurd (by simpa using htable) (List.find?_eq_none.1 hfind policy hmem)
        | some found =>
            have hfound : found.rule.tableId = table := by simpa using List.find?_some hfind
            rw [policy_unique hspec h hmem (List.mem_of_find?_eq_some hfind)
              (hfound.trans htable.symm)]
      exact ⟨context, hresolve, policy, hfind, (), hcheck, rfl, rfl⟩
  · simp [CurrentOutputPolicy.current, hscope]

/-- A normal record has exactly its declared fields, so the view of a record of the table shows
a declared field exactly when it is readable. -/
theorem mem_keys_view {row : RawRecord} {field : FieldId} :
    field ∈ (policy.view row).values.keys ↔
      field ∈ policy.rule.readFields.keys ∧ field ∈ row.values.keys := by
  simp only [OwnerRolePolicy.view, OrdMap.mem_keys_iff, OrdMap.get?_restrict]
  by_cases hfield : ∃ v, policy.rule.readFields.get? field = some v <;> simp [hfield]

theorem allowRecord_iff {id : RecordId} :
    output.allowRecord scope table id = true ↔
      ∃ context policy row, output.current scope table = some (context, policy) ∧
        output.facts.find table id = some row ∧ policy.allows context row .read := by
  unfold CurrentOutputPolicy.allowRecord
  cases output.current scope table with
  | none => simp
  | some entry =>
      obtain ⟨context, policy⟩ := entry
      simp [Option.any_eq_true, and_assoc]

theorem allowField_iff {field : FieldId} :
    output.allowField scope table field = true ↔
      ∃ context policy, output.current scope table = some (context, policy) ∧
        field ∈ policy.rule.readFields.keys := by
  rw [CurrentOutputPolicy.allowField]
  cases output.current scope table with
  | none => simp
  | some entry =>
      obtain ⟨context, policy⟩ := entry
      simp [and_assoc]

/-- The two answers about a cell together are the answer of the projection. -/
theorem allows_cell_iff (hspec : WellFormed spec) (h : output.CheckedFor spec)
    (hpolicy : policy ∈ output.policies) {cell : Cell} (htable : cell.table = policy.rule.tableId)
    (hfield : ∃ field, spec.field cell.table cell.field = some field)
    (purpose : ProjectionPurpose) :
    (output.allowRecord scope cell.table cell.record = true ∧
        output.allowField scope cell.table cell.field = true) ↔
      scope = output.caller.scope ∧
        Projects output.host output.caller output.facts policy purpose cell := by
  obtain ⟨hvalid, hnormalized⟩ := (validFor_iff hspec).1 h.facts
  have hnormal := ((normalized_eq_self_iff hvalid.keys).1 hnormalized).2
  rw [allowRecord_iff, allowField_iff]
  constructor
  · rintro ⟨⟨context, found, row, hcurrent, hrow, hallows⟩, _, _, hsame, hread⟩
    obtain ⟨rfl, rfl⟩ := Prod.mk.inj (Option.some.inj (hcurrent.symm.trans hsame))
    obtain ⟨rfl, hresolve, hfound, hfoundTable, hcheck⟩ :=
      (current_eq_some_iff hspec h).1 hcurrent
    obtain rfl := policy_unique hspec h hpolicy hfound (hfoundTable.trans htable)
    obtain ⟨hmem, hrowTable, hid⟩ := CheckedRecords.find_some hrow
    have hproject : project output.host output.caller output.facts found purpose =
        .ok ⟨found.visibleRows context output.facts, purpose, context.membershipRevision,
          found.rule.revision⟩ := by
      rw [project, hresolve, hcheck]
      rfl
    rw [← hrowTable] at hfield
    have hkey := ((normalize_eq_self_iff hspec).1 (hnormal row hmem) _).1 hfield
    exact ⟨rfl, htable, _, hproject, found.view row,
      mem_visibleRows_iff.2 ⟨row, hmem, hallows, rfl⟩, hid, mem_keys_view.2 ⟨hread, hkey⟩⟩
  · rintro ⟨rfl, -, out, hproject, visible, hvisible, hid, hkey⟩
    simp only [project, bind_eq_ok, Exec.ofExcept_eq_ok, Except.ok.injEq] at hproject
    obtain ⟨context, hresolve, ⟨⟩, hcheck, rfl⟩ := hproject
    obtain ⟨row, hrow, hallows, rfl⟩ := mem_visibleRows_iff.1 hvisible
    have hcurrent : output.current output.caller.scope cell.table = some (context, policy) :=
      (current_eq_some_iff hspec h).2 ⟨rfl, hresolve, hpolicy, htable.symm, hcheck⟩
    refine ⟨⟨context, policy, row, hcurrent, ?_, hallows⟩, context, policy, hcurrent,
      (mem_keys_view.1 hkey).1⟩
    exact (find_eq_some_iff hvalid.keys).2 ⟨hrow, hallows.2.1.trans htable.symm, hid⟩

theorem allowSnapshot_iff {spec : CheckedAppSpec} (h : output.CheckedFor spec.definition)
    (hne : output.policies ≠ []) :
    output.allowSnapshot spec output.facts = true ↔
      ∃ context, output.host.resolve output.caller .read = .ok context := by
  have hall : ∀ policy ∈ output.policies, policy.definition = spec.definition :=
    fun policy hpolicy => (h.accepted hpolicy).1
  rw [CurrentOutputPolicy.allowSnapshot]
  cases hresolve : output.host.resolve output.caller .read with
  | error e => simp [Except.toBool]
  | ok context => simpa [Except.toBool, hne] using hall

theorem of_authorizeSnapshot {store : RelationStore} {u : Unit}
    (h : store.authorizeSnapshot output.toOutputPolicy = .ok u) :
    store.records = output.facts ∧ output.policies ≠ [] ∧
      ∀ policy ∈ output.policies, policy.definition = store.spec.definition := by
  rw [RelationStore.authorizeSnapshot, rejectIf_eq_ok, Bool.not_eq_false] at h
  simp only [CurrentOutputPolicy.allowSnapshot_toOutputPolicy, CurrentOutputPolicy.allowSnapshot,
    Bool.and_eq_true, decide_eq_true_eq, List.all_eq_true] at h
  exact ⟨h.1.1.1, h.1.1.2, h.1.2⟩

theorem allowRecord_of_authorizedRecord {store : RelationStore} {id : RecordId} {row : RawRecord}
    (h : store.authorizedRecord output.toOutputPolicy table id = .ok row) :
    output.allowRecord store.records.scope table id = true := by
  rw [RelationStore.authorizedRecord] at h
  obtain ⟨_, hallowed, -⟩ := bind_eq_ok.1 h
  rw [rejectIf_eq_ok] at hallowed
  simpa using hallowed

end Cells

section Denied

variable {output : CurrentOutputPolicy} {spec : RawAppSpec} {store : RelationStore}
  {formulas : CheckedFormulas}

theorem referenceTarget_of_allowField (hspec : WellFormed spec) (h : output.CheckedFor spec)
    {scope : Scope} {table target : TableId} {field : FieldId}
    (hallowed : output.allowField scope table field = true) :
    referenceTarget spec table field ≠ .ok target := by
  intro href
  obtain ⟨context, policy, hcurrent, hread⟩ := allowField_iff.1 hallowed
  obtain ⟨-, -, hpolicy, rfl, -⟩ := (current_eq_some_iff hspec h).1 hcurrent
  have hplain := (h.accepted hpolicy).2.plain field hread
  simp only [referenceTarget, bind_eq_ok, okOr_eq_ok] at href
  obtain ⟨definition, hdefinition, href⟩ := href
  simp only [RawAppSpec.isPlain, hdefinition] at hplain
  cases htype : definition.fieldType <;> simp_all [FieldType.isRef]

theorem definition_of_authorizeSnapshot (h : output.CheckedFor spec) {u : Unit}
    (hsnapshot : store.authorizeSnapshot output.toOutputPolicy = .ok u) :
    store.spec.definition = spec := by
  obtain ⟨-, hne, hall⟩ := of_authorizeSnapshot hsnapshot
  obtain ⟨policy, hpolicy⟩ := List.exists_mem_of_ne_nil _ hne
  exact (hall policy hpolicy).symm.trans (h.accepted hpolicy).1

theorem lookup_denied (hspec : WellFormed spec) (h : output.CheckedFor spec) (table : TableId)
    (record : RecordId) (refField targetField : FieldId) (value : Value) :
    store.lookup output.toOutputPolicy table record refField targetField ≠ .ok value := by
  intro hlookup
  rw [RelationStore.lookup] at hlookup
  obtain ⟨_, hsnapshot, hlookup⟩ := bind_eq_ok.1 hlookup
  obtain ⟨row, hrow, hlookup⟩ := bind_eq_ok.1 hlookup
  obtain ⟨_, hfield, hlookup⟩ := bind_eq_ok.1 hlookup
  obtain ⟨target, htarget, -⟩ := bind_eq_ok.1 hlookup
  obtain ⟨-, hrowTable, -⟩ := CheckedRecords.find_some (authorizedRecord_ok hrow)
  rw [definition_of_authorizeSnapshot h hsnapshot] at htarget
  rw [RelationStore.authorizeField, rejectIf_eq_ok, not_or] at hfield
  have hallowed : output.allowField row.scope table refField = true := by
    rw [← hrowTable]
    simpa using hfield.2
  exact referenceTarget_of_allowField hspec h hallowed htarget

theorem reverseRefs_denied (table : TableId) (record : RecordId) (childTable : TableId)
    (refField : FieldId) (ids : List RecordId) :
    store.reverseRefs output.toOutputPolicy table record childTable refField ≠ .ok ids := by
  intro hrefs
  rw [RelationStore.reverseRefs] at hrefs
  obtain ⟨_, -, hrefs⟩ := bind_eq_ok.1 hrefs
  obtain ⟨_, -, hrefs⟩ := bind_eq_ok.1 hrefs
  obtain ⟨_, -, hrefs⟩ := bind_eq_ok.1 hrefs
  obtain ⟨_, hscan, -⟩ := bind_eq_ok.1 hrefs
  exact CurrentOutputPolicy.authorizeScan_denied hscan

/-- The expression contains a lookup or a sum, directly or through the names it uses. -/
inductive Reaches (definitions : OrdMap FormulaKey Expression) (table : TableId) :
    Expression → Prop
  | lookup (refField targetField : FieldId) : Reaches definitions table (.lookup refField targetField)
  | sum (childTable : TableId) (refField : FieldId) (value : Expression) :
      Reaches definitions table (.sum childTable refField value)
  | left {left right : Expression} (h : Reaches definitions table left) :
      Reaches definitions table (.product left right)
  | right {left right : Expression} (h : Reaches definitions table right) :
      Reaches definitions table (.product left right)
  | total {values : List Expression} {value : Expression} (hmem : value ∈ values)
      (h : Reaches definitions table value) : Reaches definitions table (.total values)
  | named {name : String} {expression : Expression}
      (hname : definitions.get? (toLex (table, name)) = some expression)
      (h : Reaches definitions table expression) : Reaches definitions table (.named name)

/-- No expression that reaches a lookup or a sum is authorized. -/
theorem authorizeExpression_denied (hspec : WellFormed store.spec.definition)
    (h : output.CheckedFor store.spec.definition) {table : TableId} {expression : Expression}
    (hreaches : Reaches formulas.definitions table expression) (fuel : Nat) :
    formulas.authorizeExpression store output.toOutputPolicy fuel table expression ≠ .ok () := by
  induction fuel generalizing expression with
  | zero => exact fun hauth => by cases hauth
  | succ fuel ih =>
      intro hauth
      cases hreaches with
      | lookup refField targetField =>
          rw [CheckedFormulas.authorizeExpression] at hauth
          obtain ⟨target, htarget, hallowed⟩ := bind_eq_ok.1 hauth
          rw [rejectIf_eq_ok, not_or] at hallowed
          exact referenceTarget_of_allowField hspec h (by simpa using hallowed.1) htarget
      | sum childTable refField value =>
          rw [CheckedFormulas.authorizeExpression] at hauth
          obtain ⟨fields, -, hauth⟩ := bind_eq_ok.1 hauth
          obtain ⟨_, hscan, -⟩ := bind_eq_ok.1 hauth
          exact CurrentOutputPolicy.authorizeScan_denied hscan
      | left hreaches =>
          rw [CheckedFormulas.authorizeExpression] at hauth
          obtain ⟨_, hleft, -⟩ := bind_eq_ok.1 hauth
          exact ih hreaches hleft
      | right hreaches =>
          rw [CheckedFormulas.authorizeExpression] at hauth
          obtain ⟨_, -, hright⟩ := bind_eq_ok.1 hauth
          exact ih hreaches hright
      | total hmem hreaches =>
          rw [CheckedFormulas.authorizeExpression, each_eq_ok_iff] at hauth
          exact ih hreaches (hauth _ hmem)
      | named hname hreaches =>
          rw [CheckedFormulas.authorizeExpression, hname] at hauth
          exact ih hreaches hauth

end Denied

/-- The evaluation of the expression for a row reads the value of the cell. -/
inductive Reads (store : RelationStore) (definitions : OrdMap FormulaKey Expression) :
    RawRecord → Expression → Cell → Prop
  | field (row : RawRecord) (field : FieldId) :
      Reads store definitions row (.field field) ⟨row.tableId, row.id, field⟩
  | lookupRef (row : RawRecord) (refField targetField : FieldId) :
      Reads store definitions row (.lookup refField targetField) ⟨row.tableId, row.id, refField⟩
  | lookupTarget {row : RawRecord} {refField : FieldId} (targetField : FieldId)
      {reference : RecordRef} (href : row.values.get? refField = some (.ref reference)) :
      Reads store definitions row (.lookup refField targetField)
        ⟨reference.tableId, reference.recordId, targetField⟩
  | sumRef (row : RawRecord) {child : RawRecord} {childTable : TableId} (refField : FieldId)
      (value : Expression) (hchild : child ∈ store.rowsOf childTable) :
      Reads store definitions row (.sum childTable refField value)
        ⟨child.tableId, child.id, refField⟩
  | sumValue {row child : RawRecord} {childTable : TableId} {refField : FieldId}
      {value : Expression} {cell : Cell} (hchild : child ∈ store.rowsOf childTable)
      (hnames : namesRecord row.tableId row.id (child.values.get? refField) = true)
      (h : Reads store definitions child value cell) :
      Reads store definitions row (.sum childTable refField value) cell
  | left {row : RawRecord} {left right : Expression} {cell : Cell}
      (h : Reads store definitions row left cell) :
      Reads store definitions row (.product left right) cell
  | right {row : RawRecord} {left right : Expression} {cell : Cell}
      (h : Reads store definitions row right cell) :
      Reads store definitions row (.product left right) cell
  | total {row : RawRecord} {values : List Expression} {value : Expression} {cell : Cell}
      (hmem : value ∈ values) (h : Reads store definitions row value cell) :
      Reads store definitions row (.total values) cell
  | named {row : RawRecord} {name : String} {expression : Expression} {cell : Cell}
      (hname : definitions.get? (toLex (row.tableId, name)) = some expression)
      (h : Reads store definitions row expression cell) :
      Reads store definitions row (.named name) cell

def RelationStore.valueAt (store : RelationStore) (cell : Cell) : Option Value :=
  (store.records.find cell.table cell.record).bind fun row => row.values.get? cell.field

/-- Stores of one definition and one scope with the same keys, both allowed or both not. -/
structure SameKeys (policy : OutputPolicy) (store store' : RelationStore) : Prop where
  spec : store'.spec = store.spec
  snapshot : store'.authorizeSnapshot policy = store.authorizeSnapshot policy
  scope : store'.records.scope = store.records.scope
  keys : store'.records.records.map RawRecord.key = store.records.records.map RawRecord.key

/-- Rows of one key of two stores. -/
structure SameRow (store store' : RelationStore) (row row' : RawRecord) : Prop where
  mem : row ∈ store.records.records
  mem' : row' ∈ store'.records.records
  tableId : row'.tableId = row.tableId
  id : row'.id = row.id

section Dependence

variable {store store' : RelationStore} {policy : OutputPolicy} {formulas : CheckedFormulas}
  {row row' : RawRecord}

theorem RelationStore.valueAt_of_mem (h : row ∈ store.records.records) (field : FieldId) :
    store.valueAt ⟨row.tableId, row.id, field⟩ = row.values.get? field := by
  rw [valueAt, RelationStore.find_eq_some_iff.2 ⟨h, rfl, rfl⟩, Option.bind_some]

theorem SameRow.scope (h : SameKeys policy store store') (hrow : SameRow store store' row row') :
    row'.scope = row.scope := by
  rw [RelationStore.scope_of_mem hrow.mem, RelationStore.scope_of_mem hrow.mem', h.scope]

theorem SameRow.authorizeField (h : SameKeys policy store store') (hrow : SameRow store store' row row')
    (field : FieldId) :
    RelationStore.authorizeField policy row' field = RelationStore.authorizeField policy row field := by
  rw [RelationStore.authorizeField, RelationStore.authorizeField, hrow.scope h, hrow.tableId,
    hrow.id]

theorem SameRow.get?_eq (hrow : SameRow store store' row row') {field : FieldId}
    (hvalue : store'.valueAt ⟨row.tableId, row.id, field⟩ =
      store.valueAt ⟨row.tableId, row.id, field⟩) :
    row'.values.get? field = row.values.get? field := by
  rw [RelationStore.valueAt_of_mem hrow.mem] at hvalue
  rw [← hvalue, ← hrow.tableId, ← hrow.id, RelationStore.valueAt_of_mem hrow.mem']

theorem SameKeys.rowsOf (h : SameKeys policy store store') (table : TableId) :
    List.Forall₂ (fun row row' => row ∈ store.rowsOf table ∧ SameRow store store' row row')
      (store.rowsOf table) (store'.rowsOf table) := by
  have hkeys : (store.rowsOf table).map RawRecord.key = (store'.rowsOf table).map RawRecord.key := by
    have hfilter : ∀ rows : List RawRecord, (rows.filter fun row => row.tableId = table).map
        RawRecord.key = (rows.map RawRecord.key).filter fun key => (ofLex key).1 = table := by
      intro rows
      rw [List.filter_map]
      rfl
    rw [RelationStore.rowsOf, RelationStore.rowsOf, hfilter, hfilter, h.keys]
  refine forall₂_of_map_eq hkeys fun row hrow row' hrow' hkey => ?_
  obtain ⟨htable, hid⟩ := key_eq_key_iff.1 hkey
  exact ⟨hrow, (mem_rowsOf.1 hrow).1, (mem_rowsOf.1 hrow').1, htable.symm, hid.symm⟩

theorem SameKeys.authorizedRecord (h : SameKeys policy store store') (table : TableId) (id : RecordId) :
    Agree (SameRow store store') (store.authorizedRecord policy table id)
      (store'.authorizedRecord policy table id) := by
  rw [RelationStore.authorizedRecord, RelationStore.authorizedRecord, h.scope]
  by_cases hallowed : policy.allowRecord store.records.scope table id = true
  · rw [rejectIf_bind_of_not (by simp [hallowed]), rejectIf_bind_of_not (by simp [hallowed])]
    have hmem : ∀ {s : RelationStore}, toLex (table, id) ∈ s.records.records.map RawRecord.key ↔
        ∃ row, s.records.find table id = some row := by
      intro s
      simp only [List.mem_map, RelationStore.find_eq_some_iff, RawRecord.key, toLex_inj,
        Prod.mk.injEq]
    cases hrow : store.records.find table id with
    | none =>
        cases hrow' : store'.records.find table id with
        | none => rfl
        | some row' =>
            have hkey := hmem.2 ⟨row', hrow'⟩
            rw [h.keys, hmem, hrow] at hkey
            obtain ⟨_, hkey⟩ := hkey
            cases hkey
    | some row =>
        have hkey := hmem.2 ⟨row, hrow⟩
        rw [← h.keys, hmem] at hkey
        obtain ⟨row', hrow'⟩ := hkey
        obtain ⟨hrowMem, rfl, rfl⟩ := RelationStore.find_eq_some_iff.1 hrow
        obtain ⟨hrowMem', htable, hid⟩ := RelationStore.find_eq_some_iff.1 hrow'
        rw [hrow']
        exact ⟨hrowMem, hrowMem', htable, hid⟩
  · simp [rejectIf, hallowed, Agree]

/-- A lookup depends on the reference and on the value it finds. -/
theorem SameKeys.lookup (h : SameKeys policy store store') (hrow : SameRow store store' row row')
    {refField targetField : FieldId}
    (hreads : ∀ cell, Reads store formulas.definitions row (.lookup refField targetField) cell →
      store'.valueAt cell = store.valueAt cell) :
    store'.lookup policy row'.tableId row'.id refField targetField =
      store.lookup policy row.tableId row.id refField targetField := by
  have href := hrow.get?_eq (hreads _ (.lookupRef row refField targetField))
  have hself : ∀ {s : RelationStore} {r found : RawRecord}, r ∈ s.records.records →
      s.authorizedRecord policy r.tableId r.id = .ok found → found = r := by
    intro s r found hr hfound
    have hfind := authorizedRecord_ok hfound
    rw [RelationStore.find_eq_some_iff.2 ⟨hr, rfl, rfl⟩] at hfind
    exact (Option.some.inj hfind).symm
  rw [RelationStore.lookup, RelationStore.lookup, h.snapshot, h.spec, h.scope, hrow.tableId, hrow.id]
  refine bind_congr_ok fun _ _ => Eq.symm ?_
  refine (h.authorizedRecord row.tableId row.id).bind_eq fun found found' hfound hsame => ?_
  obtain rfl := hself hrow.mem hfound
  obtain rfl : found' = row' := by
    have hkey := key_eq_key_iff.2 ⟨hsame.tableId.trans hrow.tableId.symm, hsame.id.trans hrow.id.symm⟩
    exact List.inj_on_of_nodup_map store'.validFacts.keys hsame.mem' hrow.mem' hkey
  rw [hrow.authorizeField h, href]
  refine bind_congr_ok fun _ _ => bind_congr_ok fun target _ => bind_congr_ok fun _ _ =>
    bind_congr_ok fun _ _ => ?_
  cases hvalue : found.values.get? refField with
  | none => rfl
  | some value =>
      cases value with
      | ref reference =>
          refine (h.authorizedRecord _ _).bind_eq fun targetRow targetRow' htarget hrows => ?_
          obtain ⟨-, htable, hid⟩ := CheckedRecords.find_some (authorizedRecord_ok htarget)
          have hread := hreads _ (.lookupTarget targetField hvalue)
          rw [← htable, ← hid] at hread
          rw [hrows.authorizeField h, hrows.get?_eq hread]
      | _ => rfl

/-- The value of an expression depends on the cells that it reads alone. -/
theorem SameKeys.evaluateExpression (h : SameKeys policy store store') {fuel room : Nat}
    (hrow : SameRow store store' row row') {expression : Expression}
    (hreads : ∀ cell, Reads store formulas.definitions row expression cell →
      store'.valueAt cell = store.valueAt cell) (budget : Budget) :
    formulas.evaluateExpression store policy fuel room row expression budget =
      formulas.evaluateExpression store' policy fuel room row' expression budget := by
  induction room generalizing row row' expression budget with
  | zero => rfl
  | succ room ih =>
      rw [CheckedFormulas.evaluateExpression, CheckedFormulas.evaluateExpression]
      refine bind_congr_ok fun budget _ => ?_
      cases expression with
      | field field =>
          simp only [hrow.authorizeField h, hrow.tableId, h.spec,
            hrow.get?_eq (hreads _ (.field row field))]
      | lookup refField targetField =>
          have hlookup := h.lookup hrow hreads
          rw [hrow.tableId, hrow.id] at hlookup
          simp only [hlookup, hrow.tableId, hrow.id, h.spec,
            hrow.get?_eq (hreads _ (.lookupRef row refField targetField))]
      | sum childTable refField value =>
          have hrequire : ∀ table, store'.requireTarget childTable refField table =
              store.requireTarget childTable refField table := by
            intro table
            rw [RelationStore.requireTarget, RelationStore.requireTarget, h.spec]
          have hscan : ∀ fields, store'.authorizeScan policy childTable fields =
              store.authorizeScan policy childTable fields := by
            intro fields
            rw [RelationStore.authorizeScan, RelationStore.authorizeScan, h.scope]
          simp only [hrequire, hscan, h.spec, hrow.tableId]
          refine bind_congr_ok fun _ _ => bind_congr_ok fun fields _ =>
            bind_congr_ok fun _ _ => bind_congr_ok fun kind _ => ?_
          congr 1
          refine foldlM_eq_of_forall₂ (h.rowsOf childTable)
            (fun sum child child' hsame => ?_) _
          obtain ⟨hmem, hchild⟩ := hsame
          have href := hchild.get?_eq (hreads _ (.sumRef row refField value hmem))
          rw [hchild.authorizeField h, href, hrow.tableId, hrow.id]
          refine bind_congr_ok fun _ _ => bind_congr_ok fun budget _ => ?_
          split_ifs with hnames
          · have heval := ih hchild fun cell hcell => hreads cell (.sumValue hmem hnames hcell)
            simp only [heval]
          · rfl
      | product left right =>
          simp only [ih hrow fun cell hcell => hreads cell (.left hcell),
            ih hrow fun cell hcell => hreads cell (.right hcell)]
      | total values =>
          exact addValues_congr (fun value hvalue =>
            ih hrow fun cell hcell => hreads cell (.total hvalue hcell)) budget
      | named name =>
          simp only [hrow.tableId]
          refine bind_congr_ok fun expression hname => ?_
          exact ih hrow (fun cell hcell => hreads cell (.named (okOr_eq_ok.1 hname) hcell)) budget

theorem SameKeys.authorizeExpression (h : SameKeys policy store store') (fuel : Nat)
    (table : TableId) (expression : Expression) :
    formulas.authorizeExpression store' policy fuel table expression =
      formulas.authorizeExpression store policy fuel table expression := by
  induction fuel generalizing table expression with
  | zero => rfl
  | succ fuel ih =>
      cases expression <;>
        simp only [CheckedFormulas.authorizeExpression, RelationStore.authorizeScan, h.scope,
          h.spec, ih]

/-- The answer of a formula depends on the cells that it reads alone. -/
theorem SameKeys.evaluate (h : SameKeys policy store store') {fuel : Nat} {table : TableId}
    {record : RecordId} {name : String}
    (hreads : ∀ expression row cell,
      formulas.definitions.get? (toLex (table, name)) = some expression →
      store.records.find table record = some row →
      Reads store formulas.definitions row expression cell →
        store'.valueAt cell = store.valueAt cell) :
    formulas.evaluate store' policy fuel table record name =
      formulas.evaluate store policy fuel table record name := by
  rw [CheckedFormulas.evaluate, CheckedFormulas.evaluate, h.snapshot, h.spec]
  refine bind_congr_ok fun _ _ => bind_congr_ok fun expression hexpression => Eq.symm ?_
  refine (h.authorizedRecord table record).bind_eq fun row row' hrow hsame => ?_
  rw [h.authorizeExpression]
  refine bind_congr_ok fun _ _ => bind_congr_ok fun _ _ => bind_congr_ok fun budget _ => ?_
  rw [h.evaluateExpression hsame fun cell hcell =>
    hreads expression row cell (okOr_eq_ok.1 hexpression) (authorizedRecord_ok hrow) hcell]

end Dependence

section Reads

variable {output : CurrentOutputPolicy} {store : RelationStore} {formulas : CheckedFormulas}
  {row : RawRecord} {expression : Expression} {cell : Cell}

/-- An authorized expression reads allowed fields of its row. -/
theorem reads_allowed (hspec : WellFormed store.spec.definition)
    (h : output.CheckedFor store.spec.definition)
    (hreads : Reads store formulas.definitions row expression cell) {fuel : Nat}
    (hauth : formulas.authorizeExpression store output.toOutputPolicy fuel row.tableId expression =
      .ok ()) :
    cell.table = row.tableId ∧ cell.record = row.id ∧
      output.allowField store.records.scope cell.table cell.field = true := by
  induction fuel generalizing expression with
  | zero => cases hauth
  | succ fuel ih =>
      cases hreads with
      | field row field =>
          rw [CheckedFormulas.authorizeExpression, rejectIf_eq_ok] at hauth
          exact ⟨rfl, rfl, by simpa using hauth⟩
      | lookupRef row refField targetField =>
          exact absurd hauth (authorizeExpression_denied hspec h (.lookup _ _) _)
      | lookupTarget targetField href =>
          exact absurd hauth (authorizeExpression_denied hspec h (.lookup _ _) _)
      | sumRef row refField value hchild =>
          exact absurd hauth (authorizeExpression_denied hspec h (.sum _ _ _) _)
      | sumValue hchild hnames hreads =>
          exact absurd hauth (authorizeExpression_denied hspec h (.sum _ _ _) _)
      | left hreads =>
          rw [CheckedFormulas.authorizeExpression] at hauth
          obtain ⟨_, hleft, -⟩ := bind_eq_ok.1 hauth
          exact ih hreads hleft
      | right hreads =>
          rw [CheckedFormulas.authorizeExpression] at hauth
          obtain ⟨_, -, hright⟩ := bind_eq_ok.1 hauth
          exact ih hreads hright
      | total hmem hreads =>
          rw [CheckedFormulas.authorizeExpression, each_eq_ok_iff] at hauth
          exact ih hreads (hauth _ hmem)
      | named hname hreads =>
          rw [CheckedFormulas.authorizeExpression, hname] at hauth
          exact ih hreads hauth

end Reads

/-- The output policy of a list of row policies. It allows the snapshot exactly when the caller
may read; its answers about a record and about a declared field together are the projection
of the policy of the table; a formula that returns has read projected cells alone, and what it
answers depends on the cells that it reads alone; and a lookup, a reverse reference, and a formula
that reaches a lookup or a sum never return. -/
theorem currentOutputPolicy_agrees (spec : CheckedAppSpec) (output : CurrentOutputPolicy)
    (h : output.CheckedFor spec.definition) :
    (∀ policy ∈ output.policies,
      (output.toOutputPolicy.allowSnapshot spec output.facts = true ↔
        ∃ context, output.host.resolve output.caller .read = .ok context) ∧
      ∀ scope record field purpose,
        (∃ definition, spec.definition.field policy.rule.tableId field = some definition) →
        ((output.toOutputPolicy.allowRecord scope policy.rule.tableId record = true ∧
            output.toOutputPolicy.allowField scope policy.rule.tableId field = true) ↔
          scope = output.caller.scope ∧
            Projects output.host output.caller output.facts policy purpose
              ⟨policy.rule.tableId, record, field⟩)) ∧
    ∀ store : RelationStore,
      (∀ formulas : CheckedFormulas, ∀ fuel table record name value,
        formulas.evaluate store output.toOutputPolicy fuel table record name = .ok value →
        ∃ expression row, formulas.definitions.get? (toLex (table, name)) = some expression ∧
          store.records.find table record = some row ∧
          ¬ Reaches formulas.definitions table expression ∧
          ∀ cell, Reads store formulas.definitions row expression cell →
            ∃ policy ∈ output.policies, ∀ purpose,
              Projects output.host output.caller output.facts policy purpose cell) ∧
      (∀ table record refField targetField value,
        store.lookup output.toOutputPolicy table record refField targetField ≠ .ok value) ∧
      (∀ table record childTable refField ids,
        store.reverseRefs output.toOutputPolicy table record childTable refField ≠ .ok ids) ∧
      ∀ (policy : OutputPolicy) (store' : RelationStore), SameKeys policy store store' →
        ∀ (formulas : CheckedFormulas) (fuel : Nat) (table : TableId) (record : RecordId)
          (name : String),
          (∀ expression row cell,
            formulas.definitions.get? (toLex (table, name)) = some expression →
            store.records.find table record = some row →
            Reads store formulas.definitions row expression cell →
              store'.valueAt cell = store.valueAt cell) →
          formulas.evaluate store' policy fuel table record name =
            formulas.evaluate store policy fuel table record name := by
  have hspec := wellFormed spec
  refine ⟨fun policy hpolicy => ⟨?_, fun scope record field purpose hfield => ?_⟩,
    fun store => ⟨fun formulas fuel table record name value hvalue => ?_, lookup_denied hspec h,
      reverseRefs_denied, fun policy store' hkeys formulas fuel table record name hreads =>
        hkeys.evaluate hreads⟩⟩
  · exact allowSnapshot_iff h (List.ne_nil_of_mem hpolicy)
  · let cell : Cell := ⟨policy.rule.tableId, record, field⟩
    exact allows_cell_iff hspec h hpolicy (show cell.table = policy.rule.tableId from rfl) hfield
      purpose
  · rw [CheckedFormulas.evaluate] at hvalue
    obtain ⟨_, hsnapshot, hvalue⟩ := bind_eq_ok.1 hvalue
    obtain ⟨expression, hexpression, hvalue⟩ := bind_eq_ok.1 hvalue
    obtain ⟨row, hrow, hvalue⟩ := bind_eq_ok.1 hvalue
    obtain ⟨_, -, hvalue⟩ := bind_eq_ok.1 hvalue
    obtain ⟨⟨⟩, hauth, -⟩ := bind_eq_ok.1 hvalue
    have hdefinition := definition_of_authorizeSnapshot h hsnapshot
    have hstore : output.CheckedFor store.spec.definition := hdefinition ▸ h
    have hstoreSpec := wellFormed store.spec
    obtain ⟨hrowMem, htable, hid⟩ := CheckedRecords.find_some (authorizedRecord_ok hrow)
    refine ⟨expression, row, okOr_eq_ok.1 hexpression, authorizedRecord_ok hrow,
      fun hreaches => authorizeExpression_denied hstoreSpec hstore hreaches _ hauth,
      fun cell hcell => ?_⟩
    obtain ⟨hcellTable, hcellRecord, hallowed⟩ :=
      reads_allowed hstoreSpec hstore hcell (htable.symm ▸ hauth)
    obtain ⟨_, policy, hcurrent, hread⟩ := allowField_iff.1 hallowed
    obtain ⟨-, -, hpolicy, hpolicyTable, -⟩ := (current_eq_some_iff hstoreSpec hstore).1 hcurrent
    have hplain := (h.accepted hpolicy).2.plain cell.field hread
    rw [hpolicyTable] at hplain
    have hrecord : output.allowRecord store.records.scope cell.table cell.record = true := by
      rw [hcellTable, hcellRecord, htable, hid]
      exact allowRecord_of_authorizedRecord hrow
    exact ⟨policy, hpolicy, fun purpose => ((allows_cell_iff hspec h hpolicy hpolicyTable.symm
      (field_of_isPlain hplain) purpose).1 ⟨hrecord, hallowed⟩).2⟩

/-- The owner of the ticket sees its state. -/
theorem currentOutputPolicy_agrees_ticket :
    Projects (ticketHost ticketActor) ticketCaller ticketFacts
      ⟨ticketDefinition, ticketDefinition.policies.head (by decide)⟩ .query
      ⟨⟨"tbl_t", by decide⟩, ⟨"rec_a", by decide⟩, ⟨"fld_s", by decide⟩⟩ := by
  have hchecked : CurrentOutputPolicy.CheckedFor ⟨ticketHost ticketActor, ticketCaller, ticketFacts,
      [⟨ticketDefinition, ticketDefinition.policies.head (by decide)⟩]⟩ ticketSpec.definition :=
    ⟨⟨ticketFacts.records, by decide +kernel⟩, fun policy hpolicy => by
      obtain rfl := List.mem_singleton.1 hpolicy
      exact ⟨ticketDefinition.policies.head (by decide), by decide +kernel⟩⟩
  have hcell := ((currentOutputPolicy_agrees ticketSpec _ hchecked).1 _
    (List.mem_singleton_self _)).2 ticketScope ⟨"rec_a", by decide⟩ ⟨"fld_s", by decide⟩ .query
    ⟨_, rfl⟩
  exact (hcell.1 (by decide +kernel)).2

end Evobase
