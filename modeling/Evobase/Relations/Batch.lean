import Evobase.AppSpec.Transition

/-!
# Batches of changes

A `RelationStore` holds validated records. A batch inserts, replaces and deletes records;
the prices that the inserted lines capture are derived from the products as the batch
leaves them. The store takes the result of a batch only when it validates.
-/

namespace Evobase

open Foundation

def maxBatch : Nat := 1024

inductive RelationError where
  | kernel (error : Error)
  | batchLimit
  | duplicateMutation (table : TableId) (record : RecordId)
  | alreadyExists (table : TableId) (record : RecordId)
  | missingRecord (table : TableId) (record : RecordId)
  | restrictDelete (table : TableId) (record : RecordId) (sourceTable : TableId)
      (sourceRecord : RecordId) (field : FieldId)
  | captureInputForbidden (field : FieldId)
  | capturedValueImmutable (field : FieldId)
  | capturedReferenceImmutable (field : FieldId)
  | captureSourceInvalid (field : FieldId)
  | outputDenied
  | invalidLimits
  | formulaLimit
  | invalidFormulaName
  | duplicateFormula (table : TableId) (name : String)
  | missingFormula (table : TableId) (name : String)
  | formulaCycle (table : TableId) (name : String)
  | unknownTable (table : TableId)
  | unknownField (table : TableId) (field : FieldId)
  | numericFieldRequired (table : TableId) (field : FieldId)
  | referenceFieldRequired (table : TableId) (field : FieldId)
  | referenceTargetMismatch (table : TableId) (field : FieldId)
  | numericTypeMismatch
  | moneyProductUnsupported
  | emptyTotal
  | depthExceeded
  | nodeBudgetExceeded
  | recordBudgetExceeded
  | definitionMismatch
  | overflow
deriving DecidableEq, Repr

inductive BatchChange where
  | insert (row : RawRecord)
  | replace (row : RawRecord)
  | delete (tableId : TableId) (recordId : RecordId)
deriving DecidableEq

namespace BatchChange

def key : BatchChange → RecordKey
  | insert row | replace row => row.key
  | delete tableId recordId => toLex (tableId, recordId)

def row : BatchChange → Option RawRecord
  | insert row | replace row => some row
  | delete _ _ => none

def isInsert : BatchChange → Bool
  | insert _ => true
  | _ => false

def isDelete : BatchChange → Bool
  | delete _ _ => true
  | _ => false

end BatchChange

abbrev Rows := OrdMap RecordKey RawRecord

def RawAppSpec.rulesOf (spec : RawAppSpec) (table : TableId) : List CaptureRule :=
  spec.captureRules.filter fun rule => rule.lineTable = table

/-- The row with a money value in the captured field of each rule. -/
def RawRecord.setPrices (rules : List CaptureRule) (price : CaptureRule → I64)
    (row : RawRecord) : RawRecord :=
  { row with
    values := rules.foldl (fun values rule =>
      values.insert rule.capturedPriceField (.money (price rule))) row.values }

/-- The rows of a batch under construction, with the keys it has touched. -/
structure Candidate where
  rows : Rows
  touched : List RecordKey
  inserted : List RecordKey
  deleted : List RecordKey
deriving DecidableEq

def CheckedRecords.rows (facts : CheckedRecords) : Rows :=
  .ofList (facts.records.map fun row => (row.key, row))

def checkCaptureInput (row : RawRecord) (rule : CaptureRule) : Exec RelationError Unit :=
  rejectIf ((row.values.get? rule.capturedPriceField).any (fun value => !value.isEmpty) = true)
    (.fail (.captureInputForbidden rule.capturedPriceField))

/-- A line keeps its captured price and its product. -/
def checkHistory (old row : RawRecord) (rule : CaptureRule) : Exec RelationError Unit := do
  rejectIf (old.values.get? rule.capturedPriceField ≠ row.values.get? rule.capturedPriceField)
    (.fail (.capturedValueImmutable rule.capturedPriceField))
  rejectIf (old.values.get? rule.productRefField ≠ row.values.get? rule.productRefField)
    (.fail (.capturedReferenceImmutable rule.productRefField))

/-- One change of the candidate. -/
def Candidate.apply (spec : RawAppSpec) (candidate : Candidate) (change : BatchChange) :
    Exec RelationError Candidate := do
  let key := change.key
  rejectIf (key ∈ candidate.touched) (.fail (.duplicateMutation (ofLex key).1 (ofLex key).2))
  let touched := candidate.touched ++ [key]
  match change with
  | .insert row => do
      rejectIf (candidate.rows.get? key ≠ none)
        (.fail (.alreadyExists (ofLex key).1 (ofLex key).2))
      each (checkCaptureInput row) (spec.rulesOf row.tableId)
      .ok { candidate with
        rows := candidate.rows.insert key row
        touched
        inserted := candidate.inserted ++ [key] }
  | .replace row => do
      let old ← okOr (.fail (.missingRecord (ofLex key).1 (ofLex key).2)) (candidate.rows.get? key)
      each (checkHistory old row) (spec.rulesOf row.tableId)
      .ok { candidate with rows := candidate.rows.insert key row, touched }
  | .delete _ _ => do
      rejectIf (candidate.rows.get? key = none)
        (.fail (.missingRecord (ofLex key).1 (ofLex key).2))
      .ok { candidate with
        rows := candidate.rows.erase key
        touched
        deleted := candidate.deleted ++ [key] }

/-- The bounds of the incoming rows. -/
def checkIncoming (changes : List BatchChange) : Exec RelationError Unit := do
  rejectIf (changes.length > maxBatch) (.fail .batchLimit)
  let incoming := changes.filterMap BatchChange.row
  let _ ← Exec.ofExcept .kernel (boundedEncode (recordsToJson incoming))
  each (fun row => rejectAny row.values.values (fun value => value.tooLong = true)
    fun _ => .fail (.kernel (.limitExceeded "text bytes" maxTextBytes))) incoming

/-- The rows with each of the given keys updated in turn. -/
def updateRows (update : Rows → RawRecord → Exec RelationError RawRecord)
    (keys : List RecordKey) (rows : Rows) : Exec RelationError Rows :=
  keys.foldlM (fun rows key => do
    let row ← Exec.expect "inserted candidate" (rows.get? key)
    let next ← update rows row
    .ok (rows.insert key next)) rows

def temporaryPrice : I64 := .zero

/-- The rows to validate before a capture source is read: the inserted lines have a
temporary price. -/
def Candidate.graphRows (spec : RawAppSpec) (candidate : Candidate) : Exec RelationError Rows :=
  updateRows (fun _ row => .ok (row.setPrices (spec.rulesOf row.tableId) fun _ => temporaryPrice))
    candidate.inserted candidate.rows

/-- No surviving row refers to a deleted record. -/
def checkDeleted (scope : Scope) (rows : Rows) (key : RecordKey) : Exec RelationError Unit :=
  each (fun row => rejectAny row.values.entries
    (fun entry => entry.2 = .ref ⟨scope, (ofLex key).1, (ofLex key).2⟩)
    fun entry => .fail (.restrictDelete (ofLex key).1 (ofLex key).2 row.tableId row.id entry.1))
    rows.values

/-- The price of the product that a line refers to. -/
def capturePrice (spec : RawAppSpec) (scope : Scope) (rows : Rows) (row : RawRecord)
    (rule : CaptureRule) : Exec RelationError I64 := do
  let source ← match row.values.get? rule.productRefField with
    | some (.ref reference) =>
        if reference.scope = scope then do
          let field ← Exec.expect "checked capture field"
            (spec.field row.tableId rule.productRefField)
          match field.fieldType with
          | .ref target => do
              rejectIf (reference.tableId ≠ target)
                (.fail (.captureSourceInvalid rule.productRefField))
              .ok (rows.get? (toLex (reference.tableId, reference.recordId)))
          | _ => Exec.panic "checked capture reference"
        else .ok none
    | _ => .ok none
  match source.bind fun source => source.values.get? rule.productPriceField with
  | some (.money price) => .ok price
  | _ => .error (.fail (.captureSourceInvalid rule.productPriceField))

/-- The line with the prices it captures. -/
def captureRow (spec : RawAppSpec) (scope : Scope) (rows : Rows) (row : RawRecord) :
    Exec RelationError RawRecord :=
  (spec.rulesOf row.tableId).foldlM (fun row rule => do
    let price ← capturePrice spec scope rows row rule
    .ok (row.setPrices [rule] fun _ => price)) row

/-- Records that are a result of validation. -/
structure RelationStore where
  spec : CheckedAppSpec
  records : CheckedRecords
  valid : records.ValidFor spec.definition

namespace RelationStore

/-- The records that a batch leaves. -/
def finalRecords (store : RelationStore) (changes : List BatchChange) :
    Exec RelationError CheckedRecords := do
  let spec := store.spec.definition
  let scope := store.records.scope
  checkIncoming changes
  let candidate ← changes.foldlM (Candidate.apply spec) ⟨store.records.rows, [], [], []⟩
  let graphRows ← candidate.graphRows spec
  each (checkDeleted scope candidate.rows) candidate.deleted
  let _ ← Exec.lift .kernel (validateRecords spec scope graphRows.values)
  let rows ← updateRows (captureRow spec scope) candidate.inserted candidate.rows
  Exec.lift .kernel (validateRecords spec scope rows.values)

theorem validFor_of_finalRecords {store : RelationStore} {changes : List BatchChange}
    {records : CheckedRecords} (h : store.finalRecords changes = .ok records) :
    records.ValidFor store.spec.definition ∧ records.scope = store.records.scope := by
  simp only [finalRecords, bind_eq_ok, Exec.lift_eq_ok] at h
  obtain ⟨-, -, candidate, -, graphRows, -, -, -, -, -, rows, -, hvalid⟩ := h
  obtain ⟨-, rfl⟩ := (validateRecords_eq_ok_iff (wellFormed store.spec)).1 hvalid
  exact ⟨⟨_, hvalid⟩, rfl⟩

/-- A batch changes the records of the store when it is accepted, and nothing otherwise. -/
def applyBatch (store : RelationStore) (changes : List BatchChange) :
    Exec RelationError Unit × RelationStore :=
  match h : store.finalRecords changes with
  | .ok records => (.ok (), { store with records, valid := (validFor_of_finalRecords h).1 })
  | .error halt => (.error halt, store)

def run (store : RelationStore) (batches : List (List BatchChange)) : RelationStore :=
  batches.foldl (fun store changes => (store.applyBatch changes).2) store

/-- A store of the records that validate to the given ones. -/
def ofRecords (spec : CheckedAppSpec) (scope : Scope) (rows : List RawRecord) :
    Exec RelationError RelationStore :=
  match h : validateRecords spec.definition scope rows with
  | .ok records => .ok ⟨spec, records, rows, by
      obtain ⟨-, rfl⟩ := (validateRecords_eq_ok_iff (wellFormed spec)).1 h
      exact h⟩
  | .error halt => Exec.lift .kernel (.error halt)

def new (spec : CheckedAppSpec) (scope : Scope) : Exec RelationError RelationStore :=
  ofRecords spec scope []

def fromCheckedSnapshot (spec : CheckedAppSpec) (records : CheckedRecords) :
    Exec RelationError RelationStore :=
  ofRecords spec records.scope records.records

theorem ofRecords_eq_ok_iff {spec : CheckedAppSpec} {scope : Scope} {rows : List RawRecord}
    {store : RelationStore} :
    ofRecords spec scope rows = .ok store ↔
      store.spec = spec ∧ validateRecords spec.definition scope rows = .ok store.records := by
  unfold ofRecords
  split
  · rename_i records h
    constructor
    · intro heq
      obtain rfl := Except.ok.inj heq
      exact ⟨rfl, h⟩
    · rintro ⟨rfl, hrecords⟩
      obtain rfl : records = store.records := Except.ok.inj (h.symm.trans hrecords)
      rfl
  · rename_i halt h
    simp [h]

theorem applyBatch_cases (store : RelationStore) (changes : List BatchChange) :
    (∃ next, store.applyBatch changes = (.ok (), next) ∧ next.spec = store.spec ∧
      store.finalRecords changes = .ok next.records) ∨
    ∃ halt, store.applyBatch changes = (.error halt, store) ∧
      store.finalRecords changes = .error halt := by
  unfold applyBatch
  split
  · rename_i records h
    exact .inl ⟨_, rfl, rfl, h⟩
  · rename_i halt h
    exact .inr ⟨halt, rfl, h⟩

end RelationStore

end Evobase
