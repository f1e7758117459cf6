import Evobase.Relations.Formula

/-!
# Evaluation under an output policy

Every output of a store is authorized: a record before it is read, a field before its value
is, and a whole table before its rows are counted or added up. A formula is authorized
before it is evaluated, through its nested expressions and the names it uses.
-/

namespace Evobase

open Foundation

/-- What a caller may read. A complete scan promises that every row of the table and each of
the fields can be read. -/
structure OutputPolicy where
  allowSnapshot : CheckedAppSpec → CheckedRecords → Bool
  allowRecord : Scope → TableId → RecordId → Bool
  allowField : Scope → TableId → FieldId → Bool
  allowCompleteScan : Scope → TableId → List FieldId → Bool

/-- Everything may be read. -/
def localPreviewPolicy : OutputPolicy where
  allowSnapshot _ _ := true
  allowRecord _ _ _ := true
  allowField _ _ _ := true
  allowCompleteScan _ _ _ := true

def namesRecord (table : TableId) (record : RecordId) : Option Value → Bool
  | some (.ref reference) => reference.tableId = table ∧ reference.recordId = record
  | _ => false

def isReference : Option Value → Bool
  | some (.ref _) => true
  | _ => false

namespace RelationStore

variable (store : RelationStore) (policy : OutputPolicy)

def authorizeSnapshot : Exec RelationError Unit :=
  rejectIf (policy.allowSnapshot store.spec store.records = false) (.fail .outputDenied)

def authorizedRecord (table : TableId) (record : RecordId) : Exec RelationError RawRecord := do
  rejectIf (policy.allowRecord store.records.scope table record = false) (.fail .outputDenied)
  okOr (.fail (.missingRecord table record)) (store.records.find table record)

def authorizeField (policy : OutputPolicy) (row : RawRecord) (field : FieldId) :
    Exec RelationError Unit :=
  rejectIf (policy.allowRecord row.scope row.tableId row.id = false ∨
    policy.allowField row.scope row.tableId field = false) (.fail .outputDenied)

def authorizeScan (table : TableId) (fields : List FieldId) : Exec RelationError Unit :=
  rejectIf (policy.allowCompleteScan store.records.scope table fields = false ∨
    ∃ field ∈ fields, policy.allowField store.records.scope table field = false)
    (.fail .outputDenied)

/-- The reference field refers to the table. -/
def requireTarget (table : TableId) (field : FieldId) (target : TableId) :
    Exec RelationError Unit := do
  let actual ← referenceTarget store.spec.definition table field
  rejectIf (actual ≠ target) (.fail (.referenceTargetMismatch table field))

def rowsOf (table : TableId) : List RawRecord :=
  store.records.records.filter fun row => row.tableId = table

/-- The records that refer to a record. -/
def reverseRefs (table : TableId) (record : RecordId) (childTable : TableId) (refField : FieldId) :
    Exec RelationError (List RecordId) := do
  store.authorizeSnapshot policy
  let _ ← store.authorizedRecord policy table record
  store.requireTarget childTable refField table
  store.authorizeScan policy childTable [refField]
  (store.rowsOf childTable).foldlM (fun result child => do
    authorizeField policy child refField
    .ok (if namesRecord table record (child.values.get? refField) then result ++ [child.id]
      else result)) []

/-- The value of a field of the record that a record refers to. -/
def lookup (table : TableId) (record : RecordId) (refField targetField : FieldId) :
    Exec RelationError Value := do
  store.authorizeSnapshot policy
  let row ← store.authorizedRecord policy table record
  authorizeField policy row refField
  let target ← referenceTarget store.spec.definition table refField
  rejectIf (store.spec.definition.field target targetField = none)
    (.fail (.unknownField target targetField))
  rejectIf (policy.allowField store.records.scope target targetField = false) (.fail .outputDenied)
  match row.values.get? refField with
  | some (.ref reference) => do
      let targetRow ← store.authorizedRecord policy reference.tableId reference.recordId
      authorizeField policy targetRow targetField
      .ok ((targetRow.values.get? targetField).getD .null)
  | _ => .ok .null

end RelationStore

def addNumeric (sum : I64) (value : Numeric) : Exec RelationError I64 :=
  okOr (.fail .overflow) (sum.checkedAdd (value.value.getD I64.zero))

/-- The sum of a value over the children that refer to a record. -/
def sumChildren (policy : OutputPolicy) (limits : FormulaLimits) (refField : FieldId)
    (row : RawRecord) (eval : RawRecord → Budget → Exec RelationError (Metered Numeric))
    (children : List RawRecord) (budget : Budget) : Exec RelationError (Metered I64) :=
  children.foldlM (fun (sum : Metered I64) child => do
    RelationStore.authorizeField policy child refField
    let budget ← sum.budget.record limits
    if namesRecord row.tableId row.id (child.values.get? refField) then do
      let result ← eval child budget
      let next ← addNumeric sum.value result.value
      .ok ⟨next, result.budget⟩
    else .ok ⟨sum.value, budget⟩) ⟨I64.zero, budget⟩

/-- The sum of values of one kind. -/
def addValues (eval : Expression → Budget → Exec RelationError (Metered Numeric))
    (values : List Expression) (budget : Budget) : Exec RelationError (Metered Numeric) := do
  let total ← values.foldlM (fun (total : Metered (Option NumericKind × I64)) value => do
      let result ← eval value total.budget
      rejectIf (∃ kind ∈ total.value.1, kind ≠ result.value.kind) (.fail .numericTypeMismatch)
      let next ← addNumeric total.value.2 result.value
      .ok ⟨(some result.value.kind, next), result.budget⟩) ⟨(none, I64.zero), budget⟩
  let kind ← okOr (.fail .emptyTotal) total.value.1
  .ok ⟨.ofKind kind total.value.2, total.budget⟩

namespace CheckedFormulas

variable (formulas : CheckedFormulas) (store : RelationStore) (policy : OutputPolicy)

/-- The fields and the scans of an expression are allowed. The recursion through the names
has no bound of its own; `fuel` bounds it. -/
def authorizeExpression : Nat → TableId → Expression → Exec RelationError Unit
  | 0, _, _ => .error .diverge
  | fuel + 1, table, expression =>
      match expression with
      | .field field =>
          rejectIf (policy.allowField store.records.scope table field = false) (.fail .outputDenied)
      | .lookup refField targetField => do
          let target ← referenceTarget store.spec.definition table refField
          rejectIf (policy.allowField store.records.scope table refField = false ∨
            policy.allowField store.records.scope target targetField = false) (.fail .outputDenied)
      | .sum childTable refField value => do
          let fields ← collectFields formulas.definitions fuel childTable value
            (.ofList [refField])
          store.authorizeScan policy childTable fields.keys
          authorizeExpression fuel childTable value
      | .product left right => do
          authorizeExpression fuel table left
          authorizeExpression fuel table right
      | .total values => each (fun value => authorizeExpression fuel table value) values
      | .named name => do
          let expression ← Exec.expect "checked formula reference"
            (formulas.definitions.get? (toLex (table, name)))
          authorizeExpression fuel table expression

/-- The value of an expression for a record. `room` is the number of levels left. -/
def evaluateExpression (fuel : Nat) :
    Nat → RawRecord → Expression → Budget → Exec RelationError (Metered Numeric)
  | 0, _, _, _ => .error (.fail .depthExceeded)
  | room + 1, row, expression, budget => do
      let budget ← budget.node formulas.limits
      match expression with
      | .field field => do
          RelationStore.authorizeField policy row field
          let kind ← numericKind store.spec.definition row.tableId field
          let value ← numericValue (row.values.get? field) kind
          .ok ⟨value, budget⟩
      | .lookup refField targetField => do
          let target ← referenceTarget store.spec.definition row.tableId refField
          let budget ← if isReference (row.values.get? refField) then budget.record formulas.limits
            else .ok budget
          let kind ← numericKind store.spec.definition target targetField
          let value ← store.lookup policy row.tableId row.id refField targetField
          let value ← numericValue (some value) kind
          .ok ⟨value, budget⟩
      | .sum childTable refField value => do
          store.requireTarget childTable refField row.tableId
          let fields ← collectFields formulas.definitions fuel childTable value
            (.ofList [refField])
          store.authorizeScan policy childTable fields.keys
          -- the kind of the sum is inferred again, with a budget of its own
          let kind ← checkExpression store.spec.definition formulas.definitions formulas.limits
            formulas.limits.maxDepth childTable value .new []
          let sum ← sumChildren policy formulas.limits refField row
            (fun child budget => evaluateExpression fuel room child value budget)
            (store.rowsOf childTable) budget
          .ok ⟨.ofKind kind.value sum.value, sum.budget⟩
      | .product left right => do
          let left ← evaluateExpression fuel room row left budget
          let right ← evaluateExpression fuel room row right left.budget
          let kind ← productKind left.value.kind right.value.kind
          match left.value.value, right.value.value with
          | some a, some b => do
              let product ← okOr (.fail .overflow) (a.checkedMul b)
              .ok ⟨.ofKind kind product, right.budget⟩
          | _, _ => .ok ⟨.null kind, right.budget⟩
      | .total values =>
          addValues (fun value budget => evaluateExpression fuel room row value budget) values
            budget
      | .named name => do
          let expression ← okOr (.fail (.missingFormula row.tableId name))
            (formulas.definitions.get? (toLex (row.tableId, name)))
          evaluateExpression fuel room row expression budget

/-- The value of a formula for a record. -/
def evaluate (fuel : Nat) (table : TableId) (record : RecordId) (name : String) :
    Exec RelationError Numeric := do
  store.authorizeSnapshot policy
  let expression ← okOr (.fail (.missingFormula table name))
    (formulas.definitions.get? (toLex (table, name)))
  let row ← store.authorizedRecord policy table record
  rejectIf (formulas.shape ≠ .of store.spec.definition) (.fail .definitionMismatch)
  formulas.authorizeExpression store policy fuel table expression
  let budget ← Budget.new.record formulas.limits
  let result ← formulas.evaluateExpression store policy fuel formulas.limits.maxDepth row
    expression budget
  rejectIf (formulas.kinds.get? (toLex (table, name)) ≠ some result.value.kind)
    (.fail .numericTypeMismatch)
  .ok result.value

end CheckedFormulas

section Fuel

variable {definitions : OrdMap FormulaKey Expression} {formulas : CheckedFormulas}
  {store : RelationStore} {policy : OutputPolicy} {fuel fuel' : Nat}

theorem approximates_collectFields (h : fuel ≤ fuel') (table : TableId) (expression : Expression)
    (fields : OrdSet FieldId) :
    Approximates (collectFields definitions fuel table expression fields)
      (collectFields definitions fuel' table expression fields) := by
  induction fuel generalizing fuel' table expression fields with
  | zero => exact .diverge _
  | succ fuel ih =>
      obtain ⟨fuel', rfl⟩ := Nat.exists_eq_add_of_le' (Nat.le_of_add_left_le h)
      have ih := fun table expression fields => @ih fuel' (by omega) table expression fields
      cases expression with
      | field field => exact .inr rfl
      | lookup refField targetField => exact .inr rfl
      | sum childTable refField value => exact .inr rfl
      | product left right =>
          rw [collectFields, collectFields]
          exact (ih _ _ _).bind fun fields => ih _ _ fields
      | total values =>
          rw [collectFields, collectFields]
          exact .foldlM (fun fields value => ih _ value fields) fields
      | named name =>
          rw [collectFields, collectFields]
          cases hname : definitions.get? (toLex (table, name)) with
          | none => exact .refl _
          | some value => exact ih _ value fields

theorem approximates_authorizeExpression (h : fuel ≤ fuel') (table : TableId)
    (expression : Expression) :
    Approximates (formulas.authorizeExpression store policy fuel table expression)
      (formulas.authorizeExpression store policy fuel' table expression) := by
  induction fuel generalizing fuel' table expression with
  | zero => exact .diverge _
  | succ fuel ih =>
      obtain ⟨fuel', rfl⟩ := Nat.exists_eq_add_of_le' (Nat.le_of_add_left_le h)
      have hle : fuel ≤ fuel' := by omega
      cases expression with
      | field field => exact .inr rfl
      | lookup refField targetField => exact .inr rfl
      | sum childTable refField value =>
          rw [CheckedFormulas.authorizeExpression, CheckedFormulas.authorizeExpression]
          exact (approximates_collectFields hle _ _ _).bind fun fields =>
            (Approximates.refl _).bind fun _ => ih hle _ _
      | product left right =>
          rw [CheckedFormulas.authorizeExpression, CheckedFormulas.authorizeExpression]
          exact (ih hle _ _).bind fun _ => ih hle _ _
      | total values =>
          rw [CheckedFormulas.authorizeExpression, CheckedFormulas.authorizeExpression]
          exact .each (fun value => ih hle _ value) values
      | named name =>
          rw [CheckedFormulas.authorizeExpression, CheckedFormulas.authorizeExpression]
          exact (Approximates.refl _).bind fun expression => ih hle _ expression

theorem approximates_evaluateExpression (h : fuel ≤ fuel') (room : Nat) (row : RawRecord)
    (expression : Expression) (budget : Budget) :
    Approximates (formulas.evaluateExpression store policy fuel room row expression budget)
      (formulas.evaluateExpression store policy fuel' room row expression budget) := by
  induction room generalizing row expression budget with
  | zero => exact .refl _
  | succ room ih =>
      rw [CheckedFormulas.evaluateExpression, CheckedFormulas.evaluateExpression]
      refine (Approximates.refl _).bind fun budget => ?_
      cases expression with
      | field field => exact .refl _
      | lookup refField targetField => exact .refl _
      | sum childTable refField value =>
          refine (Approximates.refl _).bind fun _ => ?_
          refine (approximates_collectFields h _ _ _).bind fun fields => ?_
          refine (Approximates.refl _).bind fun _ => (Approximates.refl _).bind fun kind => ?_
          refine Approximates.bind (.foldlM (fun sum child => ?_) _) fun sum => .refl _
          refine (Approximates.refl _).bind fun _ => (Approximates.refl _).bind fun budget => ?_
          split_ifs
          · exact (ih _ _ _).bind fun result => .refl _
          · exact .refl _
      | product left right =>
          exact (ih _ _ _).bind fun left => (ih _ _ _).bind fun right => .refl _
      | total values =>
          refine Approximates.bind (.foldlM (fun total value => ?_) _) fun total => .refl _
          exact (ih _ _ _).bind fun result => .refl _
      | named name => exact (Approximates.refl _).bind fun expression => ih _ _ _

theorem approximates_evaluate (h : fuel ≤ fuel') (table : TableId) (record : RecordId)
    (name : String) :
    Approximates (formulas.evaluate store policy fuel table record name)
      (formulas.evaluate store policy fuel' table record name) :=
  (Approximates.refl _).bind fun _ => (Approximates.refl _).bind fun expression =>
    (Approximates.refl _).bind fun row => (Approximates.refl _).bind fun _ =>
      (approximates_authorizeExpression h table expression).bind fun _ =>
        (Approximates.refl _).bind fun budget =>
          (approximates_evaluateExpression h _ row expression budget).bind fun _ => .refl _

end Fuel

end Evobase
