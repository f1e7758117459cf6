import Evobase.Relations.Invariant

/-!
# Formulas

A formula computes an integer or an amount of money from the fields of a record, from the
fields of a record it refers to and from the records that refer to it. `compile` infers
the kind of every formula of a list; named formulas may use each other without a cycle.
`FormulaLimits` bounds the depth and the nodes of an expression, counted through the
names, and the records that an evaluation may read.
-/

namespace Evobase

open Foundation

def maxFormulas : Nat := 64

inductive NumericKind where
  | integer
  | money
deriving DecidableEq, Repr

inductive Numeric where
  | integer (value : I64)
  | money (value : I64)
  | null (kind : NumericKind)
deriving DecidableEq, Repr

namespace Numeric

def kind : Numeric → NumericKind
  | integer _ => .integer
  | money _ => .money
  | null kind => kind

def value : Numeric → Option I64
  | integer value | money value => some value
  | null _ => none

/-- The number of a kind. -/
def ofKind (kind : NumericKind) (value : I64) : Numeric :=
  match kind with
  | .integer => integer value
  | .money => money value

@[simp] theorem kind_ofKind (kind : NumericKind) (value : I64) :
    (ofKind kind value).kind = kind := by
  cases kind <;> rfl

@[simp] theorem value_ofKind (kind : NumericKind) (value : I64) :
    (ofKind kind value).value = some value := by
  cases kind <;> rfl

end Numeric

inductive Expression where
  | field (field : FieldId)
  | lookup (refField targetField : FieldId)
  | sum (childTable : TableId) (refField : FieldId) (value : Expression)
  | product (left right : Expression)
  | total (values : List Expression)
  | named (name : String)

structure FormulaDefinition where
  table : TableId
  name : String
  expression : Expression

abbrev FormulaKey := Lex (TableId × String)

structure FormulaLimits where
  maxNodes : Nat
  maxDepth : Nat
  maxRecords : Nat
deriving DecidableEq, Repr

namespace FormulaLimits

def default : FormulaLimits := ⟨256, 24, 1024⟩

def validate (limits : FormulaLimits) : Exec RelationError Unit :=
  rejectIf (limits.maxNodes = 0 ∨ limits.maxNodes > 16384 ∨ limits.maxDepth = 0 ∨
    limits.maxDepth > 64 ∨ limits.maxRecords = 0 ∨ limits.maxRecords > 10000)
    (.fail .invalidLimits)

theorem validate_default : default.validate = .ok () := by decide

end FormulaLimits

/-- What formulas depend on in a definition. -/
structure SemanticShape where
  app : AppId
  tables : OrdSet TableId
  fields : OrdMap (Lex (TableId × FieldId)) (FieldType × Bool)
  captures : List CaptureRule
deriving DecidableEq

def SemanticShape.of (spec : RawAppSpec) : SemanticShape where
  app := spec.appId
  tables := .ofList (spec.tables.map (·.id))
  fields := .ofList (spec.tables.flatMap fun table =>
    table.fields.map fun field => (toLex (table.id, field.id), (field.fieldType, field.required)))
  captures := spec.captureRules

/-- What an evaluation has used. -/
structure Budget where
  nodes : Nat
  records : Nat
deriving DecidableEq, Repr

namespace Budget

def new : Budget := ⟨0, 0⟩

/-- Use a node. The bound of the depth is the number of levels that a recursion has left. -/
def node (limits : FormulaLimits) (budget : Budget) : Exec RelationError Budget := do
  rejectIf (budget.nodes + 1 > limits.maxNodes) (.fail .nodeBudgetExceeded)
  .ok { budget with nodes := budget.nodes + 1 }

def record (limits : FormulaLimits) (budget : Budget) : Exec RelationError Budget := do
  rejectIf (budget.records + 1 > limits.maxRecords) (.fail .recordBudgetExceeded)
  .ok { budget with records := budget.records + 1 }

end Budget

/-- A result with the budget used so far. -/
structure Metered (α : Type) where
  value : α
  budget : Budget

/-- The table that a reference field refers to. -/
def referenceTarget (spec : RawAppSpec) (table : TableId) (field : FieldId) :
    Exec RelationError TableId := do
  let definition ← okOr (.fail (.unknownField table field)) (spec.field table field)
  match definition.fieldType with
  | .ref target => .ok target
  | _ => .error (.fail (.referenceFieldRequired table field))

/-- The kind of a numeric field. -/
def numericKind (spec : RawAppSpec) (table : TableId) (field : FieldId) :
    Exec RelationError NumericKind := do
  let definition ← okOr (.fail (.unknownField table field)) (spec.field table field)
  match definition.fieldType with
  | .integer => .ok .integer
  | .money => .ok .money
  | _ => .error (.fail (.numericFieldRequired table field))

/-- The value of a field as a number. -/
def numericValue (value : Option Value) (kind : NumericKind) : Exec RelationError Numeric :=
  match value, kind with
  | none, kind | some .null, kind | some .blank, kind => .ok (.null kind)
  | some (.integer n), .integer => .ok (.integer n)
  | some (.money n), .money => .ok (.money n)
  | _, _ => .error (.fail .numericTypeMismatch)

def productKind : NumericKind → NumericKind → Exec RelationError NumericKind
  | .money, .money => .error (.fail .moneyProductUnsupported)
  | .integer, .integer => .ok .integer
  | _, _ => .ok .money

/-- The kind that all the parts of a total have. -/
def totalKind (check : Expression → Budget → Exec RelationError (Metered NumericKind))
    (values : List Expression) (budget : Budget) : Exec RelationError (Metered NumericKind) := do
  let total ← values.foldlM (fun (total : Metered (Option NumericKind)) value => do
      let current ← check value total.budget
      rejectIf (∃ kind ∈ total.value, kind ≠ current.value) (.fail .numericTypeMismatch)
      .ok ⟨some current.value, current.budget⟩) ⟨none, budget⟩
  let kind ← okOr (.fail .emptyTotal) total.value
  .ok ⟨kind, total.budget⟩

/-- The kind of an expression over the records of a table. `room` is the number of levels
left, and `visiting` holds the names that are being expanded. -/
def checkExpression (spec : RawAppSpec) (definitions : OrdMap FormulaKey Expression)
    (limits : FormulaLimits) :
    Nat → TableId → Expression → Budget → List FormulaKey → Exec RelationError (Metered NumericKind)
  | 0, _, _, _, _ => .error (.fail .depthExceeded)
  | room + 1, table, expression, budget, visiting => do
      let budget ← budget.node limits
      match expression with
      | .field field => do
          let kind ← numericKind spec table field
          .ok ⟨kind, budget⟩
      | .lookup refField targetField => do
          let target ← referenceTarget spec table refField
          let kind ← numericKind spec target targetField
          .ok ⟨kind, budget⟩
      | .sum childTable refField value => do
          let target ← referenceTarget spec childTable refField
          rejectIf (target ≠ table) (.fail (.referenceTargetMismatch childTable refField))
          checkExpression spec definitions limits room childTable value budget visiting
      | .product left right => do
          let left ← checkExpression spec definitions limits room table left budget visiting
          let right ← checkExpression spec definitions limits room table right left.budget visiting
          let kind ← productKind left.value right.value
          .ok ⟨kind, right.budget⟩
      | .total values =>
          totalKind (fun value budget =>
            checkExpression spec definitions limits room table value budget visiting) values budget
      | .named name => do
          rejectIf (toLex (table, name) ∈ visiting) (.fail (.formulaCycle table name))
          let expression ← okOr (.fail (.missingFormula table name))
            (definitions.get? (toLex (table, name)))
          checkExpression spec definitions limits room table expression budget
            (toLex (table, name) :: visiting)

/-- Formulas whose kinds have been inferred. -/
structure CheckedFormulas where
  definitions : OrdMap FormulaKey Expression
  kinds : OrdMap FormulaKey NumericKind
  limits : FormulaLimits
  shape : SemanticShape

namespace CheckedFormulas

def isFormulaName (name : String) : Bool :=
  name.utf8ByteSize ≠ 0 && name.utf8ByteSize ≤ 64 &&
    name.toList.all fun c => c.isAlphanum || c = '_'

/-- Add a definition to the definitions before it. -/
def declare (spec : RawAppSpec) (definitions : OrdMap FormulaKey Expression)
    (definition : FormulaDefinition) : Exec RelationError (OrdMap FormulaKey Expression) := do
  rejectIf (isFormulaName definition.name = false) (.fail .invalidFormulaName)
  rejectIf (spec.table definition.table = none) (.fail (.unknownTable definition.table))
  let key := toLex (definition.table, definition.name)
  rejectIf (definitions.get? key ≠ none)
    (.fail (.duplicateFormula definition.table definition.name))
  .ok (definitions.insert key definition.expression)

def compile (spec : RawAppSpec) (definitions : List FormulaDefinition) (limits : FormulaLimits) :
    Exec RelationError CheckedFormulas := do
  limits.validate
  rejectIf (definitions.length > maxFormulas) (.fail .formulaLimit)
  let definitions ← definitions.foldlM (declare spec) .empty
  let kinds ← definitions.entries.mapM fun entry => do
    let kind ← checkExpression spec definitions limits limits.maxDepth (ofLex entry.1).1 entry.2
      .new [entry.1]
    .ok (entry.1, kind.value)
  .ok ⟨definitions, .ofList kinds, limits, .of spec⟩

end CheckedFormulas

/-- The fields of the records of a table that an expression reads. The recursion through the
names has no bound of its own; `fuel` bounds it. -/
def collectFields (definitions : OrdMap FormulaKey Expression) :
    Nat → TableId → Expression → OrdSet FieldId → Exec RelationError (OrdSet FieldId)
  | 0, _, _, _ => .error .diverge
  | fuel + 1, table, expression, fields =>
      match expression with
      | .field field => .ok (fields.insert field ())
      | .lookup refField _ => .ok (fields.insert refField ())
      | .product left right => do
          let fields ← collectFields definitions fuel table left fields
          collectFields definitions fuel table right fields
      | .total values =>
          values.foldlM (fun fields value => collectFields definitions fuel table value fields)
            fields
      | .named name =>
          match definitions.get? (toLex (table, name)) with
          | some value => collectFields definitions fuel table value fields
          | none => .ok fields
      | .sum _ _ _ => .ok fields

end Evobase
