import Evobase.Relations.Denotation

/-!
# The course of an evaluation

`Visits` lists the nodes that the evaluation of an expression for a record visits, in their
order; the value of a sum is visited once for every child. A visit uses a node and reads
records (`Visit.records`), and it computes numbers (`Computes`): a product has one, and a sum
or a total has its partial sums, the complete one included. Nothing here depends on limits.
-/

namespace Evobase

open Foundation

/-- A node of an expression, evaluated for a record. -/
structure Visit where
  row : RawRecord
  expression : Expression

/-- The records that a visit reads itself. -/
def Visit.records (store : RelationStore) (visit : Visit) : Nat :=
  match visit.expression with
  | .lookup refField _ => if isReference (visit.row.values.get? refField) then 1 else 0
  | .sum childTable _ _ => (store.rowsOf childTable).length
  | _ => 0

def recordsRead (store : RelationStore) (visits : List Visit) : Nat :=
  (visits.map (Visit.records store)).sum

section Records

variable {store : RelationStore} {visit : Visit} {xs ys : List Visit}

@[simp] theorem recordsRead_nil : recordsRead store [] = 0 := rfl

@[simp] theorem recordsRead_cons :
    recordsRead store (visit :: xs) = visit.records store + recordsRead store xs := by
  simp [recordsRead]

@[simp] theorem recordsRead_append :
    recordsRead store (xs ++ ys) = recordsRead store xs + recordsRead store ys := by
  simp [recordsRead]

end Records

def Budget.after (store : RelationStore) (budget : Budget) (visits : List Visit) : Budget :=
  ⟨budget.nodes + visits.length, budget.records + recordsRead store visits⟩

/-- The visits of the evaluation of an expression for a record. -/
inductive Visits (definitions : OrdMap FormulaKey Expression) (store : RelationStore) :
    RawRecord → Expression → List Visit → Prop
  | field {row field} : Visits definitions store row (.field field) [⟨row, .field field⟩]
  | lookup {row refField targetField} :
      Visits definitions store row (.lookup refField targetField)
        [⟨row, .lookup refField targetField⟩]
  | sum {row childTable refField value} (visits : RawRecord → List Visit)
      (hchildren : ∀ child ∈ store.childrenOf childTable refField row,
        Visits definitions store child value (visits child)) :
      Visits definitions store row (.sum childTable refField value)
        (⟨row, .sum childTable refField value⟩ ::
          (store.childrenOf childTable refField row).flatMap visits)
  | product {row left right leftVisits rightVisits}
      (hleft : Visits definitions store row left leftVisits)
      (hright : Visits definitions store row right rightVisits) :
      Visits definitions store row (.product left right)
        (⟨row, .product left right⟩ :: (leftVisits ++ rightVisits))
  | total {row values} (visits : Expression → List Visit)
      (hvalues : ∀ value ∈ values, Visits definitions store row value (visits value)) :
      Visits definitions store row (.total values)
        (⟨row, .total values⟩ :: values.flatMap visits)
  | named {row name expression visits}
      (hname : definitions.get? (toLex (row.tableId, name)) = some expression)
      (hexpression : Visits definitions store row expression visits) :
      Visits definitions store row (.named name) (⟨row, .named name⟩ :: visits)

/-- The numbers that a visit computes from the values of its parts. -/
inductive Computes (definitions : OrdMap FormulaKey Expression) (store : RelationStore) :
    Visit → Int → Prop
  | product {row left right a b} (hleft : Denotes definitions store row left (some a))
      (hright : Denotes definitions store row right (some b)) :
      Computes definitions store ⟨row, .product left right⟩ (a * b)
  | sum {row childTable refField value pre} (number : RawRecord → Option Int)
      (hchildren : ∀ child ∈ store.childrenOf childTable refField row,
        Denotes definitions store child value (number child))
      (hpre : pre <+: store.childrenOf childTable refField row) :
      Computes definitions store ⟨row, .sum childTable refField value⟩
        (pre.map fun child => (number child).getD 0).sum
  | total {row values pre} (number : Expression → Option Int)
      (hvalues : ∀ value ∈ values, Denotes definitions store row value (number value))
      (hpre : pre <+: values) :
      Computes definitions store ⟨row, .total values⟩
        (pre.map fun value => (number value).getD 0).sum

def Visit.Overflows (definitions : OrdMap FormulaKey Expression) (store : RelationStore)
    (visit : Visit) : Prop :=
  ∃ n, Computes definitions store visit n ∧ ¬ I64.InRange n

/-- An evaluation has one course. -/
theorem Visits.unique {definitions : OrdMap FormulaKey Expression} {store : RelationStore}
    {row : RawRecord} {expression : Expression} {visits visits' : List Visit}
    (h : Visits definitions store row expression visits)
    (h' : Visits definitions store row expression visits') : visits = visits' := by
  induction h generalizing visits' with
  | field =>
      cases h'
      rfl
  | lookup =>
      cases h'
      rfl
  | sum visits hchildren ih =>
      cases h' with
      | sum visits' hchildren' =>
          congr 1
          exact List.flatMap_congr fun child hchild => ih child hchild (hchildren' child hchild)
  | product _ _ ihleft ihright =>
      cases h' with
      | product hleft hright => rw [ihleft hleft, ihright hright]
  | total visits hvalues ih =>
      cases h' with
      | total visits' hvalues' =>
          congr 1
          exact List.flatMap_congr fun value hvalue => ih value hvalue (hvalues' value hvalue)
  | named hname _ ih =>
      cases h' with
      | named hname' hexpression =>
          obtain rfl := Option.some.inj (hname.symm.trans hname')
          rw [ih hexpression]

theorem Visits.one_le_length {definitions : OrdMap FormulaKey Expression} {store : RelationStore}
    {row : RawRecord} {expression : Expression} {visits : List Visit}
    (h : Visits definitions store row expression visits) : 1 ≤ visits.length := by
  cases h <;> simp

/-- The evaluation of a checked expression has a course. -/
theorem Checks.exists_visits {definitions : OrdMap FormulaKey Expression} {spec : RawAppSpec}
    {store : RelationStore} {limits : FormulaLimits} {room : Nat} {table : TableId}
    {expression : Expression} {kind : NumericKind} {row : RawRecord}
    (h : Checks spec definitions limits room table expression kind) (htable : row.tableId = table) :
    ∃ visits, Visits definitions store row expression visits := by
  induction room generalizing table expression kind row with
  | zero => exact absurd h not_checks_zero
  | succ room ih =>
      have hparts := h.parts
      cases expression with
      | field field => exact ⟨_, .field⟩
      | lookup refField targetField => exact ⟨_, .lookup⟩
      | sum childTable refField value =>
          have hchildren : ∀ child, ∃ visits,
              child ∈ store.childrenOf childTable refField row →
                Visits definitions store child value visits := by
            intro child
            by_cases hmem : child ∈ store.childrenOf childTable refField row
            · have hchild : child.tableId = childTable := by
                have hrows := (List.mem_filter.1 hmem).1
                simpa using (List.mem_filter.1 hrows).2
              exact (ih hparts.2 hchild).imp fun _ hvisits _ => hvisits
            · exact ⟨[], fun h => absurd h hmem⟩
          choose visits hvisits using hchildren
          exact ⟨_, .sum visits hvisits⟩
      | product left right =>
          obtain ⟨leftKind, rightKind, hleft, hright, -⟩ := hparts
          obtain ⟨leftVisits, hleftVisits⟩ := ih hleft htable
          obtain ⟨rightVisits, hrightVisits⟩ := ih hright htable
          exact ⟨_, .product hleftVisits hrightVisits⟩
      | total values =>
          have hvalues : ∀ value, ∃ visits, value ∈ values →
              Visits definitions store row value visits := by
            intro value
            by_cases hmem : value ∈ values
            · exact (ih (hparts.2 value hmem) htable).imp fun _ hvisits _ => hvisits
            · exact ⟨[], fun h => absurd h hmem⟩
          choose visits hvisits using hvalues
          exact ⟨_, .total visits hvisits⟩
      | named name =>
          obtain ⟨expression, hname, hexpression⟩ := hparts
          obtain ⟨visits, hvisits⟩ := ih hexpression htable
          exact ⟨_, .named (by rw [htable, hname]) hvisits⟩

end Evobase
