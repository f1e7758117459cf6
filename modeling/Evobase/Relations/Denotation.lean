import Evobase.Relations.Evaluate

/-!
# The meaning of a formula

`HasKind` is the kind of an expression and `Denotes` its value over the exact integers,
without limits, budgets or an order of evaluation. `Checks` is what the compiler has found
of an expression; it is enough for a kind and for a value to exist.

The meaning is a relation that has at most one value. Where a machine integer does not hold it is
a matter of the evaluation and not of the meaning.
-/

namespace Evobase

open Foundation

def NumericKind.fieldType : NumericKind → FieldType
  | .integer => .integer
  | .money => .money

def Value.number : Value → Option Int
  | .integer n | .money n => some n.val
  | _ => none

/-- The kind of an expression over the records of a table. -/
inductive HasKind (spec : RawAppSpec) (definitions : OrdMap FormulaKey Expression) :
    TableId → Expression → NumericKind → Prop
  | field {table field kind} (htype : spec.hasType table field kind.fieldType) :
      HasKind spec definitions table (.field field) kind
  | lookup {table target refField targetField kind}
      (href : spec.hasType table refField (.ref target))
      (htype : spec.hasType target targetField kind.fieldType) :
      HasKind spec definitions table (.lookup refField targetField) kind
  | sum {table childTable refField value kind}
      (href : spec.hasType childTable refField (.ref table))
      (hvalue : HasKind spec definitions childTable value kind) :
      HasKind spec definitions table (.sum childTable refField value) kind
  | product {table left right leftKind rightKind kind}
      (hleft : HasKind spec definitions table left leftKind)
      (hright : HasKind spec definitions table right rightKind)
      (hproduct : productKind leftKind rightKind = .ok kind) :
      HasKind spec definitions table (.product left right) kind
  | total {table values kind} (hne : values ≠ [])
      (hvalues : ∀ value ∈ values, HasKind spec definitions table value kind) :
      HasKind spec definitions table (.total values) kind
  | named {table name expression kind}
      (hname : definitions.get? (toLex (table, name)) = some expression)
      (hexpression : HasKind spec definitions table expression kind) :
      HasKind spec definitions table (.named name) kind

/-- The children of a record: the rows of a table whose reference field names it. -/
def RelationStore.childrenOf (store : RelationStore) (childTable : TableId) (refField : FieldId)
    (row : RawRecord) : List RawRecord :=
  (store.rowsOf childTable).filter fun child =>
    child.values.get? refField = some (.ref ⟨store.records.scope, row.tableId, row.id⟩)

/-- The value of an expression for a record: a number or null. -/
inductive Denotes (definitions : OrdMap FormulaKey Expression) (store : RelationStore) :
    RawRecord → Expression → Option Int → Prop
  | field {row field} : Denotes definitions store row (.field field) (row.value field).number
  | lookupEmpty {row refField targetField} (hempty : (row.value refField).isEmpty = true) :
      Denotes definitions store row (.lookup refField targetField) none
  | lookup {row refField targetField reference target}
      (href : row.value refField = .ref reference)
      (htarget : store.records.find reference.tableId reference.recordId = some target) :
      Denotes definitions store row (.lookup refField targetField)
        (target.value targetField).number
  | sum {row childTable refField value} (number : RawRecord → Option Int)
      (hchildren : ∀ child ∈ store.childrenOf childTable refField row,
        Denotes definitions store child value (number child)) :
      Denotes definitions store row (.sum childTable refField value)
        (some ((store.childrenOf childTable refField row).map fun child =>
          (number child).getD 0).sum)
  | product {row left right a b} (hleft : Denotes definitions store row left a)
      (hright : Denotes definitions store row right b) :
      Denotes definitions store row (.product left right)
        (a.bind fun a => b.map fun b => a * b)
  | total {row values} (number : Expression → Option Int)
      (hvalues : ∀ value ∈ values, Denotes definitions store row value (number value)) :
      Denotes definitions store row (.total values)
        (some (values.map fun value => (number value).getD 0).sum)
  | named {row name expression number}
      (hname : definitions.get? (toLex (row.tableId, name)) = some expression)
      (hexpression : Denotes definitions store row expression number) :
      Denotes definitions store row (.named name) number

/-- An expression has one value. -/
theorem Denotes.unique {definitions : OrdMap FormulaKey Expression} {store : RelationStore}
    {row : RawRecord} {expression : Expression} {a b : Option Int}
    (ha : Denotes definitions store row expression a)
    (hb : Denotes definitions store row expression b) : a = b := by
  induction ha generalizing b with
  | field =>
      cases hb
      rfl
  | lookupEmpty hempty =>
      cases hb with
      | lookupEmpty => rfl
      | lookup href _ => simp [href, Value.isEmpty] at hempty
  | lookup href htarget =>
      cases hb with
      | lookupEmpty hempty => simp [href, Value.isEmpty] at hempty
      | lookup href' htarget' =>
          obtain rfl := Value.ref.inj (href.symm.trans href')
          obtain rfl := Option.some.inj (htarget.symm.trans htarget')
          rfl
  | sum number _ ih =>
      cases hb with
      | sum number' hchildren' =>
          congr 2
          exact List.map_congr_left fun child hchild => by rw [ih child hchild (hchildren' child hchild)]
  | product _ _ ihleft ihright =>
      cases hb with
      | product hleft hright => rw [ihleft hleft, ihright hright]
  | total number _ ih =>
      cases hb with
      | total number' hvalues' =>
          congr 2
          exact List.map_congr_left fun value hvalue => by rw [ih value hvalue (hvalues' value hvalue)]
  | named hname _ ih =>
      cases hb with
      | named hname' hexpression =>
          obtain rfl := Option.some.inj (hname.symm.trans hname')
          exact ih hexpression

theorem referenceTarget_eq_ok_iff {spec : RawAppSpec} {table target : TableId} {field : FieldId} :
    referenceTarget spec table field = .ok target ↔ spec.hasType table field (.ref target) := by
  simp only [referenceTarget, bind_eq_ok, okOr_eq_ok, RawAppSpec.hasType, Option.map_eq_some_iff]
  refine exists_congr fun definition => and_congr_right fun _ => ?_
  cases definition.fieldType <;> simp

theorem numericKind_eq_ok_iff {spec : RawAppSpec} {table : TableId} {field : FieldId}
    {kind : NumericKind} :
    numericKind spec table field = .ok kind ↔ spec.hasType table field kind.fieldType := by
  simp only [numericKind, bind_eq_ok, okOr_eq_ok, RawAppSpec.hasType, Option.map_eq_some_iff]
  refine exists_congr fun definition => and_congr_right fun _ => ?_
  cases definition.fieldType <;> cases kind <;> simp [NumericKind.fieldType]

theorem Budget.node_eq_ok_iff {limits : FormulaLimits} {budget next : Budget} :
    budget.node limits = .ok next ↔ budget.nodes + 1 ≤ limits.maxNodes ∧
      next = { budget with nodes := budget.nodes + 1 } := by
  simp only [Budget.node, bind_eq_ok, rejectIf_eq_ok, gt_iff_lt, not_lt, Except.ok.injEq]
  constructor
  · rintro ⟨-, hle, heq⟩
    exact ⟨hle, heq.symm⟩
  · rintro ⟨hle, heq⟩
    exact ⟨(), hle, heq.symm⟩

theorem Budget.node_mono {limits limits' : FormulaLimits} {budget budget' next : Budget}
    (hlimits : limits.maxNodes ≤ limits'.maxNodes) (hnodes : budget'.nodes ≤ budget.nodes)
    (h : budget.node limits = .ok next) :
    ∃ next', budget'.node limits' = .ok next' ∧ next'.nodes ≤ next.nodes := by
  obtain ⟨hle, rfl⟩ := node_eq_ok_iff.1 h
  exact ⟨_, node_eq_ok_iff.2 ⟨by omega, rfl⟩, Nat.add_le_add_right hnodes 1⟩

section Total

variable {check check' : Expression → Budget → Exec RelationError (Metered NumericKind)}

theorem of_totalKind {values : List Expression} {budget : Budget} {out : Metered NumericKind}
    (h : totalKind check values budget = .ok out) :
    values ≠ [] ∧ ∀ value ∈ values, ∃ before used, check value before = .ok ⟨out.value, used⟩ := by
  simp only [totalKind, bind_eq_ok, okOr_eq_ok, Except.ok.injEq] at h
  obtain ⟨total, hfold, kind, hkind, rfl⟩ := h
  refine (inv_of_foldlM (fun pre (total : Metered (Option NumericKind)) =>
    (total.value = none → pre = []) ∧ ∀ kind ∈ total.value, pre ≠ [] ∧
      ∀ value ∈ pre, ∃ before used, check value before = .ok ⟨kind, used⟩)
    hfold ⟨fun _ => rfl, by simp⟩ ?_).2 kind hkind
  rintro pre value post - total' next ⟨hnone, hall⟩ hnext
  simp only [bind_eq_ok, rejectIf_eq_ok, Except.ok.injEq, not_exists, not_and, not_not] at hnext
  obtain ⟨current, hcurrent, -, hsame, rfl⟩ := hnext
  refine ⟨by simp, fun kind hmem => ⟨by simp, fun v hv => ?_⟩⟩
  obtain rfl : current.value = kind := by simpa using hmem
  rcases List.mem_append.1 hv with hpre | hlast
  · cases htotal : total'.value with
    | none =>
        rw [hnone htotal] at hpre
        cases hpre
    | some k =>
        rw [← hsame k htotal]
        exact (hall k htotal).2 v hpre
  · obtain rfl : v = value := by simpa using hlast
    exact ⟨_, _, hcurrent⟩

variable (check) in
/-- A total checks when its parts do, with no larger budgets. -/
theorem totalKind_mono {values : List Expression}
    (hcheck : ∀ value ∈ values, ∀ {budget budget' out}, budget'.nodes ≤ budget.nodes →
      check value budget = .ok out → ∃ out', check' value budget' = .ok out' ∧
        out'.value = out.value ∧ out'.budget.nodes ≤ out.budget.nodes)
    {budget budget' : Budget} {out : Metered NumericKind} (hnodes : budget'.nodes ≤ budget.nodes)
    (h : totalKind check values budget = .ok out) :
    ∃ out', totalKind check' values budget' = .ok out' ∧ out'.value = out.value ∧
      out'.budget.nodes ≤ out.budget.nodes := by
  simp only [totalKind, bind_eq_ok, okOr_eq_ok, Except.ok.injEq] at h ⊢
  obtain ⟨total, hfold, kind, hkind, rfl⟩ := h
  suffices general : ∀ start start' : Metered (Option NumericKind), start'.value = start.value →
      start'.budget.nodes ≤ start.budget.nodes →
      values.foldlM (fun (total : Metered (Option NumericKind)) value => do
        let current ← check value total.budget
        rejectIf (∃ kind ∈ total.value, kind ≠ current.value)
          (.fail RelationError.numericTypeMismatch)
        .ok ⟨some current.value, current.budget⟩) start = .ok total →
      ∃ total', values.foldlM (fun (total : Metered (Option NumericKind)) value => do
        let current ← check' value total.budget
        rejectIf (∃ kind ∈ total.value, kind ≠ current.value)
          (.fail RelationError.numericTypeMismatch)
        .ok ⟨some current.value, current.budget⟩) start' = .ok total' ∧
        total'.value = total.value ∧ total'.budget.nodes ≤ total.budget.nodes by
    obtain ⟨total', hfold', hsame, hused⟩ := general ⟨none, budget⟩
      ⟨none, budget'⟩ rfl hnodes hfold
    exact ⟨_, ⟨total', hfold', kind, by rw [hsame, hkind], rfl⟩, rfl, hused⟩
  clear hfold
  induction values with
  | nil =>
      intro start start' hsame hused hfold
      obtain rfl := pure_eq_ok.1 hfold
      exact ⟨start', rfl, hsame, hused⟩
  | cons value values ih =>
      intro start start' hsame hused hfold
      rw [List.foldlM_cons] at hfold
      simp only [bind_eq_ok, rejectIf_eq_ok, Except.ok.injEq] at hfold
      obtain ⟨next, ⟨current, hcurrent, ⟨⟩, hkinds, rfl⟩, hrest⟩ := hfold
      obtain ⟨current', hcurrent', hsame', hused'⟩ := hcheck value (by simp) hused hcurrent
      obtain ⟨total', hfold', hlast⟩ := ih (fun v hv => hcheck v (by simp [hv]))
        _ ⟨some current'.value, current'.budget⟩ (by rw [hsame']) hused' hrest
      refine ⟨total', ?_, hlast⟩
      rw [List.foldlM_cons, hcurrent', ok_bind, rejectIf_bind_of_not, ok_bind, hfold']
      rwa [hsame, hsame']

end Total

section Checks

variable (spec : RawAppSpec) (definitions : OrdMap FormulaKey Expression) (limits : FormulaLimits)

/-- The compiler has found the kind of the expression within the given number of levels. -/
def Checks (room : Nat) (table : TableId) (expression : Expression) (kind : NumericKind) : Prop :=
  ∃ budget visiting used,
    checkExpression spec definitions limits room table expression budget visiting =
      .ok ⟨kind, used⟩

/-- What the compiler has found of the parts of an expression. -/
def ChecksParts (room : Nat) (table : TableId) (kind : NumericKind) : Expression → Prop
  | .field field => numericKind spec table field = .ok kind
  | .lookup refField targetField => ∃ target, referenceTarget spec table refField = .ok target ∧
      numericKind spec target targetField = .ok kind
  | .sum childTable refField value => referenceTarget spec childTable refField = .ok table ∧
      Checks spec definitions limits room childTable value kind
  | .product left right => ∃ leftKind rightKind,
      Checks spec definitions limits room table left leftKind ∧
      Checks spec definitions limits room table right rightKind ∧
      productKind leftKind rightKind = .ok kind
  | .total values => values ≠ [] ∧
      ∀ value ∈ values, Checks spec definitions limits room table value kind
  | .named name => ∃ expression, definitions.get? (toLex (table, name)) = some expression ∧
      Checks spec definitions limits room table expression kind

variable {spec definitions limits} {room : Nat} {table : TableId} {expression : Expression}
  {kind : NumericKind}

theorem not_checks_zero : ¬ Checks spec definitions limits 0 table expression kind := by
  rintro ⟨budget, visiting, used, h⟩
  cases h

theorem Checks.parts (h : Checks spec definitions limits (room + 1) table expression kind) :
    ChecksParts spec definitions limits room table kind expression := by
  obtain ⟨budget, visiting, used, h⟩ := h
  rw [checkExpression, bind_eq_ok] at h
  obtain ⟨budget, -, h⟩ := h
  cases expression with
  | field field =>
      simp only [bind_eq_ok, Except.ok.injEq, Metered.mk.injEq] at h
      obtain ⟨_, hkind, rfl, -⟩ := h
      exact hkind
  | lookup refField targetField =>
      simp only [bind_eq_ok, Except.ok.injEq, Metered.mk.injEq] at h
      obtain ⟨target, htarget, _, hkind, rfl, -⟩ := h
      exact ⟨target, htarget, hkind⟩
  | sum childTable refField value =>
      simp only [bind_eq_ok, rejectIf_eq_ok, not_not] at h
      obtain ⟨_, htarget, -, rfl, hvalue⟩ := h
      exact ⟨htarget, _, _, _, hvalue⟩
  | product left right =>
      simp only [bind_eq_ok, Except.ok.injEq, Metered.mk.injEq] at h
      obtain ⟨⟨leftKind, _⟩, hleft, ⟨rightKind, _⟩, hright, _, hkind, rfl, -⟩ := h
      exact ⟨leftKind, rightKind, ⟨_, _, _, hleft⟩, ⟨_, _, _, hright⟩, hkind⟩
  | total values =>
      obtain ⟨hne, hall⟩ := of_totalKind h
      refine ⟨hne, fun value hvalue => ?_⟩
      obtain ⟨before, used, hcheck⟩ := hall value hvalue
      exact ⟨before, visiting, used, hcheck⟩
  | named name =>
      simp only [bind_eq_ok, rejectIf_eq_ok, okOr_eq_ok] at h
      obtain ⟨-, -, expression, hname, hexpression⟩ := h
      exact ⟨expression, hname, _, _, _, hexpression⟩

theorem Checks.hasKind (h : Checks spec definitions limits room table expression kind) :
    HasKind spec definitions table expression kind := by
  induction room generalizing table expression kind with
  | zero => exact absurd h not_checks_zero
  | succ room ih =>
      have hparts := h.parts
      cases expression with
      | field field => exact .field (numericKind_eq_ok_iff.1 hparts)
      | lookup refField targetField =>
          obtain ⟨target, htarget, hkind⟩ := hparts
          exact .lookup (referenceTarget_eq_ok_iff.1 htarget) (numericKind_eq_ok_iff.1 hkind)
      | sum childTable refField value =>
          exact .sum (referenceTarget_eq_ok_iff.1 hparts.1) (ih hparts.2)
      | product left right =>
          obtain ⟨leftKind, rightKind, hleft, hright, hkind⟩ := hparts
          exact .product (ih hleft) (ih hright) hkind
      | total values => exact .total hparts.1 fun value hvalue => ih (hparts.2 value hvalue)
      | named name =>
          obtain ⟨expression, hname, hexpression⟩ := hparts
          exact .named hname (ih hexpression)

/-- An expression that checks also checks with larger limits, more levels, a smaller budget and
fewer names in expansion, in a definition with the same types. -/
theorem checkExpression_mono {spec' : RawAppSpec} {limits' : FormulaLimits}
    (hlimits : limits.maxNodes ≤ limits'.maxNodes)
    (htypes : ∀ table field type, spec.hasType table field type → spec'.hasType table field type)
    {room' : Nat} (hroom : room ≤ room') {budget budget' : Budget}
    {visiting visiting' : List FormulaKey} {out : Metered NumericKind}
    (hnodes : budget'.nodes ≤ budget.nodes) (hvisiting : ∀ key ∈ visiting', key ∈ visiting)
    (h : checkExpression spec definitions limits room table expression budget visiting = .ok out) :
    ∃ out', checkExpression spec' definitions limits' room' table expression budget' visiting' =
      .ok out' ∧ out'.value = out.value ∧ out'.budget.nodes ≤ out.budget.nodes := by
  have hkinds : ∀ {table field kind}, numericKind spec table field = .ok kind →
      numericKind spec' table field = .ok kind :=
    fun h => numericKind_eq_ok_iff.2 (htypes _ _ _ (numericKind_eq_ok_iff.1 h))
  have htargets : ∀ {table field target}, referenceTarget spec table field = .ok target →
      referenceTarget spec' table field = .ok target :=
    fun h => referenceTarget_eq_ok_iff.2 (htypes _ _ _ (referenceTarget_eq_ok_iff.1 h))
  induction room generalizing room' table expression budget budget' visiting visiting' out with
  | zero => cases h
  | succ room ih =>
      obtain ⟨room', rfl⟩ := Nat.exists_eq_add_of_le' (Nat.le_of_add_left_le hroom)
      have hroom' : room ≤ room' := by omega
      rw [checkExpression, bind_eq_ok] at h
      obtain ⟨next, hnode, h⟩ := h
      obtain ⟨next', hnode', hnodes⟩ := Budget.node_mono hlimits hnodes hnode
      rw [checkExpression, hnode', ok_bind]
      cases expression with
      | field field =>
          simp only [bind_eq_ok, Except.ok.injEq] at h ⊢
          obtain ⟨kind, hkind, rfl⟩ := h
          exact ⟨_, ⟨kind, hkinds hkind, rfl⟩, rfl, hnodes⟩
      | lookup refField targetField =>
          simp only [bind_eq_ok, Except.ok.injEq] at h ⊢
          obtain ⟨target, htarget, kind, hkind, rfl⟩ := h
          exact ⟨_, ⟨target, htargets htarget, kind, hkinds hkind, rfl⟩, rfl, hnodes⟩
      | sum childTable refField value =>
          simp only [bind_eq_ok, rejectIf_eq_ok, not_not] at h ⊢
          obtain ⟨target, htarget, ⟨⟩, rfl, hvalue⟩ := h
          obtain ⟨out', hout, hsame, hused⟩ := ih hroom' hnodes hvisiting hvalue
          exact ⟨out', ⟨target, htargets htarget, (), rfl, hout⟩, hsame, hused⟩
      | product left right =>
          simp only [bind_eq_ok, Except.ok.injEq] at h ⊢
          obtain ⟨outLeft, hleft, outRight, hright, kind, hkind, rfl⟩ := h
          obtain ⟨left', hleft', hsame, hused⟩ := ih hroom' hnodes hvisiting hleft
          obtain ⟨right', hright', hsame', hused'⟩ := ih hroom' hused hvisiting hright
          exact ⟨_, ⟨left', hleft', right', hright', kind, by rw [hsame, hsame', hkind], rfl⟩, rfl,
            hused'⟩
      | total values =>
          exact totalKind_mono (fun value budget =>
            checkExpression spec definitions limits room table value budget visiting)
            (fun value _ _ _ _ hle hcheck => ih hroom' hle hvisiting hcheck) hnodes h
      | named name =>
          simp only [bind_eq_ok, rejectIf_eq_ok, okOr_eq_ok] at h ⊢
          obtain ⟨⟨⟩, hfresh, expression, hname, hexpression⟩ := h
          have hvisiting' : ∀ key ∈ toLex (table, name) :: visiting',
              key ∈ toLex (table, name) :: visiting := fun key hkey => by
            rcases List.mem_cons.1 hkey with rfl | hkey
            · exact List.mem_cons_self
            · exact List.mem_cons_of_mem _ (hvisiting key hkey)
          obtain ⟨out', hout, hsame, hused⟩ := ih hroom' hnodes hvisiting' hexpression
          exact ⟨out', ⟨(), fun hmem => hfresh (hvisiting _ hmem), expression, hname, hout⟩, hsame,
            hused⟩

theorem Checks.of_types {spec' : RawAppSpec}
    (htypes : ∀ table field type, spec.hasType table field type → spec'.hasType table field type)
    (h : Checks spec definitions limits room table expression kind) :
    Checks spec' definitions limits room table expression kind := by
  obtain ⟨budget, visiting, used, h⟩ := h
  obtain ⟨⟨kind', used'⟩, hout, rfl, -⟩ :=
    checkExpression_mono le_rfl htypes le_rfl le_rfl (fun _ hkey => hkey) h
  exact ⟨budget, visiting, used', hout⟩

theorem Checks.fresh (h : Checks spec definitions limits room table expression kind)
    (hroom : room ≤ limits.maxDepth) :
    ∃ used, checkExpression spec definitions limits limits.maxDepth table expression .new [] =
      .ok ⟨kind, used⟩ := by
  obtain ⟨budget, visiting, used, h⟩ := h
  have hnodes : Budget.new.nodes ≤ budget.nodes := Nat.zero_le _
  have hvisiting : ∀ key ∈ ([] : List FormulaKey), key ∈ visiting := by simp
  obtain ⟨⟨kind', used'⟩, hout, rfl, -⟩ :=
    checkExpression_mono le_rfl (fun _ _ _ htype => htype) hroom hnodes hvisiting h
  exact ⟨used', hout⟩

end Checks

end Evobase
