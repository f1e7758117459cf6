import Evobase.Relations.Visits

/-!
# Compiled formulas evaluate

Under a policy that allows everything, the evaluation of a compiled formula for a record of
a store returns a number of the inferred kind with the meaning of the formula and uses its whole
course (`Completes`), or it stops at an overflow of the course or at a budget that the course
exceeds (`Stops`). Every recursion ends within the depth of the limits.

Each form of expression has a lemma of its own (`evaluates_field` and its siblings), which says
what evaluating it costs and computes when its parts evaluate. `evaluates_of_checks` is the
induction over the compiled expression, and `yields_evaluate` adds the authorization and the
limits at the start.
-/

namespace Evobase

open Foundation

theorem table_eq_some_iff {spec : RawAppSpec} (hspec : WellFormed spec) {id : TableId}
    {table : RawTable} : spec.table id = some table ↔ table ∈ spec.tables ∧ table.id = id := by
  refine ⟨RawAppSpec.table_some, fun ⟨hmem, hid⟩ => ?_⟩
  have hnodup : (spec.tables.map (·.id)).Nodup :=
    (List.pairwise_map.2 hspec.tables_sorted).imp fun h => h.ne
  rw [RawAppSpec.table, ← hid]
  exact find?_key_eq_some hnodup hmem

/-- The fields of a shape are the declared fields. -/
theorem get?_fields_of {spec : RawAppSpec} (hspec : WellFormed spec) {table : TableId}
    {field : FieldId} {entry : FieldType × Bool} :
    (SemanticShape.of spec).fields.get? (toLex (table, field)) = some entry ↔
      ∃ definition, spec.field table field = some definition ∧
        (definition.fieldType, definition.required) = entry := by
  have hnodup : ((spec.tables.flatMap fun table => table.fields.map fun field =>
      (toLex (table.id, field.id), (field.fieldType, field.required))).map (·.1)).Nodup := by
    rw [List.map_flatMap, List.nodup_flatMap]
    refine ⟨fun table htable => ?_, hspec.tables_sorted.imp fun {a b} hlt => ?_⟩
    · rw [List.map_map, List.Nodup, List.pairwise_map]
      refine (hspec.fields_sorted table htable).imp fun hlt heq => ?_
      simp only [Function.comp_apply, toLex_inj, Prod.mk.injEq, true_and] at heq
      exact hlt.ne heq
    · intro key ha hb
      simp only [List.map_map, List.mem_map, Function.comp_apply] at ha hb
      obtain ⟨_, -, rfl⟩ := ha
      obtain ⟨_, -, heq⟩ := hb
      rw [toLex_inj, Prod.mk.injEq] at heq
      exact hlt.ne heq.1.symm
  rw [SemanticShape.of, OrdMap.get?_ofList_eq_some_iff hnodup]
  simp only [List.mem_flatMap, List.mem_map, Prod.mk.injEq, toLex_inj, field_eq_some_iff hspec,
    mem_fieldsOf_iff, table_eq_some_iff hspec]
  constructor
  · rintro ⟨t, ht, f, hf, ⟨rfl, rfl⟩, rfl⟩
    exact ⟨f, ⟨⟨t, ⟨ht, rfl⟩, hf⟩, rfl⟩, rfl⟩
  · rintro ⟨f, ⟨⟨t, ⟨ht, rfl⟩, hf⟩, rfl⟩, rfl⟩
    exact ⟨t, ht, f, hf, ⟨rfl, rfl⟩, rfl⟩

theorem hasType_of_shape {spec spec' : RawAppSpec} (hspec : WellFormed spec)
    (hspec' : WellFormed spec') (hshape : SemanticShape.of spec = SemanticShape.of spec')
    (table : TableId) (field : FieldId) (type : FieldType) (h : spec.hasType table field type) :
    spec'.hasType table field type := by
  obtain ⟨definition, hdefinition, rfl⟩ := Option.map_eq_some_iff.1 h
  have hentry := (get?_fields_of hspec).2 ⟨definition, hdefinition, rfl⟩
  rw [hshape] at hentry
  obtain ⟨definition', hdefinition', heq⟩ := (get?_fields_of hspec').1 hentry
  exact Option.map_eq_some_iff.2 ⟨definition', hdefinition', congrArg Prod.fst heq⟩

/-- What compilation has checked of every formula. -/
theorem of_compile {spec : RawAppSpec} {list : List FormulaDefinition} {limits : FormulaLimits}
    {formulas : CheckedFormulas} (h : CheckedFormulas.compile spec list limits = .ok formulas) :
    formulas.limits = limits ∧ formulas.shape = .of spec ∧
      ∀ key expression, formulas.definitions.get? key = some expression →
        ∃ kind, formulas.kinds.get? key = some kind ∧
          Checks spec formulas.definitions limits limits.maxDepth (ofLex key).1 expression kind := by
  simp only [CheckedFormulas.compile, bind_eq_ok, mapM_eq_ok_iff, Except.ok.injEq] at h
  obtain ⟨-, -, -, -, definitions, -, kinds, hkinds, rfl⟩ := h
  refine ⟨rfl, rfl, fun key expression hget => ?_⟩
  have hkeys : kinds.map (·.1) = definitions.entries.map (·.1) := by
    clear hget
    generalize definitions.entries = entries at hkinds
    induction hkinds with
    | nil => rfl
    | cons hhead _ ih =>
        obtain ⟨_, -, rfl⟩ := hhead
        rw [List.map_cons, List.map_cons, ih]
  obtain ⟨kind, hmem, hcheck⟩ : ∃ kind, (key, kind) ∈ kinds ∧
      Checks spec definitions limits limits.maxDepth (ofLex key).1 expression kind := by
    have hentry := OrdMap.mem_entries_iff.2 hget
    clear hget hkeys
    generalize definitions.entries = entries at hkinds hentry
    induction hkinds with
    | nil => cases hentry
    | cons hhead _ ih =>
        rcases List.mem_cons.1 hentry with rfl | hrest
        · obtain ⟨⟨kind, used⟩, hcheck, rfl⟩ := hhead
          exact ⟨kind, List.mem_cons_self, _, _, used, hcheck⟩
        · obtain ⟨kind, hkind, hcheck⟩ := ih hrest
          exact ⟨kind, List.mem_cons_of_mem _ hkind, hcheck⟩
  refine ⟨kind, ?_, hcheck⟩
  rw [OrdMap.get?_ofList_eq_some_iff]
  · exact hmem
  · rw [hkeys]
    exact definitions.keys_nodup

/-- The compiled formulas are the declared ones. -/
theorem get?_of_compile {spec : RawAppSpec} {list : List FormulaDefinition}
    {limits : FormulaLimits} {formulas : CheckedFormulas}
    (h : CheckedFormulas.compile spec list limits = .ok formulas) {definition : FormulaDefinition}
    (hmem : definition ∈ list) :
    formulas.definitions.get? (toLex (definition.table, definition.name)) =
      some definition.expression := by
  simp only [CheckedFormulas.compile, bind_eq_ok, Except.ok.injEq] at h
  obtain ⟨-, -, -, -, definitions, hfold, -, -, rfl⟩ := h
  refine inv_of_foldlM (fun pre definitions => ∀ d ∈ pre,
    definitions.get? (toLex (d.table, d.name)) = some d.expression) hfold (by simp) ?_ definition hmem
  intro pre last post _ definitions' next hpre hnext
  simp only [CheckedFormulas.declare, bind_eq_ok, rejectIf_eq_ok, not_not, Except.ok.injEq] at hnext
  obtain ⟨-, -, -, -, -, hfresh, rfl⟩ := hnext
  intro d hd
  rcases List.mem_append.1 hd with hold | hlast
  · have hne : toLex (d.table, d.name) ≠ toLex (last.table, last.name) := by
      intro heq
      rw [← heq, hpre d hold] at hfresh
      cases hfresh
    rw [OrdMap.get?_insert_of_ne _ _ hne, hpre d hold]
  · obtain rfl : d = last := by simpa using hlast
    rw [OrdMap.get?_insert_self]

section Valid

variable {store : RelationStore} {row : RawRecord} {field : FieldId}

theorem RelationStore.find_eq_some_iff {table : TableId} {id : RecordId} :
    store.records.find table id = some row ↔
      row ∈ store.records.records ∧ row.tableId = table ∧ row.id = id :=
  Evobase.find_eq_some_iff store.validFacts.keys

theorem RelationStore.validRecord (hrow : row ∈ store.records.records) :
    ValidRecord store.spec.definition store.records.scope store.records.records row :=
  store.validFacts.each row hrow

theorem isEmpty_or_matchesType {type : FieldType} (hrow : row ∈ store.records.records)
    (htype : store.spec.definition.hasType row.tableId field type) :
    (row.value field).isEmpty = true ∨ matchesType type (row.value field) = true := by
  unfold RawRecord.value
  cases hget : row.values.get? field with
  | none => exact .inl rfl
  | some value =>
      obtain ⟨f, hf, hvalid⟩ := (RelationStore.validRecord hrow).validValue hget
      rw [RawAppSpec.hasType, hf, Option.map_some, Option.some.injEq] at htype
      subst htype
      cases hempty : value.isEmpty with
      | true => exact .inl hempty
      | false => exact .inr (hvalid.type hempty)

theorem numericValue_of_matches {value : Option Value} {kind : NumericKind}
    (h : (value.getD .blank).isEmpty = true ∨
      matchesType kind.fieldType (value.getD .blank) = true) :
    ∃ number, numericValue value kind = .ok number ∧ number.kind = kind ∧
      number.value.map (·.val) = (value.getD .blank).number := by
  rcases value with _ | value
  · exact ⟨.null kind, rfl, rfl, rfl⟩
  · cases value <;> cases kind <;>
      simp_all [numericValue, Value.isEmpty, matchesType, NumericKind.fieldType, Value.number,
        Numeric.kind, Numeric.value]

theorem numericValue_of_valid {kind : NumericKind} (hrow : row ∈ store.records.records)
    (htype : store.spec.definition.hasType row.tableId field kind.fieldType) {value : Option Value}
    (hvalue : value.getD .blank = row.value field) :
    ∃ number, numericValue value kind = .ok number ∧ number.kind = kind ∧
      number.value.map (·.val) = (row.value field).number := by
  have hshape := isEmpty_or_matchesType hrow htype
  rw [← hvalue] at hshape ⊢
  exact numericValue_of_matches hshape

theorem target_of_valid {target : TableId} {reference : RecordRef}
    (hrow : row ∈ store.records.records)
    (htype : store.spec.definition.hasType row.tableId field (.ref target))
    (href : row.values.get? field = some (.ref reference)) :
    reference.scope = store.records.scope ∧ reference.tableId = target ∧
      ∃ targetRow ∈ store.records.records, targetRow.tableId = target ∧
        store.records.find reference.tableId reference.recordId = some targetRow := by
  obtain ⟨f, hf, hvalid⟩ := (RelationStore.validRecord hrow).validValue href
  obtain ⟨hscope, hfield, targetRow, hmem, htable, hid⟩ := hvalid.reference reference rfl
  rw [RawAppSpec.hasType, hf, Option.map_some, Option.some.injEq, hfield, FieldType.ref.injEq] at htype
  exact ⟨hscope, htype, targetRow, hmem, htable.trans htype,
    RelationStore.find_eq_some_iff.2 ⟨hmem, htable, hid⟩⟩

theorem childrenOf_eq {childTable : TableId} {refField : FieldId} :
    store.childrenOf childTable refField row = (store.rowsOf childTable).filter fun child =>
      namesRecord row.tableId row.id (child.values.get? refField) := by
  refine List.filter_congr fun child hchild => ?_
  have hmem := (List.mem_filter.1 hchild).1
  rw [Bool.eq_iff_iff, decide_eq_true_eq]
  constructor
  · intro h
    simp [h, namesRecord]
  · intro h
    unfold namesRecord at h
    split at h
    · rename_i reference href
      obtain ⟨f, -, hvalid⟩ := (RelationStore.validRecord hmem).validValue href
      obtain ⟨scope, tableId, recordId⟩ := reference
      obtain ⟨rfl, rfl⟩ : tableId = row.tableId ∧ recordId = row.id := by simpa using h
      obtain rfl : scope = store.records.scope := (hvalid.reference _ rfl).1
      exact href
    · cases h

theorem mem_rowsOf {table : TableId} :
    row ∈ store.rowsOf table ↔ row ∈ store.records.records ∧ row.tableId = table := by
  simp [RelationStore.rowsOf]

end Valid

section Meaning

variable {definitions : OrdMap FormulaKey Expression} {limits : FormulaLimits}
  {store : RelationStore} {room : Nat} {table : TableId} {expression : Expression}
  {kind : NumericKind} {row : RawRecord}

theorem Checks.exists_denotes
    (h : Checks store.spec.definition definitions limits room table expression kind)
    (hrow : row ∈ store.records.records) (htable : row.tableId = table) :
    ∃ number, Denotes definitions store row expression number := by
  induction room generalizing table expression kind row with
  | zero => exact absurd h not_checks_zero
  | succ room ih =>
      have hparts := h.parts
      cases expression with
      | field field => exact ⟨_, .field⟩
      | lookup refField targetField =>
          obtain ⟨target, htarget, -⟩ := hparts
          rw [referenceTarget_eq_ok_iff, ← htable] at htarget
          rcases isEmpty_or_matchesType hrow htarget with hempty | hmatch
          · exact ⟨_, .lookupEmpty hempty⟩
          · obtain ⟨reference, href⟩ : ∃ reference, row.value refField = .ref reference := by
              revert hmatch
              cases row.value refField <;> simp [matchesType]
            have hget : row.values.get? refField = some (.ref reference) := by
              unfold RawRecord.value at href
              cases hget : row.values.get? refField <;> simp_all
            obtain ⟨-, -, targetRow, -, -, hfind⟩ := target_of_valid hrow htarget hget
            exact ⟨_, .lookup href hfind⟩
      | sum childTable refField value =>
          have hchildren : ∀ child, ∃ number,
              child ∈ store.childrenOf childTable refField row →
                Denotes definitions store child value number := by
            intro child
            by_cases hmem : child ∈ store.childrenOf childTable refField row
            · obtain ⟨hchild, hchildTable⟩ := mem_rowsOf.1 (List.mem_filter.1 hmem).1
              exact (ih hparts.2 hchild hchildTable).imp fun _ hnumber _ => hnumber
            · exact ⟨none, fun h => absurd h hmem⟩
          choose number hnumber using hchildren
          exact ⟨_, .sum number hnumber⟩
      | product left right =>
          obtain ⟨leftKind, rightKind, hleft, hright, -⟩ := hparts
          obtain ⟨a, ha⟩ := ih hleft hrow htable
          obtain ⟨b, hb⟩ := ih hright hrow htable
          exact ⟨_, .product ha hb⟩
      | total values =>
          have hvalues : ∀ value, ∃ number, value ∈ values →
              Denotes definitions store row value number := by
            intro value
            by_cases hmem : value ∈ values
            · exact (ih (hparts.2 value hmem) hrow htable).imp fun _ hnumber _ => hnumber
            · exact ⟨none, fun h => absurd h hmem⟩
          choose number hnumber using hvalues
          exact ⟨_, .total number hnumber⟩
      | named name =>
          obtain ⟨expression, hname, hexpression⟩ := hparts
          obtain ⟨number, hnumber⟩ := ih hexpression hrow htable
          exact ⟨number, .named (by rw [htable, hname]) hnumber⟩

open Classical in
noncomputable def meaning (definitions : OrdMap FormulaKey Expression) (store : RelationStore)
    (row : RawRecord) (expression : Expression) : Option Int :=
  if h : ∃ number, Denotes definitions store row expression number then h.choose else none

theorem Denotes.meaning_eq {number : Option Int}
    (h : Denotes definitions store row expression number) :
    meaning definitions store row expression = number := by
  have hexists : ∃ number, Denotes definitions store row expression number := ⟨number, h⟩
  rw [meaning, dif_pos hexists]
  exact hexists.choose_spec.unique h

theorem Checks.denotes
    (h : Checks store.spec.definition definitions limits room table expression kind)
    (hrow : row ∈ store.records.records) (htable : row.tableId = table) :
    Denotes definitions store row expression (meaning definitions store row expression) := by
  obtain ⟨number, hnumber⟩ := h.exists_denotes hrow htable
  rwa [hnumber.meaning_eq]

/-- Collecting fields ends within the levels of the expression. -/
theorem Checks.collectFields_ok {spec : RawAppSpec}
    (h : Checks spec definitions limits room table expression kind) {fuel : Nat}
    (hfuel : room ≤ fuel) (fields : OrdSet FieldId) :
    ∃ out, collectFields definitions fuel table expression fields = .ok out := by
  induction room generalizing table expression kind fuel fields with
  | zero => exact absurd h not_checks_zero
  | succ room ih =>
      obtain ⟨fuel, rfl⟩ := Nat.exists_eq_add_of_le' (Nat.le_of_add_left_le hfuel)
      have hfuel' : room ≤ fuel := by omega
      have hparts := h.parts
      cases expression with
      | field field => exact ⟨_, rfl⟩
      | lookup refField targetField => exact ⟨_, rfl⟩
      | sum childTable refField value => exact ⟨_, rfl⟩
      | product left right =>
          obtain ⟨leftKind, rightKind, hleft, hright, -⟩ := hparts
          obtain ⟨out, hout⟩ := ih hleft hfuel' fields
          obtain ⟨out', hout'⟩ := ih hright hfuel' out
          exact ⟨out', by rw [collectFields, hout, ok_bind, hout']⟩
      | total values =>
          have hfold : Yields (fun _ => True) (fun _ : Halt RelationError => False)
              (values.foldlM (fun fields value =>
                collectFields definitions fuel table value fields) fields) := by
            refine Yields.foldlM (I := fun _ _ => True) trivial fun pre value post heq out _ => ?_
            obtain ⟨out', hout'⟩ := ih (hparts.2 value (by simp [heq])) hfuel' out
            rw [hout']
            trivial
          obtain ⟨out, hout, -⟩ := hfold.exists_eq_ok
          exact ⟨out, by rw [collectFields, hout]⟩
      | named name =>
          obtain ⟨expression, hname, hexpression⟩ := hparts
          obtain ⟨out, hout⟩ := ih hexpression hfuel' fields
          refine ⟨out, ?_⟩
          rw [collectFields]
          simp only [hname, hout]

@[simp] theorem authorizeSnapshot_preview :
    store.authorizeSnapshot localPreviewPolicy = .ok () := rfl

@[simp] theorem authorizeField_preview (row : RawRecord) (field : FieldId) :
    RelationStore.authorizeField localPreviewPolicy row field = .ok () := by
  simp [RelationStore.authorizeField, localPreviewPolicy, rejectIf]

@[simp] theorem authorizeScan_preview (table : TableId) (fields : List FieldId) :
    store.authorizeScan localPreviewPolicy table fields = .ok () := by
  simp [RelationStore.authorizeScan, localPreviewPolicy, rejectIf]

theorem authorizedRecord_preview {id : RecordId} (hrow : row ∈ store.records.records)
    (htable : row.tableId = table) (hid : row.id = id) :
    store.authorizedRecord localPreviewPolicy table id = .ok row := by
  rw [RelationStore.authorizedRecord, rejectIf_bind_of_not (by simp [localPreviewPolicy]),
    RelationStore.find_eq_some_iff.2 ⟨hrow, htable, hid⟩]
  rfl

/-- The pre-pass over a checked expression ends within its levels and allows it. -/
theorem Checks.authorizeExpression_ok {formulas : CheckedFormulas}
    (h : Checks store.spec.definition formulas.definitions limits room table expression kind)
    {fuel : Nat} (hfuel : room ≤ fuel) :
    formulas.authorizeExpression store localPreviewPolicy fuel table expression = .ok () := by
  induction room generalizing table expression kind fuel with
  | zero => exact absurd h not_checks_zero
  | succ room ih =>
      obtain ⟨fuel, rfl⟩ := Nat.exists_eq_add_of_le' (Nat.le_of_add_left_le hfuel)
      have hfuel' : room ≤ fuel := by omega
      have hparts := h.parts
      cases expression with
      | field field => rfl
      | lookup refField targetField =>
          obtain ⟨target, htarget, -⟩ := hparts
          rw [CheckedFormulas.authorizeExpression, htarget]
          simp [localPreviewPolicy, rejectIf]
      | sum childTable refField value =>
          obtain ⟨fields, hfields⟩ := hparts.2.collectFields_ok hfuel' (.ofList [refField])
          rw [CheckedFormulas.authorizeExpression, hfields, ok_bind, authorizeScan_preview, ok_bind,
            ih hparts.2 hfuel']
      | product left right =>
          obtain ⟨leftKind, rightKind, hleft, hright, -⟩ := hparts
          rw [CheckedFormulas.authorizeExpression, ih hleft hfuel', ok_bind, ih hright hfuel']
      | total values =>
          rw [CheckedFormulas.authorizeExpression, each_eq_ok_iff]
          exact fun value hvalue => ih (hparts.2 value hvalue) hfuel'
      | named name =>
          obtain ⟨expression, hname, hexpression⟩ := hparts
          rw [CheckedFormulas.authorizeExpression, hname]
          exact ih hexpression hfuel'

end Meaning

/-- The budget is within the limits. -/
structure Budget.Within (limits : FormulaLimits) (budget : Budget) : Prop where
  nodes : budget.nodes ≤ limits.maxNodes
  records : budget.records ≤ limits.maxRecords

/-- Where an evaluation can stop that starts with a budget and has the given course: at a visit
that overflows, or at a budget that does not last for the whole course. -/
def Stops (formulas : CheckedFormulas) (store : RelationStore) (visits : List Visit)
    (budget : Budget) : Halt RelationError → Prop
  | .fail .overflow => ∃ visit ∈ visits, visit.Overflows formulas.definitions store
  | .fail .nodeBudgetExceeded => formulas.limits.maxNodes < (budget.after store visits).nodes
  | .fail .recordBudgetExceeded => formulas.limits.maxRecords < (budget.after store visits).records
  | _ => False

/-- The value has the kind and the meaning of the expression for the record. -/
def Means (formulas : CheckedFormulas) (store : RelationStore) (row : RawRecord)
    (expression : Expression) (kind : NumericKind) (value : Numeric) : Prop :=
  value.kind = kind ∧
    value.value.map (·.val) = meaning formulas.definitions store row expression

/-- An evaluation has run its course: it returns the meaning of the expression, has used the
whole course and met no overflow. -/
structure Completes (formulas : CheckedFormulas) (store : RelationStore) (row : RawRecord)
    (expression : Expression) (kind : NumericKind) (visits : List Visit) (budget : Budget)
    (result : Metered Numeric) : Prop where
  means : Means formulas store row expression kind result.value
  used : result.budget = budget.after store visits
  within : result.budget.Within formulas.limits
  inRange : ∀ visit ∈ visits, ¬ visit.Overflows formulas.definitions store

/-- A running sum over items with their values and visits: it is exact, and no visit and no
partial sum has overflowed. -/
structure Adds {α : Type} (formulas : CheckedFormulas) (store : RelationStore)
    (number : α → Option Int) (visits : α → List Visit) (pre : List α) (sum : I64) : Prop where
  sum : sum.val = (pre.map fun a => (number a).getD 0).sum
  partials : ∀ part, part <+: pre → I64.InRange (part.map fun a => (number a).getD 0).sum
  inRange : ∀ visit ∈ pre.flatMap visits, ¬ visit.Overflows formulas.definitions store

section Evaluation

variable {formulas : CheckedFormulas} {store : RelationStore} {row : RawRecord}
  {kind : NumericKind}

theorem Stops.mono {visits visits' : List Visit} {budget budget' : Budget}
    {halt : Halt RelationError} (h : Stops formulas store visits budget halt)
    (hsub : ∀ visit ∈ visits, visit ∈ visits')
    (hnodes : (budget.after store visits).nodes ≤ (budget'.after store visits').nodes)
    (hrecords : (budget.after store visits).records ≤ (budget'.after store visits').records) :
    Stops formulas store visits' budget' halt := by
  unfold Stops at h ⊢
  split at h
  · obtain ⟨visit, hvisit, hoverflows⟩ := h
    exact ⟨visit, hsub visit hvisit, hoverflows⟩
  · exact h.trans_le hnodes
  · exact h.trans_le hrecords
  · exact h.elim

theorem yields_node {visits : List Visit} {start budget : Budget}
    (hnodes : budget.nodes + 1 ≤ (start.after store visits).nodes) :
    Yields (fun next => next = ⟨budget.nodes + 1, budget.records⟩ ∧
        budget.nodes + 1 ≤ formulas.limits.maxNodes)
      (Stops formulas store visits start) (budget.node formulas.limits) := by
  unfold Budget.node rejectIf
  split_ifs with hover
  · exact lt_of_lt_of_le hover hnodes
  · exact ⟨rfl, not_lt.1 hover⟩

theorem yields_record {visits : List Visit} {start budget : Budget}
    (hrecords : budget.records + 1 ≤ (start.after store visits).records) :
    Yields (fun next => next = ⟨budget.nodes, budget.records + 1⟩ ∧
        budget.records + 1 ≤ formulas.limits.maxRecords)
      (Stops formulas store visits start) (budget.record formulas.limits) := by
  unfold Budget.record rejectIf
  split_ifs with hover
  · exact lt_of_lt_of_le hover hrecords
  · exact ⟨rfl, not_lt.1 hover⟩

theorem val_getD {value : Numeric} {number : Option Int}
    (h : value.value.map (·.val) = number) : (value.value.getD I64.zero).val = number.getD 0 := by
  subst h
  cases value.value <;> rfl

theorem yields_addNumeric (sum : I64) {value : Numeric} {number : Option Int}
    (h : value.value.map (·.val) = number) :
    Yields (fun next : I64 => next.val = sum.val + number.getD 0)
      (fun halt => halt = .fail .overflow ∧ ¬ I64.InRange (sum.val + number.getD 0))
      (addNumeric sum value) := by
  unfold addNumeric
  cases hadd : sum.checkedAdd (value.value.getD I64.zero) with
  | none =>
      rw [Bounded.checkedAdd_eq_none, val_getD h] at hadd
      exact ⟨rfl, hadd⟩
  | some next =>
      rw [Bounded.checkedAdd_eq_some, val_getD h] at hadd
      exact hadd

section Adds

variable {α : Type} {number : α → Option Int} {visits : α → List Visit} {pre : List α} {sum : I64}

theorem Adds.nil : Adds formulas store number visits [] I64.zero where
  sum := rfl
  partials := by
    intro part hpart
    rw [List.prefix_nil.1 hpart]
    exact I64.inRange_val I64.zero
  inRange := by simp

theorem Adds.snoc (h : Adds formulas store number visits pre sum) {a : α} {next : I64}
    (hnext : next.val = sum.val + (number a).getD 0)
    (hvisits : ∀ visit ∈ visits a, ¬ visit.Overflows formulas.definitions store) :
    Adds formulas store number visits (pre ++ [a]) next := by
  have hsum : next.val = ((pre ++ [a]).map fun a => (number a).getD 0).sum := by
    simp [hnext, h.sum]
  refine ⟨hsum, fun part hpart => ?_, fun visit hvisit => ?_⟩
  · rcases List.prefix_concat_iff.1 hpart with rfl | hbefore
    · exact hsum ▸ I64.inRange_val next
    · exact h.partials part hbefore
  · rcases List.mem_append.1 (List.flatMap_append ▸ hvisit) with hbefore | hlast
    · exact h.inRange visit hbefore
    · exact hvisits visit (by simpa using hlast)

theorem Adds.overflows (h : Adds formulas store number visits pre sum) {a : α}
    (hover : ¬ I64.InRange (sum.val + (number a).getD 0)) :
    ¬ I64.InRange ((pre ++ [a]).map fun a => (number a).getD 0).sum := by
  rw [h.sum] at hover
  simpa using hover

end Adds

abbrev referring (row : RawRecord) (refField : FieldId) (rows : List RawRecord) : List RawRecord :=
  rows.filter fun child => namesRecord row.tableId row.id (child.values.get? refField)

/-- A running sum over the children among the rows read so far. -/
structure SumsRows (formulas : CheckedFormulas) (store : RelationStore) (row : RawRecord)
    (refField : FieldId) (value : Expression) (visits : RawRecord → List Visit) (start : Budget)
    (rows : List RawRecord) (sum : Metered I64) : Prop where
  adds : Adds formulas store (meaning formulas.definitions store · value) visits
    (referring row refField rows) sum.value
  nodes : sum.budget.nodes =
    start.nodes + 1 + ((referring row refField rows).flatMap visits).length
  records : sum.budget.records = start.records + rows.length +
    recordsRead store ((referring row refField rows).flatMap visits)
  within : sum.budget.Within formulas.limits

/-- Adding up the children of a record gives the sum of their meanings, unless a partial sum
overflows. -/
theorem yields_sumChildren (kind : NumericKind) {refField : FieldId} {value : Expression}
    {head : Visit}
    {eval : RawRecord → Budget → Exec RelationError (Metered Numeric)} {rows : List RawRecord}
    {visits : RawRecord → List Visit} {start : Budget} (hhead : head.records store = rows.length)
    (hcomputes : ∀ part, part <+: referring row refField rows →
      Computes formulas.definitions store head
        (part.map fun child => (meaning formulas.definitions store child value).getD 0).sum)
    (heval : ∀ child ∈ referring row refField rows, ∀ budget : Budget,
      budget.Within formulas.limits →
        Yields (Completes formulas store child value kind (visits child) budget)
          (Stops formulas store (visits child) budget) (eval child budget))
    (hwithin : Budget.Within formulas.limits ⟨start.nodes + 1, start.records⟩) :
    Yields (SumsRows formulas store row refField value visits start rows)
      (Stops formulas store (head :: (referring row refField rows).flatMap visits) start)
      (sumChildren localPreviewPolicy formulas.limits refField row eval rows
        ⟨start.nodes + 1, start.records⟩) := by
  refine Yields.foldlM (I := SumsRows formulas store row refField value visits start)
    ⟨Adds.nil, rfl, rfl, hwithin⟩ fun pre child post heq sum hsum => ?_
  subst heq
  have happend : referring row refField (pre ++ child :: post) =
      referring row refField pre ++ referring row refField (child :: post) :=
    List.filter_append _ _
  rw [authorizeField_preview, ok_bind]
  refine (yields_record ?_).bind fun next ⟨hnext, hroom⟩ => ?_
  · simp only [Budget.after, recordsRead_cons, hhead, List.length_append, List.length_cons,
      hsum.records, happend, List.flatMap_append, recordsRead_append]
    omega
  subst hnext
  split_ifs with hnames
  · have hcons : referring row refField (child :: post) =
        child :: referring row refField post := by
      simp [referring, hnames]
    have hlast : referring row refField (pre ++ [child]) = referring row refField pre ++ [child] := by
      simp [referring, hnames]
    have hmem : child ∈ referring row refField (pre ++ child :: post) := by
      rw [happend, hcons]
      simp
    refine ((heval child hmem ⟨sum.budget.nodes, sum.budget.records + 1⟩
      ⟨hsum.within.nodes, hroom⟩).mono (fun _ => id)
      fun halt hstop => hstop.mono ?_ ?_ ?_).bind fun result hresult => ?_
    · intro visit hvisit
      rw [happend, hcons]
      simp [hvisit]
    · simp only [Budget.after, happend, hcons, hsum.nodes, List.flatMap_append, List.flatMap_cons,
        List.length_append, List.length_cons]
      omega
    · simp only [Budget.after, happend, hcons, hsum.records, List.flatMap_append,
        List.flatMap_cons, recordsRead_append, recordsRead_cons, hhead, List.length_append,
        List.length_cons]
      omega
    refine ((yields_addNumeric sum.value hresult.means.2).mono (fun _ => id) ?_).bind
      fun total htotal => ?_
    · rintro halt ⟨rfl, hover⟩
      refine ⟨head, List.mem_cons_self, _, hcomputes _ ?_, hsum.adds.overflows hover⟩
      rw [happend, hcons]
      exact ⟨referring row refField post, by simp⟩
    refine ⟨hlast ▸ hsum.adds.snoc htotal hresult.inRange, ?_, ?_, hresult.within⟩
    · simp only [hresult.used, Budget.after, hsum.nodes, hlast, List.flatMap_append,
        List.flatMap_cons, List.flatMap_nil, List.append_nil, List.length_append]
      omega
    · simp only [hresult.used, Budget.after, hsum.records, hlast, List.flatMap_append,
        List.flatMap_cons, List.flatMap_nil, List.append_nil, recordsRead_append,
        List.length_append, List.length_cons, List.length_nil]
      omega
  · have hlast : referring row refField (pre ++ [child]) = referring row refField pre := by
      simp [referring, hnames]
    refine ⟨hlast ▸ hsum.adds, hlast ▸ hsum.nodes, ?_, ⟨hsum.within.nodes, hroom⟩⟩
    simp only [hlast, hsum.records, List.length_append, List.length_singleton]
    omega

/-- A running sum over the parts of a total. -/
structure SumsParts (formulas : CheckedFormulas) (store : RelationStore) (row : RawRecord)
    (kind : NumericKind) (visits : Expression → List Visit) (budget : Budget)
    (values : List Expression) (total : Metered (Option NumericKind × I64)) : Prop where
  kinds : total.value.1 = some kind ∨ total.value.1 = none ∧ values = []
  adds : Adds formulas store (meaning formulas.definitions store row) visits values total.value.2
  used : total.budget = budget.after store (values.flatMap visits)
  within : total.budget.Within formulas.limits

/-- Adding up values of one kind gives the sum of their meanings, unless a partial sum
overflows. -/
theorem yields_addValues {eval : Expression → Budget → Exec RelationError (Metered Numeric)}
    {values : List Expression} {visits : Expression → List Visit} (head : Visit) {start : Budget}
    (hne : values ≠ []) (hhead : head.records store = 0)
    (hcomputes : ∀ part, part <+: values → Computes formulas.definitions store head
      (part.map fun value => (meaning formulas.definitions store row value).getD 0).sum)
    (heval : ∀ value ∈ values, ∀ budget : Budget, budget.Within formulas.limits →
      Yields (Completes formulas store row value kind (visits value) budget)
        (Stops formulas store (visits value) budget) (eval value budget))
    (hwithin : Budget.Within formulas.limits ⟨start.nodes + 1, start.records⟩) :
    Yields (fun result : Metered Numeric => result.value.kind = kind ∧ ∃ sum,
        result.value.value = some sum ∧
          Adds formulas store (meaning formulas.definitions store row) visits values sum ∧
          result.budget = start.after store (head :: values.flatMap visits) ∧
          result.budget.Within formulas.limits)
      (Stops formulas store (head :: values.flatMap visits) start)
      (addValues eval values ⟨start.nodes + 1, start.records⟩) := by
  have hafter : Budget.after store ⟨start.nodes + 1, start.records⟩ (values.flatMap visits) =
      start.after store (head :: values.flatMap visits) := by
    simp only [Budget.after, recordsRead_cons, hhead, List.length_cons, Budget.mk.injEq]
    omega
  refine Yields.bind (M := SumsParts formulas store row kind visits
    ⟨start.nodes + 1, start.records⟩ values) ?_ fun total htotal => ?_
  · refine Yields.foldlM (I := SumsParts formulas store row kind visits
      ⟨start.nodes + 1, start.records⟩) ⟨.inr ⟨rfl, rfl⟩, Adds.nil, rfl, hwithin⟩
      fun pre value post heq total htotal => ?_
    have hbefore : values.flatMap visits =
        pre.flatMap visits ++ (visits value ++ post.flatMap visits) := by
      simp [heq]
    refine ((heval value (by simp [heq]) _ htotal.within).mono (fun _ => id)
      fun halt hstop => hstop.mono ?_ ?_ ?_).bind fun result hresult => ?_
    · intro visit hvisit
      rw [hbefore]
      simp [hvisit]
    · rw [← hafter, hbefore, htotal.used]
      simp only [Budget.after, List.length_append]
      omega
    · rw [← hafter, hbefore, htotal.used]
      simp only [Budget.after, recordsRead_append]
      omega
    rw [rejectIf_bind_of_not]
    · refine ((yields_addNumeric total.value.2 hresult.means.2).mono (fun _ => id) ?_).bind
        fun next hnext => ?_
      · rintro halt ⟨rfl, hover⟩
        exact ⟨head, List.mem_cons_self, _, hcomputes _ ⟨post, by simp [heq]⟩,
          htotal.adds.overflows hover⟩
      refine ⟨.inl (congrArg some hresult.means.1), htotal.adds.snoc hnext hresult.inRange, ?_,
        hresult.within⟩
      rw [hresult.used, htotal.used]
      simp only [Budget.after, List.flatMap_append, List.flatMap_cons, List.flatMap_nil,
        List.append_nil, List.length_append, recordsRead_append, Budget.mk.injEq]
      omega
    · rintro ⟨k, hk, hdiffer⟩
      rcases htotal.kinds with hsome | ⟨hnone, -⟩
      · rw [hsome, Option.mem_some_iff] at hk
        exact hdiffer (hk.symm.trans hresult.means.1.symm)
      · rw [hnone] at hk
        cases hk
  · have hkind : total.value.1 = some kind := by
      rcases htotal.kinds with hsome | ⟨-, hempty⟩
      · exact hsome
      · exact absurd hempty hne
    rw [hkind]
    exact ⟨Numeric.kind_ofKind _ _, total.value.2, Numeric.value_ofKind _ _, htotal.adds,
      htotal.used.trans hafter, htotal.within⟩

theorem lookup_preview {target : TableId} {refField targetField : FieldId}
    (hrow : row ∈ store.records.records)
    (href : store.spec.definition.hasType row.tableId refField (.ref target))
    (hfield : store.spec.definition.field target targetField ≠ none) :
    store.lookup localPreviewPolicy row.tableId row.id refField targetField =
      match row.values.get? refField with
      | some (.ref reference) => do
          let targetRow ← store.authorizedRecord localPreviewPolicy reference.tableId
            reference.recordId
          RelationStore.authorizeField localPreviewPolicy targetRow targetField
          .ok ((targetRow.values.get? targetField).getD .null)
      | _ => .ok .null := by
  rw [RelationStore.lookup, authorizeSnapshot_preview, ok_bind,
    authorizedRecord_preview hrow rfl rfl, ok_bind, authorizeField_preview, ok_bind,
    referenceTarget_eq_ok_iff.2 href, ok_bind, rejectIf_bind_of_not hfield]
  exact rejectIf_bind_of_not (by simp [localPreviewPolicy]) _

variable (formulas) in
/-- The lookup of a field of a valid record gives a value with the meaning of the lookup. -/
theorem lookup_of_valid {target : TableId} {refField targetField : FieldId}
    (hrow : row ∈ store.records.records)
    (href : store.spec.definition.hasType row.tableId refField (.ref target))
    (htype : store.spec.definition.hasType target targetField kind.fieldType) :
    ∃ value number, store.lookup localPreviewPolicy row.tableId row.id refField targetField =
      .ok value ∧ numericValue (some value) kind = .ok number ∧
      Means formulas store row (.lookup refField targetField) kind number := by
  have hfield : store.spec.definition.field target targetField ≠ none := by
    obtain ⟨definition, hdefinition, -⟩ := Option.map_eq_some_iff.1 htype
    rw [hdefinition]
    simp
  rw [lookup_preview hrow href hfield]
  cases hget : row.values.get? refField with
  | none =>
      refine ⟨.null, .null kind, rfl, rfl, rfl, ?_⟩
      exact (Denotes.meaning_eq (.lookupEmpty (by simp [RawRecord.value, hget, Value.isEmpty]))).symm
  | some value =>
      have hvalue : row.value refField = value := by rw [RawRecord.value, hget, Option.getD_some]
      cases value with
      | ref reference =>
          obtain ⟨-, hreference, targetRow, hmem, htable, hfind⟩ := target_of_valid hrow href hget
          obtain ⟨hmem', htable', hid'⟩ := RelationStore.find_eq_some_iff.1 hfind
          subst htable
          have hnull : ∀ v : Option Value, ((some (v.getD .null)).getD .blank).number =
              (v.getD .blank).number := by
            intro v
            cases v <;> rfl
          have hshape : ((some ((targetRow.values.get? targetField).getD .null)).getD
              .blank).isEmpty = true ∨ matchesType kind.fieldType
                ((some ((targetRow.values.get? targetField).getD .null)).getD .blank) = true := by
            have := isEmpty_or_matchesType hmem htype
            unfold RawRecord.value at this
            cases hget' : targetRow.values.get? targetField with
            | none => exact .inl rfl
            | some v => simpa [hget'] using this
          obtain ⟨number, hnumber, hkind, hmeaning⟩ := numericValue_of_matches hshape
          refine ⟨_, number, ?_, hnumber, hkind, ?_⟩
          · simp only [authorizedRecord_preview hmem' htable' hid', ok_bind, authorizeField_preview]
          · rw [hmeaning, hnull]
            exact (Denotes.meaning_eq (.lookup hvalue hfind)).symm
      | _ =>
          refine ⟨.null, .null kind, rfl, rfl, rfl, ?_⟩
          refine (Denotes.meaning_eq (.lookupEmpty ?_)).symm
          rcases isEmpty_or_matchesType hrow href with hempty | hmatch
          · exact hempty
          · rw [hvalue] at hmatch
            cases hmatch

/-- Multiplying two values of their kinds gives the product of their meanings, unless it
overflows. -/
theorem yields_product {a b : Numeric} {x y : Option Int} (hx : a.value.map (·.val) = x)
    (hy : b.value.map (·.val) = y) (hkind : productKind a.kind b.kind = .ok kind)
    (budget : Budget) :
    Yields (fun result : Metered Numeric => result.value.kind = kind ∧
        result.value.value.map (·.val) = (x.bind fun x => y.map fun y => x * y) ∧
        result.budget = budget ∧ ∀ m n, x = some m → y = some n → I64.InRange (m * n))
      (fun halt => halt = .fail .overflow ∧
        ∃ m n, x = some m ∧ y = some n ∧ ¬ I64.InRange (m * n))
      (productKind a.kind b.kind >>= fun kind =>
        match a.value, b.value with
        | some a, some b => do
            let product ← okOr (.fail .overflow) (a.checkedMul b)
            .ok ⟨.ofKind kind product, budget⟩
        | _, _ => .ok ⟨.null kind, budget⟩) := by
  subst hx hy
  rw [hkind, ok_bind]
  cases a.value with
  | none => exact ⟨rfl, rfl, rfl, by simp⟩
  | some m =>
      cases b.value with
      | none => exact ⟨rfl, rfl, rfl, by simp⟩
      | some n =>
          cases hmul : m.checkedMul n with
          | none =>
              simp only [hmul, okOr, error_bind, yields_error]
              exact ⟨trivial, m.val, n.val, rfl, rfl, Bounded.checkedMul_eq_none.1 hmul⟩
          | some product =>
              have hval := Bounded.checkedMul_eq_some.1 hmul
              simp only [hmul, okOr, ok_bind, yields_ok, Numeric.kind_ofKind, Numeric.value_ofKind]
              refine ⟨trivial, congrArg some hval, trivial, ?_⟩
              rintro _ _ ⟨⟩ ⟨⟩
              exact hval ▸ I64.inRange_val product

/-- Whatever the row of the table, the evaluation of the expression with so many levels left runs its
course, or it stops at an overflow of the course or at a budget that the course exceeds. -/
def Evaluates (formulas : CheckedFormulas) (store : RelationStore) (fuel room : Nat)
    (table : TableId) (expression : Expression) (kind : NumericKind) : Prop :=
  ∀ (row : RawRecord) (visits : List Visit) (budget : Budget), row ∈ store.records.records →
    row.tableId = table → Visits formulas.definitions store row expression visits →
    budget.Within formulas.limits →
      Yields (Completes formulas store row expression kind visits budget)
        (Stops formulas store visits budget)
        (formulas.evaluateExpression store localPreviewPolicy fuel room row expression budget)

section Constructors

variable {fuel room : Nat} {table : TableId}

/-- Every expression first takes a node of the budget. -/
theorem yields_step {visits : List Visit} {budget : Budget} {returns : Metered Numeric → Prop}
    {body : Budget → Exec RelationError (Metered Numeric)} (hlength : 1 ≤ visits.length)
    (hbudget : budget.Within formulas.limits)
    (hbody : Budget.Within formulas.limits ⟨budget.nodes + 1, budget.records⟩ →
      Yields returns (Stops formulas store visits budget)
        (body ⟨budget.nodes + 1, budget.records⟩)) :
    Yields returns (Stops formulas store visits budget) (budget.node formulas.limits >>= body) := by
  refine (yields_node (Nat.add_le_add_left hlength _)).bind fun next hnode => ?_
  obtain ⟨rfl, hnodes⟩ := hnode
  exact hbody ⟨hnodes, hbudget.records⟩

theorem evaluates_field {field : FieldId}
    (hparts : ChecksParts store.spec.definition formulas.definitions formulas.limits room
      table kind (.field field)) :
    Evaluates formulas store fuel (room + 1) table (.field field) kind := by
  rintro row visits budget hrow rfl hvisits hbudget
  rw [CheckedFormulas.evaluateExpression]
  refine yields_step hvisits.one_le_length hbudget fun hwithin => ?_
  cases hvisits
  have htype := numericKind_eq_ok_iff.1 hparts
  obtain ⟨number, hnumber, hkind, hvalue⟩ := numericValue_of_valid hrow htype
    (Eq.refl ((row.values.get? field).getD .blank))
  simp only [authorizeField_preview, ok_bind, show numericKind _ _ _ = _ from hparts,
    hnumber]
  refine ⟨⟨hkind, hvalue.trans (Denotes.meaning_eq .field).symm⟩, rfl, hwithin, ?_⟩
  rintro visit hvisit ⟨n, hcomputes, -⟩
  obtain rfl := List.mem_singleton.1 hvisit
  cases hcomputes

theorem evaluates_lookup {refField targetField : FieldId}
    (hparts : ChecksParts store.spec.definition formulas.definitions formulas.limits room
      table kind (.lookup refField targetField)) :
    Evaluates formulas store fuel (room + 1) table (.lookup refField targetField) kind := by
  rintro row visits budget hrow rfl hvisits hbudget
  rw [CheckedFormulas.evaluateExpression]
  refine yields_step hvisits.one_le_length hbudget fun hwithin => ?_
  cases hvisits
  obtain ⟨target, htarget, hkind⟩ := hparts
  obtain ⟨value, number, hlookup, hnumber, hvalue⟩ := lookup_of_valid formulas
    hrow (referenceTarget_eq_ok_iff.1 htarget) (numericKind_eq_ok_iff.1 hkind)
  have hrange : ∀ visit ∈ [Visit.mk row (.lookup refField targetField)],
      ¬ visit.Overflows formulas.definitions store := by
    rintro visit hvisit ⟨n, hcomputes, -⟩
    obtain rfl := List.mem_singleton.1 hvisit
    cases hcomputes
  simp only [htarget, ok_bind, hkind, hlookup, hnumber]
  split_ifs with hreference
  · refine (yields_record ?_).bind fun next hread => ?_
    · simp [Budget.after, recordsRead, Visit.records, hreference]
    · obtain ⟨hnext, hrecords⟩ := hread
      refine ⟨hvalue, ?_, ?_, hrange⟩
      · simp [hnext, Budget.after, recordsRead, Visit.records, hreference]
      · exact hnext ▸ ⟨hwithin.nodes, hrecords⟩
  · refine ⟨hvalue, ?_, hwithin, hrange⟩
    simp [Budget.after, recordsRead, Visit.records, hreference]

theorem evaluates_sum {childTable : TableId} {refField : FieldId} {value : Expression}
    (hparts : ChecksParts store.spec.definition formulas.definitions formulas.limits room
      table kind (.sum childTable refField value))
    (hroom : room ≤ formulas.limits.maxDepth) (hfuel : room ≤ fuel)
    (ih : ∀ {table expression kind}, Checks store.spec.definition formulas.definitions formulas.limits
      room table expression kind → Evaluates formulas store fuel room table expression kind) :
    Evaluates formulas store fuel (room + 1) table (.sum childTable refField value) kind := by
  rintro row visits budget hrow rfl hvisits hbudget
  rw [CheckedFormulas.evaluateExpression]
  refine yields_step hvisits.one_le_length hbudget fun hwithin => ?_
  obtain ⟨htarget, hvalue⟩ := hparts
  obtain ⟨fields, hfields⟩ := hvalue.collectFields_ok hfuel (.ofList [refField])
  obtain ⟨used, hcheck⟩ := hvalue.fresh hroom
  have hrequire : store.requireTarget childTable refField row.tableId = .ok () := by
    rw [RelationStore.requireTarget, htarget, ok_bind]
    simp [rejectIf]
  have hmeaning : ∀ child ∈ store.childrenOf childTable refField row,
      Denotes formulas.definitions store child value
        (meaning formulas.definitions store child value) := fun child hchild =>
    have hrows := mem_rowsOf.1 (List.mem_filter.1 hchild).1
    hvalue.denotes hrows.1 hrows.2
  simp only [hrequire, ok_bind, hfields, authorizeScan_preview, hcheck]
  cases hvisits with
  | sum visits hchildren =>
      have hreferring : referring row refField (store.rowsOf childTable) =
          store.childrenOf childTable refField row := childrenOf_eq.symm
      have hsumming : Yields
          (SumsRows formulas store row refField value visits budget
            (store.rowsOf childTable))
          (Stops formulas store (⟨row, .sum childTable refField value⟩ ::
            (referring row refField (store.rowsOf childTable)).flatMap visits) budget)
          (sumChildren localPreviewPolicy formulas.limits refField row
            (fun child budget => formulas.evaluateExpression store localPreviewPolicy fuel
              room child value budget)
            (store.rowsOf childTable) ⟨budget.nodes + 1, budget.records⟩) := by
        refine yields_sumChildren kind rfl (fun part hpart => ?_)
          (fun child hchild budget hbudget => ?_) hwithin
        · exact .sum _ hmeaning (hreferring ▸ hpart)
        · have hrows := mem_rowsOf.1 (List.mem_filter.1 hchild).1
          exact ih hvalue child _ budget hrows.1 hrows.2
            (hchildren child (hreferring ▸ hchild)) hbudget
      rw [hreferring] at hsumming
      refine hsumming.bind fun sum hsum => ?_
      obtain ⟨hadds, hnodes, hrecords, hresult⟩ := hsum
      rw [hreferring] at hadds hnodes hrecords
      refine ⟨⟨Numeric.kind_ofKind _ _, ?_⟩, ?_, hresult, fun visit hvisit => ?_⟩
      · rw [Numeric.value_ofKind, Option.map_some, hadds.sum]
        exact (Denotes.meaning_eq (.sum _ hmeaning)).symm
      · have hused : sum.budget = ⟨sum.budget.nodes, sum.budget.records⟩ := rfl
        rw [hused, hnodes, hrecords]
        simp only [Budget.after, recordsRead_cons, List.length_cons, Visit.records,
          Budget.mk.injEq]
        omega
      · rcases List.mem_cons.1 hvisit with rfl | hrest
        · rintro ⟨n, hcomputes, hover⟩
          cases hcomputes with
          | sum number hnumber hpre =>
              refine hover ?_
              rw [List.map_congr_left fun child hchild => by
                rw [← (hnumber child (hpre.subset hchild)).meaning_eq]]
              exact hadds.partials _ hpre
        · exact hadds.inRange visit hrest

theorem evaluates_product {left right : Expression}
    (hparts : ChecksParts store.spec.definition formulas.definitions formulas.limits room
      table kind (.product left right))
    (ih : ∀ {table expression kind}, Checks store.spec.definition formulas.definitions formulas.limits
      room table expression kind → Evaluates formulas store fuel room table expression kind) :
    Evaluates formulas store fuel (room + 1) table (.product left right) kind := by
  rintro row visits budget hrow rfl hvisits hbudget
  rw [CheckedFormulas.evaluateExpression]
  refine yields_step hvisits.one_le_length hbudget fun hwithin => ?_
  obtain ⟨leftKind, rightKind, hleft, hright, hkind⟩ := hparts
  cases hvisits with
  | @product _ _ _ leftVisits rightVisits hleftVisits hrightVisits =>
      have ha' := ih hleft row _ _ hrow rfl hleftVisits hwithin
      refine (ha'.mono (fun _ => id) fun halt hstop => hstop.mono (fun visit hvisit => ?_)
        ?_ ?_).bind fun a ha => ?_
      · simp [hvisit]
      · simp only [Budget.after, List.length_append, List.length_cons]
        omega
      · simp only [Budget.after, recordsRead_append, recordsRead_cons]
        omega
      have hb' := ih hright row _ _ hrow rfl hrightVisits ha.within
      refine (hb'.mono (fun _ => id) fun halt hstop => hstop.mono (fun visit hvisit => ?_)
        ?_ ?_).bind fun b hb => ?_
      · simp [hvisit]
      · simp only [ha.used, Budget.after, List.length_append, List.length_cons]
        omega
      · simp only [ha.used, Budget.after, recordsRead_append, recordsRead_cons]
        omega
      have hdenotesLeft := hleft.denotes hrow rfl
      have hdenotesRight := hright.denotes hrow rfl
      rw [← ha.means.1, ← hb.means.1] at hkind
      refine (yields_product ha.means.2 hb.means.2 hkind b.budget).mono ?_ ?_
      · rintro result ⟨hresultKind, hvalue, hresultBudget, hrange⟩
        refine ⟨⟨hresultKind, hvalue.trans ?_⟩, ?_, hresultBudget ▸ hb.within, ?_⟩
        · exact (Denotes.meaning_eq (.product hdenotesLeft hdenotesRight)).symm
        · rw [hresultBudget, hb.used, ha.used]
          simp only [Budget.after, recordsRead_append, recordsRead_cons, List.length_append,
            List.length_cons, Visit.records, Budget.mk.injEq]
          omega
        · intro visit hvisit
          rcases List.mem_cons.1 hvisit with rfl | hrest
          · rintro ⟨n, hcomputes, hover⟩
            cases hcomputes with
            | product hm hn => exact hover (hrange _ _ hm.meaning_eq hn.meaning_eq)
          · rcases List.mem_append.1 hrest with hmem | hmem
            · exact ha.inRange visit hmem
            · exact hb.inRange visit hmem
      · rintro halt ⟨rfl, m, n, hm, hn, hover⟩
        exact ⟨_, List.mem_cons_self, _,
          .product (hm ▸ hdenotesLeft) (hn ▸ hdenotesRight), hover⟩

theorem evaluates_total {values : List Expression}
    (hparts : ChecksParts store.spec.definition formulas.definitions formulas.limits room
      table kind (.total values))
    (ih : ∀ {table expression kind}, Checks store.spec.definition formulas.definitions formulas.limits
      room table expression kind → Evaluates formulas store fuel room table expression kind) :
    Evaluates formulas store fuel (room + 1) table (.total values) kind := by
  rintro row visits budget hrow rfl hvisits hbudget
  rw [CheckedFormulas.evaluateExpression]
  refine yields_step hvisits.one_le_length hbudget fun hwithin => ?_
  cases hvisits with
  | total visits hvalues =>
      have hmeaning : ∀ value ∈ values, Denotes formulas.definitions store row value
          (meaning formulas.definitions store row value) :=
        fun value hvalue => (hparts.2 value hvalue).denotes hrow rfl
      refine (yields_addValues ⟨row, .total values⟩ hparts.1 rfl
        (fun part hpart => .total _ hmeaning hpart) (fun value hvalue budget hbudget =>
          ih (hparts.2 value hvalue) row _ budget hrow rfl (hvalues value hvalue) hbudget)
        hwithin).mono ?_ fun _ => id
      rintro result ⟨hkind, sum, hsum, hadds, hused, hresult⟩
      refine ⟨⟨hkind, ?_⟩, hused, hresult, fun visit hvisit => ?_⟩
      · rw [hsum, Option.map_some, hadds.sum]
        exact (Denotes.meaning_eq (.total _ hmeaning)).symm
      · rcases List.mem_cons.1 hvisit with rfl | hrest
        · rintro ⟨n, hcomputes, hover⟩
          cases hcomputes with
          | total number hnumber hpre =>
              refine hover ?_
              rw [List.map_congr_left fun value hvalue => by
                rw [← (hnumber value (hpre.subset hvalue)).meaning_eq]]
              exact hadds.partials _ hpre
        · exact hadds.inRange visit hrest

theorem evaluates_named {name : String}
    (hparts : ChecksParts store.spec.definition formulas.definitions formulas.limits room
      table kind (.named name))
    (ih : ∀ {table expression kind}, Checks store.spec.definition formulas.definitions formulas.limits
      room table expression kind → Evaluates formulas store fuel room table expression kind) :
    Evaluates formulas store fuel (room + 1) table (.named name) kind := by
  rintro row visits budget hrow rfl hvisits hbudget
  rw [CheckedFormulas.evaluateExpression]
  refine yields_step hvisits.one_le_length hbudget fun hwithin => ?_
  obtain ⟨expression, hname, hexpression⟩ := hparts
  cases hvisits with
  | @named _ _ _ visits hname' hvisits =>
      obtain rfl := Option.some.inj (hname.symm.trans hname')
      simp only [hname, okOr, ok_bind]
      have hafter : ∀ visits, Budget.after store ⟨budget.nodes + 1, budget.records⟩ visits =
          budget.after store (⟨row, .named name⟩ :: visits) := by
        intro visits
        simp only [Budget.after, recordsRead_cons, List.length_cons, Visit.records,
          Budget.mk.injEq]
        omega
      refine (ih hexpression row _ _ hrow rfl hvisits hwithin).mono
        (fun result hresult => ⟨⟨hresult.means.1, hresult.means.2.trans ?_⟩,
          hresult.used.trans (hafter _), hresult.within, fun visit hvisit => ?_⟩)
        fun halt hstop => hstop.mono (fun visit hvisit => List.mem_cons_of_mem _ hvisit)
          (hafter _ ▸ le_rfl) (hafter _ ▸ le_rfl)
      · exact (Denotes.meaning_eq (.named hname (hexpression.denotes hrow rfl))).symm
      · rcases List.mem_cons.1 hvisit with rfl | hrest
        · rintro ⟨n, hcomputes, -⟩
          cases hcomputes
        · exact hresult.inRange visit hrest

end Constructors

/-- A checked expression evaluates to a value of its kind with its meaning and uses its whole
course, or it stops at an overflow of the course or at a budget that the course exceeds. -/
theorem evaluates_of_checks {fuel room : Nat} {table : TableId} {expression : Expression}
    (h : Checks store.spec.definition formulas.definitions formulas.limits room table expression kind)
    (hroom : room ≤ formulas.limits.maxDepth) (hfuel : room ≤ fuel) :
    Evaluates formulas store fuel room table expression kind := by
  induction room generalizing table expression kind with
  | zero => exact absurd h not_checks_zero
  | succ room ih =>
      have hroom' : room ≤ formulas.limits.maxDepth := by omega
      have hfuel' : room ≤ fuel := by omega
      have hpart {table : TableId} {expression : Expression} {kind : NumericKind}
          (h : Checks store.spec.definition formulas.definitions formulas.limits room table
            expression kind) : Evaluates formulas store fuel room table expression kind :=
        ih h hroom' hfuel'
      cases expression with
      | field field => exact evaluates_field h.parts
      | lookup refField targetField => exact evaluates_lookup h.parts
      | sum childTable refField value => exact evaluates_sum h.parts hroom' hfuel' hpart
      | product left right => exact evaluates_product h.parts hpart
      | total values => exact evaluates_total h.parts hpart
      | named name => exact evaluates_named h.parts hpart

end Evaluation

/-- The evaluation of a compiled formula for a record of a store: it returns the value of the
formula over the exact integers when the course of the evaluation is within the limits and
nothing in it overflows. -/
theorem yields_evaluate {spec : CheckedAppSpec} {list : List FormulaDefinition}
    {limits : FormulaLimits} {formulas : CheckedFormulas}
    (hcompile : CheckedFormulas.compile spec.definition list limits = .ok formulas)
    {store : RelationStore}
    (hshape : SemanticShape.of store.spec.definition = SemanticShape.of spec.definition)
    {table : TableId} {name : String} {expression : Expression}
    (hname : formulas.definitions.get? (toLex (table, name)) = some expression)
    {record : RecordId} {row : RawRecord} (hrow : store.records.find table record = some row)
    {fuel : Nat} (hfuel : limits.maxDepth ≤ fuel) :
    ∃ kind visits, formulas.kinds.get? (toLex (table, name)) = some kind ∧
      HasKind store.spec.definition formulas.definitions table expression kind ∧
      Denotes formulas.definitions store row expression
        (meaning formulas.definitions store row expression) ∧
      Visits formulas.definitions store row expression visits ∧
      Yields (fun value => Means formulas store row expression kind value ∧
          (Budget.after store ⟨0, 1⟩ visits).Within limits ∧
          ∀ visit ∈ visits, ¬ visit.Overflows formulas.definitions store)
        (Stops formulas store visits ⟨0, 1⟩)
        (formulas.evaluate store localPreviewPolicy fuel table record name) := by
  obtain ⟨rfl, hformulas, hall⟩ := of_compile hcompile
  obtain ⟨kind, hkind, hchecks⟩ := hall _ _ hname
  have hstore : Checks store.spec.definition formulas.definitions formulas.limits
      formulas.limits.maxDepth table expression kind :=
    hchecks.of_types (hasType_of_shape (wellFormed spec) (wellFormed store.spec) hshape.symm)
  obtain ⟨hmem, htable, hid⟩ := RelationStore.find_eq_some_iff.1 hrow
  obtain ⟨visits, hvisits⟩ := hstore.exists_visits htable
  refine ⟨kind, visits, hkind, hstore.hasKind, hstore.denotes hmem htable, hvisits, ?_⟩
  rw [CheckedFormulas.evaluate, authorizeSnapshot_preview, ok_bind, hname, okOr, ok_bind,
    authorizedRecord_preview hmem htable hid, ok_bind,
    rejectIf_bind_of_not (by rw [hformulas, hshape]; exact fun h => h rfl),
    hstore.authorizeExpression_ok hfuel, ok_bind]
  refine (yields_record (Nat.le_add_right 1 _)).bind fun budget hread => ?_
  obtain ⟨rfl, hrecords⟩ := hread
  refine (evaluates_of_checks hstore le_rfl hfuel row _ _ hmem htable hvisits
    ⟨Nat.zero_le _, hrecords⟩).bind fun result hresult => ?_
  rw [rejectIf_bind_of_not (by rw [hkind, hresult.means.1]; exact fun h => h rfl)]
  exact ⟨hresult.means, hresult.used ▸ hresult.within, hresult.inRange⟩

/-- How the evaluation of a compiled formula can end. -/
inductive Outcome (formulas : CheckedFormulas) (store : RelationStore) (row : RawRecord)
    (expression : Expression) (kind : NumericKind) (visits : List Visit) :
    Exec RelationError Numeric → Prop
  | value (value : Numeric) (hmeans : Means formulas store row expression kind value)
      (hnodes : visits.length ≤ formulas.limits.maxNodes)
      (hrecords : 1 + recordsRead store visits ≤ formulas.limits.maxRecords)
      (hrange : ∀ visit ∈ visits, ¬ visit.Overflows formulas.definitions store) :
      Outcome formulas store row expression kind visits (.ok value)
  | overflow (visit : Visit) (hvisit : visit ∈ visits)
      (hover : visit.Overflows formulas.definitions store) :
      Outcome formulas store row expression kind visits (.error (.fail .overflow))
  | nodes (hover : formulas.limits.maxNodes < visits.length) :
      Outcome formulas store row expression kind visits (.error (.fail .nodeBudgetExceeded))
  | records (hover : formulas.limits.maxRecords < 1 + recordsRead store visits) :
      Outcome formulas store row expression kind visits (.error (.fail .recordBudgetExceeded))

/-- From the depth of the limits on, whatever bounds the recursion, the evaluation of a compiled
formula has one outcome. -/
theorem exists_outcome {spec : CheckedAppSpec} {list : List FormulaDefinition}
    {limits : FormulaLimits} {formulas : CheckedFormulas}
    (hcompile : CheckedFormulas.compile spec.definition list limits = .ok formulas)
    {store : RelationStore}
    (hshape : SemanticShape.of store.spec.definition = SemanticShape.of spec.definition)
    {table : TableId} {name : String} {expression : Expression}
    (hname : formulas.definitions.get? (toLex (table, name)) = some expression)
    {record : RecordId} {row : RawRecord} (hrow : store.records.find table record = some row) :
    ∃ kind visits outcome, formulas.kinds.get? (toLex (table, name)) = some kind ∧
      HasKind store.spec.definition formulas.definitions table expression kind ∧
      Denotes formulas.definitions store row expression
        (meaning formulas.definitions store row expression) ∧
      Visits formulas.definitions store row expression visits ∧
      (∀ fuel ≥ limits.maxDepth,
        formulas.evaluate store localPreviewPolicy fuel table record name = outcome) ∧
      Outcome formulas store row expression kind visits outcome := by
  obtain ⟨kind, visits, hkind, hhas, hdenotes, hvisits, hyields⟩ :=
    yields_evaluate hcompile hshape hname hrow le_rfl
  obtain rfl := (of_compile hcompile).1
  refine ⟨kind, visits, _, hkind, hhas, hdenotes, hvisits, fun fuel hfuel =>
    ((approximates_evaluate hfuel table record name).eq_of_ne fun hdiverge => ?_).symm, ?_⟩
  · rw [hdiverge, yields_error] at hyields
    exact hyields
  cases houtcome : formulas.evaluate store localPreviewPolicy formulas.limits.maxDepth table record
      name with
  | ok value =>
      rw [houtcome] at hyields
      obtain ⟨hmeans, hwithin, hrange⟩ := hyields
      exact .value value hmeans ((Nat.le_add_left _ _).trans hwithin.nodes) hwithin.records hrange
  | error halt =>
      rw [houtcome, yields_error] at hyields
      unfold Stops at hyields
      split at hyields
      · obtain ⟨visit, hvisit, hover⟩ := hyields
        exact .overflow visit hvisit hover
      · exact .nodes (by simpa [Budget.after] using hyields)
      · exact .records hyields
      · exact hyields.elim

namespace CheckedFormulas

/-- A compiled formula has one outcome from the depth of the limits on, whatever bounds the
recursion: a number of its kind, or a stop at an overflow or at a budget. -/
theorem evaluate_sound (spec : CheckedAppSpec) (list : List FormulaDefinition)
    (limits : FormulaLimits) (formulas : CheckedFormulas)
    (hcompile : compile spec.definition list limits = .ok formulas) (store : RelationStore)
    (hshape : SemanticShape.of store.spec.definition = SemanticShape.of spec.definition)
    (table : TableId) (name : String) (expression : Expression)
    (hname : formulas.definitions.get? (toLex (table, name)) = some expression)
    (record : RecordId) (row : RawRecord) (hrow : store.records.find table record = some row) :
    ∃ kind outcome, formulas.kinds.get? (toLex (table, name)) = some kind ∧
      (∀ fuel ≥ limits.maxDepth,
        formulas.evaluate store localPreviewPolicy fuel table record name = outcome) ∧
      ((∃ value, outcome = .ok value ∧ value.kind = kind) ∨
        outcome = .error (.fail .overflow) ∨ outcome = .error (.fail .nodeBudgetExceeded) ∨
        outcome = .error (.fail .recordBudgetExceeded)) := by
  obtain ⟨kind, visits, outcome, hkind, -, -, -, houtcome, hends⟩ :=
    exists_outcome hcompile hshape hname hrow
  refine ⟨kind, outcome, hkind, houtcome, ?_⟩
  cases hends with
  | value value hmeans => exact .inl ⟨value, rfl, hmeans.1⟩
  | overflow => exact .inr (.inl rfl)
  | nodes => exact .inr (.inr (.inl rfl))
  | records => exact .inr (.inr (.inr rfl))

def shopFormulas : List FormulaDefinition :=
  [⟨tblL, "amount",
      .product (.field fldLq) (.field fldLx)⟩,
    ⟨tblO, "total",
      .sum tblL fldLo (.named "amount")⟩]

/-- An order of the shop with a line of one piece at price five. -/
def orderedShop : RelationStore where
  spec := shopSpec
  records := ⟨shopScope, [shopLine recL recO recP
      (.money shopPrice), draftOrder recO "a",
    shopProduct recP shopPrice]⟩
  valid := ⟨[shopLine recL recO recP
      (.money shopPrice), draftOrder recO "a",
    shopProduct recP shopPrice], by decide +kernel⟩

theorem evaluate_sound_shop :
    ∃ formulas, compile shopDefinition shopFormulas .default = .ok formulas ∧
      ∃ kind outcome,
        formulas.kinds.get? (toLex (⟨"tbl_o", by decide⟩, "total")) = some kind ∧
        (∀ fuel ≥ 24, formulas.evaluate orderedShop localPreviewPolicy fuel ⟨"tbl_o", by decide⟩
          ⟨"rec_o", by decide⟩ "total" = outcome) ∧
        ((∃ value, outcome = .ok value ∧ value.kind = kind) ∨
          outcome = .error (.fail .overflow) ∨ outcome = .error (.fail .nodeBudgetExceeded) ∨
          outcome = .error (.fail .recordBudgetExceeded)) := by
  obtain ⟨formulas, hcompile⟩ := exists_eq_ok (x := compile shopDefinition shopFormulas .default)
    (by decide +kernel)
  exact ⟨formulas, hcompile, evaluate_sound shopSpec shopFormulas .default formulas hcompile
    orderedShop rfl _ _ _ (get?_of_compile hcompile (List.mem_cons_of_mem _ List.mem_cons_self))
    ⟨"rec_o", by decide⟩ (draftOrder ⟨"rec_o", by decide⟩ "a") (by decide +kernel)⟩

/-- What the evaluation of a compiled formula returns is the value of the formula over the
exact integers, of the kind of the formula. -/
theorem evaluate_denotes (spec : CheckedAppSpec) (list : List FormulaDefinition)
    (limits : FormulaLimits) (formulas : CheckedFormulas)
    (hcompile : compile spec.definition list limits = .ok formulas) (store : RelationStore)
    (table : TableId) (record : RecordId) (name : String) (row : RawRecord)
    (hrow : store.records.find table record = some row) (fuel : Nat) (value : Numeric)
    (heval : formulas.evaluate store localPreviewPolicy fuel table record name = .ok value) :
    ∃ expression, formulas.definitions.get? (toLex (table, name)) = some expression ∧
      HasKind store.spec.definition formulas.definitions table expression value.kind ∧
      ∀ number, Denotes formulas.definitions store row expression number ↔
        number = value.value.map (·.val) := by
  have hfuel : formulas.evaluate store localPreviewPolicy (max fuel limits.maxDepth) table record
      name = .ok value := by
    rw [← heval]
    exact ((approximates_evaluate (le_max_left _ _) table record name).eq_of_ne
      (by rw [heval]; exact fun h => by cases h)).symm
  obtain ⟨expression, hname, hshape⟩ : ∃ expression,
      formulas.definitions.get? (toLex (table, name)) = some expression ∧
        formulas.shape = SemanticShape.of store.spec.definition := by
    simp only [evaluate, bind_eq_ok, okOr_eq_ok, rejectIf_eq_ok, not_not] at heval
    obtain ⟨-, -, expression, hname, -, -, -, hshape, -⟩ := heval
    exact ⟨expression, hname, hshape⟩
  have hsame := hshape.symm.trans (of_compile hcompile).2.1
  obtain ⟨kind, _, -, hkind, hdenotes, -, hyields⟩ :=
    yields_evaluate hcompile hsame hname hrow (le_max_right fuel _)
  obtain ⟨rfl, hvalue⟩ := (hyields.of_ok hfuel).1
  refine ⟨expression, hname, hkind, fun number => ⟨fun h => ?_, ?_⟩⟩
  · rw [hvalue, h.meaning_eq]
  · rintro rfl
    rwa [hvalue]

theorem evaluate_denotes_shop :
    ∃ formulas expression, compile shopDefinition shopFormulas .default = .ok formulas ∧
      formulas.definitions.get? (toLex (⟨"tbl_o", by decide⟩, "total")) = some expression ∧
      ∀ number, Denotes formulas.definitions orderedShop (draftOrder ⟨"rec_o", by decide⟩ "a")
        expression number ↔ number = some 5 := by
  have hrun : (compile shopDefinition shopFormulas .default >>= fun formulas =>
      formulas.evaluate orderedShop localPreviewPolicy 24 ⟨"tbl_o", by decide⟩
        ⟨"rec_o", by decide⟩ "total") = .ok (.money ⟨5, by decide, by decide⟩) := by
    decide +kernel
  obtain ⟨formulas, hcompile, heval⟩ := bind_eq_ok.1 hrun
  obtain ⟨expression, hname, -, hdenotes⟩ := evaluate_denotes shopSpec shopFormulas .default formulas
    hcompile orderedShop _ _ _ (draftOrder ⟨"rec_o", by decide⟩ "a") (by decide +kernel) 24 _ heval
  exact ⟨formulas, expression, hcompile, hname, hdenotes⟩

end CheckedFormulas

end Evobase
