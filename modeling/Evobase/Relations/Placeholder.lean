import Evobase.Foundation.JsonSize
import Evobase.Relations.Invariant

/-!
# The verdict on a batch

`IsFinal` is what a well-shaped batch is meant to leave: the changes applied, and every
inserted line with the prices that its products have in the result. The code first
validates the result with a temporary price of zero in the inserted lines. That detour is
smaller than the intended result in every bound, so it decides the verdict only through a
constraint of a captured field that rejects zero.

The verdict of the code is the intended one exactly when no captured field of an inserted line
refuses the temporary price (`AdmitsPlaceholder`) or the intended result is not valid anyway
(`meetsIntent_iff`). What an accepted batch leaves is always the intended result.
-/

namespace Evobase

open Foundation

/-- The inserted row as a line of the given rows: it has the prices of its products. -/
structure Captures (spec : RawAppSpec) (scope : Scope) (rows : Rows) (row line : RawRecord) :
    Prop where
  scope_eq : line.scope = row.scope
  key : line.key = row.key
  free : ∀ field, (∀ rule ∈ spec.rulesOf row.tableId, rule.capturedPriceField ≠ field) →
    line.values.get? field = row.values.get? field
  price : ∀ rule ∈ spec.rulesOf row.tableId, ∃ price,
    priceIn spec scope rows line rule = some price ∧
      line.values.get? rule.capturedPriceField = some (.money price)

/-- The rows that a batch is meant to leave. -/
structure IsFinal (store : RelationStore) (changes : List BatchChange) (final : Rows) : Prop where
  kept : ∀ key ∉ insertedKeys changes,
    final.get? key = (store.appliedRows changes).get? key
  inserted : ∀ row, .insert row ∈ changes → ∃ line, final.get? row.key = some line ∧
    Captures store.spec.definition store.records.scope final row line

def IntendedValid (store : RelationStore) (changes : List BatchChange) : Prop :=
  ∃ final, IsFinal store changes final ∧ ∃ checked,
    validateRecords store.spec.definition store.records.scope final.values = .ok checked

/-- The batch is accepted exactly when its intended result is valid, and then the records are
the intended ones in normal form. -/
def MeetsIntent (store : RelationStore) (changes : List BatchChange) : Prop :=
  ((store.applyBatch changes).1 = .ok () ↔ IntendedValid store changes) ∧
  ((store.applyBatch changes).1 = .ok () → ∃ final, IsFinal store changes final ∧
    (store.applyBatch changes).2.records =
      ⟨store.records.scope, normalized store.spec.definition final.values⟩)

/-- The constraints of the captured fields of the inserted lines accept zero. -/
def AdmitsPlaceholder (store : RelationStore) (changes : List BatchChange) : Prop :=
  ∀ row, .insert row ∈ changes → ∀ rule ∈ store.spec.definition.rulesOf row.tableId,
    ∀ constraint ∈ store.spec.definition.constraints, constraint.tableId = row.tableId →
      constraint.fieldId = rule.capturedPriceField →
        constraint.constraint.accepts (.money temporaryPrice) = true

def Value.Below (v w : Value) : Prop :=
  v = w ∨ (∃ price, w = .money price) ∧ (v.isEmpty = true ∨ v = .money temporaryPrice)

/-- The row is the other one with fewer prices. -/
structure RawRecord.Below (row other : RawRecord) : Prop where
  scope_eq : row.scope = other.scope
  key : row.key = other.key
  values : ∀ field value, row.values.get? field = some value →
    ∃ value', other.values.get? field = some value' ∧ value.Below value'
  absent : ∀ field, row.values.get? field = none →
    other.values.get? field = none ∨ ∃ price, other.values.get? field = some (.money price)

theorem length_print_money (n : I64) :
    (Value.money n).toJson.print.length = 25 + (Json.printInt n.val).length := by
  have htype : (Json.printString "type").length = 6 := by decide
  have hvalue : (Json.printString "value").length = 7 := by decide
  have hmoney : (Json.printString "money").length = 7 := by decide
  rw [Value.toJson, Json.ofFields, Json.length_print_obj]
  simp [Json.present, Value.content, Value.tag, Json.print, Json.ofI64, htype, hvalue, hmoney]
  omega

/-- An absent price and a price of zero are no larger than a price. -/
theorem Value.Below.smaller {v w : Value} (h : v.Below w) : v.toJson.Smaller w.toJson := by
  rcases h with rfl | ⟨⟨price, rfl⟩, hv⟩
  · rfl
  have hdigits : 1 ≤ (Json.printInt price.val).length := by
    have hwide : -9223372036854775808 ≤ price.val ∧ price.val ≤ 18446744073709551615 :=
      ⟨price.lower, price.upper.trans (by decide)⟩
    exact List.length_pos_iff.2 (printInt_atom ⟨price.val, hwide.1, hwide.2⟩).1
  have hbytes : v.toJson.print.length ≤ 26 := by
    rcases hv with hv | rfl
    · rcases isEmpty_eq_true_iff.1 hv with rfl | rfl <;> decide
    · decide
  have hmeasures : v.toJson.depth ≤ 1 ∧ v.toJson.nodes ≤ 5 := by
    rcases hv with hv | rfl
    · rcases isEmpty_eq_true_iff.1 hv with rfl | rfl <;> decide
    · decide
  refine ⟨?_, hmeasures.1, hmeasures.2⟩
  rw [length_print_money]
  omega

theorem RawRecord.smaller_of_values {row other : RawRecord} (hscope : row.scope = other.scope)
    (hkey : row.key = other.key)
    (h : ∀ field value, row.values.get? field = some value →
      ∃ value', other.values.get? field = some value' ∧ value.toJson.Smaller value'.toJson) :
    row.toJson.Smaller other.toJson := by
  obtain ⟨htable, hid⟩ := key_eq_key_iff.1 hkey
  have hvalues : (valuesToJson row.values).Smaller (valuesToJson other.values) :=
    Json.smaller_ofMap h
  refine Json.smaller_obj_map (k := Prod.fst) (g := fun m => m)
    (l := [("scope", row.scope.toJson), ("id", row.id.toJson), ("table_id", row.tableId.toJson),
      ("values", valuesToJson row.values)])
    (m := [("scope", other.scope.toJson), ("id", other.id.toJson),
      ("table_id", other.tableId.toJson), ("values", valuesToJson other.values)]) (by simp) ?_
  rw [hscope, htable, hid]
  simp [Json.Smaller.refl, hvalues]

theorem RawRecord.Below.smaller {row other : RawRecord} (h : row.Below other) :
    row.toJson.Smaller other.toJson :=
  RawRecord.smaller_of_values h.scope_eq h.key fun field value hvalue =>
    (h.values field value hvalue).imp fun _ hother => ⟨hother.1, hother.2.smaller⟩

theorem RawRecord.Below.value {row other : RawRecord} (h : row.Below other) (field : FieldId) :
    (row.value field).Below (other.value field) := by
  unfold RawRecord.value
  cases hvalue : row.values.get? field with
  | some value =>
      obtain ⟨value', hother, hbelow⟩ := h.values field value hvalue
      rw [hother]
      exact hbelow
  | none =>
      rcases h.absent field hvalue with hother | ⟨price, hother⟩
      · rw [hother]
        exact .inl rfl
      · rw [hother]
        exact .inr ⟨⟨price, rfl⟩, .inl rfl⟩

/-- Normal forms compare as the rows do. -/
theorem RawRecord.Below.normalize {spec : RawAppSpec} (hspec : WellFormed spec)
    {row other : RawRecord} (h : row.Below other) :
    (row.normalize spec).Below (other.normalize spec) := by
  have htable := (key_eq_key_iff.1 h.key).1
  refine ⟨h.scope_eq, h.key, fun field value hvalue => ?_, fun field hnone => .inl ?_⟩
  · rw [get?_normalize hspec] at hvalue ⊢
    rw [← htable]
    split_ifs at hvalue ⊢ with hdeclared
    obtain rfl := Option.some.inj hvalue
    exact ⟨_, rfl, h.value field⟩
  · rw [get?_normalize hspec] at hnone ⊢
    rw [← htable]
    split_ifs at hnone ⊢ with hdeclared
    rfl

theorem smaller_recordsToJson {rows others : List RawRecord}
    (hkeys : (rows.map RawRecord.key).Nodup)
    (h : ∀ row ∈ rows, ∃ other ∈ others, row.Below other) :
    (recordsToJson rows).Smaller (recordsToJson others) :=
  Json.smaller_ofList hkeys fun row hrow =>
    (h row hrow).imp fun _ hother => ⟨hother.1, hother.2.key.symm, hother.2.smaller⟩

theorem Fits.of_smaller {j k : Json} (h : j.Smaller k) (hfits : Fits k) : Fits j :=
  ⟨h.bytes.trans hfits.bytes, h.depth.trans hfits.depth, h.nodes.trans hfits.nodes⟩

theorem captured_or_free (rules : List CaptureRule) (field : FieldId) :
    (∃ rule ∈ rules, rule.capturedPriceField = field) ∨
      ∀ rule ∈ rules, rule.capturedPriceField ≠ field := by
  by_cases h : ∃ rule ∈ rules, rule.capturedPriceField = field
  · exact .inl h
  · exact .inr (by simpa using h)

/-- A row that differs from another one only in that its captured fields are empty or hold the
temporary price. -/
theorem below_of_captured (rules : List CaptureRule) {row other : RawRecord}
    (hscope : row.scope = other.scope) (hkey : row.key = other.key)
    (hfree : ∀ field, (∀ rule ∈ rules, rule.capturedPriceField ≠ field) →
      row.values.get? field = other.values.get? field)
    (hprice : ∀ rule ∈ rules, ∃ price,
      other.values.get? rule.capturedPriceField = some (.money price))
    (hstand : ∀ rule ∈ rules, ∀ value, row.values.get? rule.capturedPriceField = some value →
      value.isEmpty = true ∨ value = .money temporaryPrice) : row.Below other := by
  refine ⟨hscope, hkey, fun field value hvalue => ?_, fun field hnone => ?_⟩
  · rcases captured_or_free rules field with ⟨rule, hrule, rfl⟩ | hall
    · obtain ⟨price, hother⟩ := hprice rule hrule
      exact ⟨_, hother, .inr ⟨⟨price, rfl⟩, hstand rule hrule value hvalue⟩⟩
    · exact ⟨value, by rw [← hfree field hall, hvalue], .inl rfl⟩
  · rcases captured_or_free rules field with ⟨rule, hrule, rfl⟩ | hall
    · exact .inr (hprice rule hrule)
    · exact .inl (by rw [← hfree field hall, hnone])

section Placeholder

variable {spec : RawAppSpec} {scope : Scope} {records : List RawRecord} {row : RawRecord}
  {price : CaptureRule → I64}

theorem captured_money (hspec : WellFormed spec) {table : TableId} {rule : CaptureRule}
    (hrule : rule ∈ spec.rulesOf table) :
    ∃ field, spec.field table rule.capturedPriceField = some field ∧ field.fieldType = .money := by
  obtain ⟨hmem, rfl⟩ := mem_rulesOf.1 hrule
  obtain ⟨_, haccepted⟩ := hspec.captures rule hmem
  obtain ⟨field, hfield, htype⟩ := Option.map_eq_some_iff.1 haccepted.target
  exact ⟨field, hfield, htype⟩

theorem value_setPrices_of_free {rules : List CaptureRule} {field : FieldId}
    (h : ∀ rule ∈ rules, rule.capturedPriceField ≠ field) :
    (row.setPrices rules price).value field = row.value field := by
  rw [RawRecord.value, get?_setPrices_of_free h]
  rfl

theorem value_setPrices_of_mem (hspec : WellFormed spec) {table : TableId} {rule : CaptureRule}
    (hrule : rule ∈ spec.rulesOf table) :
    (row.setPrices (spec.rulesOf table) price).value rule.capturedPriceField =
      .money (price rule) := by
  rw [RawRecord.value, get?_setPrices_of_mem (nodup_captured hspec table) hrule,
    Option.getD_some]

/-- The temporary price can be refused by a constraint only. -/
theorem ValidRecord.of_setPrices (hspec : WellFormed spec)
    (h : ValidRecord spec scope records (row.setPrices (spec.rulesOf row.tableId) price))
    (hadmits : ∀ rule ∈ spec.rulesOf row.tableId, ∀ constraint ∈ spec.constraints,
      constraint.tableId = row.tableId → constraint.fieldId = rule.capturedPriceField →
        constraint.constraint.accepts (.money temporaryPrice) = true) :
    ValidRecord spec scope records (placeholder spec row) := by
  have hnodup := nodup_captured hspec row.tableId
  have hvalue : ∀ field, (∀ rule ∈ spec.rulesOf row.tableId, rule.capturedPriceField ≠ field) →
      (placeholder spec row).value field =
        (row.setPrices (spec.rulesOf row.tableId) price).value field := fun field hfree =>
    (value_setPrices_of_free hfree).trans (value_setPrices_of_free hfree).symm
  obtain ⟨table, htable, hvalues⟩ := h.table
  refine ⟨h.inScope, ⟨table, htable, fun field hfield => ?_⟩, fun field hfield => ?_, ?_, ?_⟩
  · rcases captured_or_free (spec.rulesOf row.tableId) field.id with ⟨rule, hrule, heq⟩ | hfree
    · obtain ⟨f, hf, htype⟩ := captured_money hspec hrule
      have hdeclared := (field_eq_some_iff hspec).2
        ⟨mem_fieldsOf_iff.2 ⟨table, htable, hfield⟩, heq.symm⟩
      obtain rfl : f = field := Option.some.inj (hf.symm.trans hdeclared)
      rw [← heq, placeholder, value_setPrices_of_mem hspec hrule]
      exact ⟨fun _ => rfl, fun _ => by rw [htype]; rfl, rfl, fun _ hr => by cases hr⟩
    · rw [hvalue _ hfree]
      exact hvalues field hfield
  · rcases captured_or_free (spec.rulesOf row.tableId) field with ⟨rule, hrule, rfl⟩ | hfree
    · obtain ⟨f, hf, -⟩ := captured_money hspec hrule
      exact ⟨f, hf⟩
    · refine h.declared field ?_
      rw [OrdMap.mem_keys_iff, get?_setPrices_of_free hfree]
      rwa [OrdMap.mem_keys_iff, placeholder, get?_setPrices_of_free hfree] at hfield
  · intro constraint hconstraint hconstraintTable
    rcases captured_or_free (spec.rulesOf row.tableId) constraint.fieldId with
      ⟨rule, hrule, heq⟩ | hfree
    · rw [← heq, placeholder, value_setPrices_of_mem hspec hrule]
      exact hadmits rule hrule constraint hconstraint hconstraintTable heq.symm
    · rw [hvalue _ hfree]
      exact h.constraints constraint hconstraint hconstraintTable
  · intro machine hmachine hmachineTable
    obtain ⟨state, hstate, htext⟩ := h.states machine hmachine hmachineTable
    rcases captured_or_free (spec.rulesOf row.tableId) machine.stateField with
      ⟨rule, hrule, heq⟩ | hfree
    · rw [← heq, value_setPrices_of_mem hspec hrule] at htext
      cases htext
    · exact ⟨state, hstate, (hvalue _ hfree).trans htext⟩

end Placeholder

namespace RelationStore

variable {store : RelationStore} {changes : List BatchChange} {records : CheckedRecords}

theorem get?_finalRows_of_not_mem {key : RecordKey} (h : key ∉ insertedKeys changes) :
    (store.finalRows changes).get? key = (store.appliedRows changes).get? key := by
  rw [finalRows, get?_updateAt]
  simp [h]

theorem get?_finalRows_insert (hkeys : (changes.map BatchChange.key).Nodup) {row : RawRecord}
    (hrow : .insert row ∈ changes) : (store.finalRows changes).get? row.key =
      some (capturedIn store.spec.definition store.records.scope (store.appliedRows changes) row) := by
  rw [finalRows, get?_updateAt, get?_appliedRows_insert hkeys hrow, Option.map_some,
    if_pos (mem_insertedKeys.2 ⟨row, hrow, rfl⟩)]

/-- A batch has one intended result, the computed one, when its products have prices. -/
theorem isFinal_iff (hkeys : (changes.map BatchChange.key).Nodup) {final : Rows} :
    IsFinal store changes final ↔ store.HasPrices changes ∧ final = store.finalRows changes := by
  have hspec := wellFormed store.spec
  constructor
  · intro h
    have hprice : ∀ row, .insert row ∈ changes → ∀ line,
        Captures store.spec.definition store.records.scope final row line →
        ∀ rule ∈ store.spec.definition.rulesOf row.tableId,
          priceIn store.spec.definition store.records.scope final line rule =
            priceIn store.spec.definition store.records.scope (store.appliedRows changes) row
              rule := by
      intro row hrow line hline rule hrule
      have htable := (key_eq_key_iff.1 hline.key).1
      have hline' : priceIn store.spec.definition store.records.scope final line rule =
          priceIn store.spec.definition store.records.scope final row rule := by
        rw [priceIn, hline.free _ fun r hr => productRef_ne_captured hspec hrule hr, htable]
        rfl
      rw [hline']
      refine priceIn_congr hspec hrule fun key hfree => ?_
      by_cases hkey : key ∈ insertedKeys changes
      · obtain ⟨source, hsource, rfl⟩ := mem_insertedKeys.1 hkey
        obtain ⟨captured, hcaptured, hlaw⟩ := h.inserted source hsource
        rw [hcaptured, get?_appliedRows_insert hkeys hsource, Option.bind_some, Option.bind_some]
        exact hlaw.free _ hfree
      · rw [h.kept key hkey]
    have hprices : store.HasPrices changes := by
      intro row hrow rule hrule
      obtain ⟨line, -, hline⟩ := h.inserted row hrow
      obtain ⟨price, hget, -⟩ := hline.price rule hrule
      exact ⟨price, by rw [← hprice row hrow line hline rule hrule, hget]⟩
    refine ⟨hprices, OrdMap.ext_get? fun key => ?_⟩
    by_cases hkey : key ∈ insertedKeys changes
    · obtain ⟨row, hrow, rfl⟩ := mem_insertedKeys.1 hkey
      obtain ⟨line, hget, hline⟩ := h.inserted row hrow
      obtain ⟨htable, hid⟩ := key_eq_key_iff.1 hline.key
      rw [hget, get?_finalRows_insert hkeys hrow]
      have hvalues : line.values = (capturedIn store.spec.definition store.records.scope
          (store.appliedRows changes) row).values := by
        refine OrdMap.ext_get? fun field => ?_
        rcases captured_or_free (store.spec.definition.rulesOf row.tableId) field with
          ⟨rule, hrule, rfl⟩ | hfree
        · obtain ⟨price, hread, hwritten⟩ := hline.price rule hrule
          rw [hprice row hrow line hline rule hrule] at hread
          rw [hwritten, capturedIn, get?_setPrices_of_mem (nodup_captured hspec _) hrule, hread,
            Option.getD_some]
        · rw [hline.free field hfree, capturedIn, get?_setPrices_of_free hfree]
      obtain ⟨scope, id, tableId, values⟩ := line
      obtain rfl : scope = row.scope := hline.scope_eq
      obtain rfl : id = row.id := hid
      obtain rfl : tableId = row.tableId := htable
      obtain rfl := hvalues
      rfl
    · rw [h.kept key hkey, get?_finalRows_of_not_mem hkey]
  · rintro ⟨hprices, rfl⟩
    refine ⟨fun key hkey => get?_finalRows_of_not_mem hkey, fun row hrow =>
      ⟨_, get?_finalRows_insert hkeys hrow, rfl, rfl, fun field hfree =>
        get?_setPrices_of_free hfree, fun rule hrule => ?_⟩⟩
    obtain ⟨price, hprice⟩ := hprices row hrow rule hrule
    refine ⟨price, ?_, ?_⟩
    · have hrule' : rule ∈ store.spec.definition.rulesOf (capturedIn store.spec.definition
          store.records.scope (store.appliedRows changes) row).tableId := hrule
      rw [finalRows, priceIn_capturedIn hspec (store.keyed_appliedRows changes) hrule', capturedIn,
        priceIn_setPrices hspec hrule fun _ hr => hr, hprice]
    · rw [capturedIn, get?_setPrices_of_mem (nodup_captured hspec _) hrule, hprice,
        Option.getD_some]

theorem below_graphRows {row : RawRecord} (h : row ∈ (store.graphRows changes).values) :
    ∃ other ∈ (store.finalRows changes).values, row.Below other := by
  have hspec := wellFormed store.spec
  rw [(store.keyed_graphRows changes).mem_values_iff, graphRows, get?_updateAt] at h
  obtain ⟨base, hbase, hrow⟩ := Option.map_eq_some_iff.1 h
  have hkey : base.key = row.key := store.keyed_appliedRows changes _ _ hbase
  have hget : (store.finalRows changes).get? row.key = some
      (if row.key ∈ insertedKeys changes then capturedIn store.spec.definition
        store.records.scope (store.appliedRows changes) base else base) := by
    rw [finalRows, get?_updateAt, hbase, Option.map_some]
  refine ⟨_, OrdMap.mem_values_iff.2 ⟨row.key, hget⟩, ?_⟩
  split_ifs at hrow ⊢
  · rw [← hrow]
    refine below_of_captured (store.spec.definition.rulesOf base.tableId) rfl rfl
      (fun field hfree => ?_) (fun rule hrule => ⟨_, get?_setPrices_of_mem
        (nodup_captured hspec _) hrule⟩) fun rule hrule value hvalue => .inr ?_
    · rw [placeholder, capturedIn, get?_setPrices_of_free hfree, get?_setPrices_of_free hfree]
    · rw [placeholder, get?_setPrices_of_mem (nodup_captured hspec _) hrule] at hvalue
      exact (Option.some.inj hvalue).symm
  · subst hrow
    exact ⟨rfl, rfl, fun field value hvalue => ⟨value, hvalue, .inl rfl⟩, fun field hnone =>
      .inl hnone⟩

theorem map_key_incoming (changes : List BatchChange) :
    (changes.filterMap BatchChange.row).map RawRecord.key =
      (changes.filter fun change => change.row.isSome).map BatchChange.key := by
  induction changes with
  | nil => rfl
  | cons change changes ih =>
      cases hrow : change.row with
      | none => simp [hrow, ih]
      | some row => simp [hrow, ih, BatchChange.key_of_row hrow]

/-- The incoming rows are no larger than the intended ones. -/
theorem below_incoming (hshaped : WellShaped store.spec.definition store.records.rows changes)
    {row : RawRecord} (h : row ∈ changes.filterMap BatchChange.row) :
    ∃ other ∈ (store.finalRows changes).values, row.Below other := by
  have hspec := wellFormed store.spec
  obtain ⟨change, hchange, hrow⟩ := List.mem_filterMap.1 h
  cases change with
  | insert new =>
      obtain rfl : new = row := Option.some.inj hrow
      refine ⟨_, OrdMap.mem_values_iff.2 ⟨_, get?_finalRows_insert hshaped.keys hchange⟩,
        below_of_captured (store.spec.definition.rulesOf new.tableId) rfl rfl
          (fun field hfree => (get?_setPrices_of_free hfree).symm) (fun rule hrule =>
            ⟨_, get?_setPrices_of_mem (nodup_captured hspec _) hrule⟩)
          fun rule hrule value hvalue => .inl ?_⟩
      exact (hshaped.each _ hchange).2 rule hrule value hvalue
  | replace new =>
      obtain rfl : new = row := Option.some.inj hrow
      have hfresh : new.key ∉ insertedKeys changes := by
        intro hmem
        obtain ⟨other, hother, hkey⟩ := mem_insertedKeys.1 hmem
        have hsame := List.inj_on_of_nodup_map hshaped.keys hother hchange hkey
        cases hsame
      have happlied : (store.appliedRows changes).get? new.key = some new :=
        get?_applied_of_mem hshaped.keys hchange
      refine ⟨new, OrdMap.mem_values_iff.2 ⟨new.key, ?_⟩, rfl, rfl, fun field value hvalue =>
        ⟨value, hvalue, .inl rfl⟩, fun field hnone => .inl hnone⟩
      rw [get?_finalRows_of_not_mem hfresh, happlied]
  | delete tableId recordId => cases hrow

theorem checkIncoming_of_valid
    (hshaped : WellShaped store.spec.definition store.records.rows changes)
    (hcount : changes.length ≤ maxBatch)
    (hvalid : ValidFacts store.spec.definition store.records.scope
      (store.finalRows changes).values) : checkIncoming changes = .ok () := by
  have hkeys : ((changes.filterMap BatchChange.row).map RawRecord.key).Nodup := by
    rw [map_key_incoming]
    exact hshaped.keys.sublist (List.filter_sublist.map _)
  simp only [checkIncoming, bind_eq_ok, rejectIf_eq_ok, Exec.ofExcept_eq_ok, each_eq_ok_iff,
    rejectAny_eq_ok, gt_iff_lt, not_lt, Bool.not_eq_true,
    boundedEncode_eq_ok_iff (exact_recordsToJson _)]
  refine ⟨(), hcount, _, ⟨Fits.of_smaller (smaller_recordsToJson hkeys fun row hrow =>
    below_incoming hshaped hrow) hvalid.fits, rfl⟩, fun row hrow value hvalue => ?_⟩
  obtain ⟨field, hget⟩ := OrdMap.mem_values_iff.1 hvalue
  obtain ⟨other, hother, hbelow⟩ := below_incoming hshaped hrow
  obtain ⟨value', hget', rfl | ⟨-, hempty | rfl⟩⟩ := hbelow.values field value hget
  · obtain ⟨f, -, hvalidValue⟩ := (hvalid.each other hother).validValue hget'
    exact hvalidValue.short
  · exact tooLong_of_isEmpty hempty
  · rfl

theorem keys_updateAt (rows : Rows) (keys : List RecordKey) (f : RawRecord → RawRecord) :
    (rows.updateAt keys f).keys = rows.keys := by
  simp [Rows.updateAt, OrdMap.mapEntries, OrdMap.keys, List.map_map, Function.comp_def]

theorem map_key_graphRows (store : RelationStore) (changes : List BatchChange) :
    (store.graphRows changes).values.map RawRecord.key =
    (store.finalRows changes).values.map RawRecord.key := by
  rw [(store.keyed_graphRows changes).map_key_values,
    (store.keyed_finalRows changes).map_key_values, graphRows, finalRows, keys_updateAt,
    keys_updateAt]

/-- No surviving row of a valid intended result refers to a deleted record. -/
theorem checkDeleted_of_valid
    (hshaped : WellShaped store.spec.definition store.records.rows changes)
    (hvalid : ValidFacts store.spec.definition store.records.scope
      (store.finalRows changes).values) {key : RecordKey} (hkey : key ∈ deletedKeys changes) :
    checkDeleted store.records.scope (store.appliedRows changes) key = .ok () := by
  have hgone : (store.appliedRows changes).get? key = none := by
    obtain ⟨change, hchange, rfl⟩ := List.mem_map.1 hkey
    obtain ⟨hmem, hdelete⟩ := List.mem_filter.1 hchange
    rw [appliedRows, get?_applied_of_mem hshaped.keys hmem]
    cases change <;> simp_all [BatchChange.isDelete, BatchChange.row]
  simp only [checkDeleted, each_eq_ok_iff, rejectAny_eq_ok]
  rintro row hrow ⟨field, value⟩ hentry rfl
  have hget := (store.keyed_appliedRows changes).mem_values_iff.1 hrow
  have hvalue : row.values.get? field = some (.ref ⟨store.records.scope, (ofLex key).1,
    (ofLex key).2⟩) := OrdMap.mem_entries_iff.1 hentry
  -- the surviving row still refers to the record in the intended result
  obtain ⟨other, hother, href⟩ : ∃ other ∈ (store.finalRows changes).values,
      other.values.get? field = row.values.get? field := by
    by_cases hmem : row.key ∈ insertedKeys changes
    · obtain ⟨new, hnew, heq⟩ := mem_insertedKeys.1 hmem
      rw [← heq, get?_appliedRows_insert hshaped.keys hnew] at hget
      obtain rfl := Option.some.inj hget
      refine ⟨_, OrdMap.mem_values_iff.2 ⟨_, get?_finalRows_insert hshaped.keys hnew⟩,
        get?_setPrices_of_free fun rule hrule heq => ?_⟩
      have hempty := (hshaped.each _ hnew).2 rule hrule _ (heq ▸ hvalue)
      cases hempty
    · exact ⟨row, OrdMap.mem_values_iff.2 ⟨row.key, by rw [get?_finalRows_of_not_mem hmem, hget]⟩,
        rfl⟩
  obtain ⟨_, -, hlive⟩ := (hvalid.each other hother).validValue (href.trans hvalue)
  obtain ⟨-, -, target, htarget, htable, hid⟩ := hlive.reference _ rfl
  have htargetKey : target.key = key := by
    rw [RawRecord.key, htable, hid]
    rfl
  have hlast := (store.keyed_finalRows changes).mem_values_iff.1 htarget
  rw [htargetKey, finalRows, get?_updateAt, hgone] at hlast
  cases hlast

/-- The first validation accepts what the last one accepts, when zero is allowed as a price. -/
theorem validFacts_graphRows (hshaped : WellShaped store.spec.definition store.records.rows changes)
    (hadmits : AdmitsPlaceholder store changes)
    (hvalid : ValidFacts store.spec.definition store.records.scope
      (store.finalRows changes).values) :
    ValidFacts store.spec.definition store.records.scope (store.graphRows changes).values where
  app := hvalid.app
  count := by
    have hlength := congrArg List.length (map_key_graphRows store changes)
    rw [List.length_map, List.length_map] at hlength
    rw [hlength]
    exact hvalid.count
  fits := Fits.of_smaller (smaller_recordsToJson (store.keyed_graphRows changes).nodup
    fun _ => below_graphRows) hvalid.fits
  keys := (store.keyed_graphRows changes).nodup
  each row hrow := by
    have hspec := wellFormed store.spec
    have hkeys : ∀ key, key ∈ (store.finalRows changes).values.map RawRecord.key →
        key ∈ (store.graphRows changes).values.map RawRecord.key := fun key hkey => by
      rwa [map_key_graphRows]
    refine ValidRecord.mono ?_ hkeys
    rw [(store.keyed_graphRows changes).mem_values_iff, graphRows, get?_updateAt] at hrow
    obtain ⟨base, hbase, hplaced⟩ := Option.map_eq_some_iff.1 hrow
    split_ifs at hplaced with hmem
    · obtain ⟨new, hnew, heq⟩ := mem_insertedKeys.1 hmem
      rw [← heq, get?_appliedRows_insert hshaped.keys hnew] at hbase
      obtain rfl := Option.some.inj hbase
      rw [← hplaced]
      exact (hvalid.each _ (OrdMap.mem_values_iff.2
        ⟨_, get?_finalRows_insert hshaped.keys hnew⟩)).of_setPrices hspec (hadmits _ hnew)
    · subst hplaced
      exact hvalid.each _ (OrdMap.mem_values_iff.2
        ⟨_, by rw [get?_finalRows_of_not_mem hmem, hbase]⟩)
  fits_normalized := by
    refine Fits.of_smaller (smaller_recordsToJson ?_ fun row hrow => ?_) hvalid.fits_normalized
    · rw [map_key_normalized]
      exact ((sortBy_perm _ _).map _).nodup_iff.2 (store.keyed_graphRows changes).nodup
    · obtain ⟨graph, hgraph, rfl⟩ := mem_normalized_iff.1 hrow
      obtain ⟨other, hother, hbelow⟩ := below_graphRows hgraph
      exact ⟨_, mem_normalized_iff.2 ⟨other, hother, rfl⟩,
        hbelow.normalize (wellFormed store.spec)⟩

theorem applyBatch_fst_eq_ok_iff :
    (store.applyBatch changes).1 = .ok () ↔ ∃ records, store.Accepts changes records := by
  rcases store.applyBatch_cases changes with ⟨next, heq, -, hfinal⟩ | ⟨halt, heq, hfinal⟩
  · rw [heq]
    exact iff_of_true rfl ⟨_, finalRecords_eq_ok_iff.1 hfinal⟩
  · rw [heq]
    refine iff_of_false (by simp) ?_
    rintro ⟨records, haccepts⟩
    rw [finalRecords_eq_ok_iff.2 haccepts] at hfinal
    cases hfinal

theorem Accepts.isFinal (h : store.Accepts changes records) :
    IsFinal store changes (store.finalRows changes) :=
  (isFinal_iff h.shaped.keys).2 ⟨h.prices, rfl⟩

theorem Accepts.admitsPlaceholder (h : store.Accepts changes records) :
    AdmitsPlaceholder store changes := by
  intro row hrow rule hrule constraint hconstraint htable hfield
  have hspec := wellFormed store.spec
  obtain ⟨checked, hgraph⟩ := h.graph
  have hvalid := ((validateRecords_eq_ok_iff hspec).1 hgraph).1
  have hget : (store.graphRows changes).get? row.key =
      some (placeholder store.spec.definition row) := by
    rw [graphRows, get?_updateAt, get?_appliedRows_insert h.shaped.keys hrow, Option.map_some,
      if_pos (mem_insertedKeys.2 ⟨row, hrow, rfl⟩)]
  have haccepted := (hvalid.each _ (OrdMap.mem_values_iff.2 ⟨_, hget⟩)).constraints constraint
    hconstraint htable
  rwa [hfield, placeholder, value_setPrices_of_mem hspec hrule] at haccepted

theorem accepts_of_intendedValid (hcount : changes.length ≤ maxBatch)
    (hshaped : WellShaped store.spec.definition store.records.rows changes)
    (hadmits : AdmitsPlaceholder store changes) (hintended : IntendedValid store changes) :
    ∃ records, store.Accepts changes records := by
  have hspec := wellFormed store.spec
  obtain ⟨final, hfinal, records, hchecked⟩ := hintended
  obtain ⟨hprices, rfl⟩ := (isFinal_iff hshaped.keys).1 hfinal
  have hvalid := ((validateRecords_eq_ok_iff hspec).1 hchecked).1
  exact ⟨records, checkIncoming_of_valid hshaped hcount hvalid, hshaped,
    fun key hkey => checkDeleted_of_valid hshaped hvalid hkey,
    ⟨_, (validateRecords_eq_ok_iff hspec).2 ⟨validFacts_graphRows hshaped hadmits hvalid, rfl⟩⟩,
    hprices, hchecked⟩

/-- A well-shaped batch is accepted exactly when its intended result is valid, unless the
result is valid and a captured field of an inserted line refuses the temporary price. -/
theorem meetsIntent_iff (store : RelationStore) (changes : List BatchChange)
    (hcount : changes.length ≤ maxBatch)
    (hshaped : WellShaped store.spec.definition store.records.rows changes) :
    MeetsIntent store changes ↔
      AdmitsPlaceholder store changes ∨ ¬ IntendedValid store changes := by
  have hspec := wellFormed store.spec
  have hsound : ∀ {records}, store.Accepts changes records → IntendedValid store changes :=
    fun h => ⟨_, h.isFinal, _, h.final⟩
  constructor
  · rintro ⟨hverdict, -⟩
    by_cases hintended : IntendedValid store changes
    · obtain ⟨records, haccepts⟩ := applyBatch_fst_eq_ok_iff.1 (hverdict.2 hintended)
      exact .inl haccepts.admitsPlaceholder
    · exact .inr hintended
  · intro hcondition
    refine ⟨⟨fun hok => ?_, fun hintended => ?_⟩, fun hok => ?_⟩
    · obtain ⟨records, haccepts⟩ := applyBatch_fst_eq_ok_iff.1 hok
      exact hsound haccepts
    · rcases hcondition with hadmits | hinvalid
      · exact applyBatch_fst_eq_ok_iff.2
          (accepts_of_intendedValid hcount hshaped hadmits hintended)
      · exact absurd hintended hinvalid
    · rcases store.applyBatch_cases changes with ⟨next, heq, -, hfinal⟩ | ⟨halt, heq, -⟩
      · have haccepts := finalRecords_eq_ok_iff.1 hfinal
        obtain ⟨-, hrecords⟩ := (validateRecords_eq_ok_iff hspec).1 haccepts.final
        rw [heq]
        exact ⟨_, haccepts.isFinal, hrecords⟩
      · rw [heq] at hok
        cases hok

def draftShop : RelationStore :=
  ⟨shopSpec, ⟨shopScope, [draftOrder recO "a",
    shopProduct recP shopPrice]⟩,
    [draftOrder recO "a",
      shopProduct recP shopPrice], by decide +kernel⟩

theorem meetsIntent_iff_draftShop :
    MeetsIntent draftShop [.insert (draftOrder ⟨"rec_q", by decide⟩ "b")] := by
  obtain ⟨candidate, hcandidate⟩ := exists_eq_ok (x := [BatchChange.insert (draftOrder
    ⟨"rec_q", by decide⟩ "b")].foldlM (Candidate.apply shopDefinition)
      ⟨draftShop.records.rows, [], [], []⟩) (by decide +kernel)
  refine (meetsIntent_iff draftShop _ (by decide) (foldlM_apply_eq_ok_iff.1 hcandidate).1).2
    (.inl fun row hrow rule hrule => ?_)
  obtain rfl : row = draftOrder ⟨"rec_q", by decide⟩ "b" := by simpa using hrow
  have hnone : shopDefinition.rulesOf (draftOrder ⟨"rec_q", by decide⟩ "b").tableId = [] := by
    decide +kernel
  rw [show draftShop.spec.definition = shopDefinition from rfl, hnone] at hrule
  cases hrule

def addLine : BatchChange :=
  .insert (shopLine recL recO recP .blank)

/-- The line is refused although its price is allowed: prices start at one, and the temporary
price is zero. -/
theorem not_meetsIntent : ¬ ∀ (store : RelationStore) (changes : List BatchChange),
    changes.length ≤ maxBatch →
    WellShaped store.spec.definition store.records.rows changes → MeetsIntent store changes := by
  intro hall
  obtain ⟨candidate, hcandidate⟩ := exists_eq_ok (x := [addLine].foldlM
    (Candidate.apply shopDefinition) ⟨draftShop.records.rows, [], [], []⟩) (by decide +kernel)
  have hshaped := (foldlM_apply_eq_ok_iff.1 hcandidate).1
  obtain ⟨rows, hrows⟩ := exists_eq_ok (x := updateRows
    (captureRow shopDefinition draftShop.records.scope) (insertedKeys [addLine])
    (draftShop.appliedRows [addLine])) (by decide +kernel)
  obtain ⟨hprices, -⟩ := (captureRows_eq_ok_iff hshaped.keys).1 hrows
  have hvalid := exists_eq_ok (x := validateRecords shopDefinition draftShop.records.scope
    (draftShop.finalRows [addLine]).values) (by decide +kernel)
  have hok := (hall draftShop [addLine] (by decide) hshaped).1.2
    ⟨_, (isFinal_iff hshaped.keys).2 ⟨hprices, rfl⟩, hvalid⟩
  obtain ⟨records, haccepts⟩ := applyBatch_fst_eq_ok_iff.1 hok
  have hrefused : (draftShop.finalRecords [addLine]).toBool = false := by decide +kernel
  rw [finalRecords_eq_ok_iff.2 haccepts] at hrefused
  cases hrefused

end RelationStore

end Evobase
