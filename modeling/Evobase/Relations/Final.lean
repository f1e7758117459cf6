import Evobase.Relations.Batch

/-!
# What a batch leaves

The passes over a candidate are read off the batch: the candidate has the rows of the
store with the changes applied, the first validation sees these rows with a temporary
price in the inserted lines, and the last one sees them with the prices of the products.

`appliedRows` are the rows with the changes applied, `graphRows` those of the first validation,
and `finalRows` those of the last.
-/

namespace Evobase

open Foundation

def Rows.Keyed (rows : Rows) : Prop := ∀ key row, rows.get? key = some row → row.key = key

theorem Rows.Keyed.map_key_values {rows : Rows} (h : rows.Keyed) :
    rows.values.map RawRecord.key = rows.keys := by
  rw [OrdMap.values, OrdMap.keys, List.map_map]
  exact List.map_congr_left fun entry hentry => h _ _ (OrdMap.mem_entries_iff.1 hentry)

theorem Rows.Keyed.nodup {rows : Rows} (h : rows.Keyed) :
    (rows.values.map RawRecord.key).Nodup := by
  rw [h.map_key_values]
  exact rows.keys_nodup

theorem Rows.Keyed.mem_values_iff {rows : Rows} (h : rows.Keyed) {row : RawRecord} :
    row ∈ rows.values ↔ rows.get? row.key = some row := by
  rw [OrdMap.mem_values_iff]
  constructor
  · rintro ⟨key, hrow⟩
    rwa [h key row hrow]
  · exact fun hrow => ⟨row.key, hrow⟩

section Facts

variable {facts : CheckedRecords}

theorem get?_rows (hkeys : (facts.records.map RawRecord.key).Nodup) {key : RecordKey}
    {row : RawRecord} : facts.rows.get? key = some row ↔ row ∈ facts.records ∧ row.key = key := by
  have hnodup : ((facts.records.map fun row => (row.key, row)).map (·.1)).Nodup := by
    simpa [List.map_map, Function.comp_def] using hkeys
  rw [CheckedRecords.rows, OrdMap.get?_ofList_eq_some_iff hnodup]
  simp only [List.mem_map, Prod.mk.injEq]
  constructor
  · rintro ⟨r, hr, rfl, rfl⟩
    exact ⟨hr, rfl⟩
  · rintro ⟨hrow, rfl⟩
    exact ⟨row, hrow, rfl, rfl⟩

theorem keyed_rows (hkeys : (facts.records.map RawRecord.key).Nodup) : facts.rows.Keyed :=
  fun _ _ h => ((get?_rows hkeys).1 h).2

end Facts

def Rows.updateAt (rows : Rows) (keys : List RecordKey) (update : RawRecord → RawRecord) : Rows :=
  rows.mapEntries fun key row => if key ∈ keys then update row else row

section UpdateAt

variable {rows : Rows} {keys : List RecordKey} {f : RawRecord → RawRecord}

theorem get?_updateAt (key : RecordKey) : (rows.updateAt keys f).get? key =
    (rows.get? key).map fun row => if key ∈ keys then f row else row :=
  OrdMap.get?_mapEntries _ _ _

@[simp] theorem updateAt_nil : rows.updateAt [] f = rows :=
  OrdMap.ext_get? fun key => by simp [get?_updateAt]

theorem Rows.Keyed.updateAt (h : rows.Keyed) (hf : ∀ row, (f row).key = row.key) :
    (rows.updateAt keys f).Keyed := by
  intro key row hrow
  rw [get?_updateAt] at hrow
  obtain ⟨r, hr, rfl⟩ := Option.map_eq_some_iff.1 hrow
  split_ifs
  · rw [hf, h _ _ hr]
  · exact h _ _ hr

/-- Updating keys one after another updates them at once, when the update of a row does not
depend on the rows already updated. -/
theorem updateRows_eq_ok_iff {update : Rows → RawRecord → Exec RelationError RawRecord}
    (Good : RawRecord → Prop) (hkeys : keys.Nodup)
    (hupdate : ∀ seen key row next, rows.get? key = some row →
      (update (rows.updateAt seen f) row = .ok next ↔ Good row ∧ next = f row)) {out : Rows} :
    updateRows update keys rows = .ok out ↔
      (∀ key ∈ keys, ∃ row, rows.get? key = some row ∧ Good row) ∧
        out = rows.updateAt keys f := by
  have hfold := foldlM_eq_ok_iff (fun seen => rows.updateAt seen f)
    (fun _ key => ∃ row, rows.get? key = some row ∧ Good row) (l := keys) (b := out)
    (f := fun rows key => do
      let row ← Exec.expect "inserted candidate" (rows.get? key)
      let next ← update rows row
      .ok (rows.insert key next)) ?_
  · rw [updateAt_nil] at hfold
    rw [updateRows, hfold]
    refine and_congr_left fun _ => ⟨fun h key hkey => ?_, fun h pre key post heq => ?_⟩
    · obtain ⟨pre, post, heq⟩ := List.append_of_mem hkey
      exact h pre key post heq
    · exact h key (by simp [heq])
  intro seen key post heq b
  have hfresh : key ∉ seen := by
    rw [heq, List.nodup_append] at hkeys
    exact fun hmem => hkeys.2.2 key hmem key (by simp) rfl
  have hread : (rows.updateAt seen f).get? key = rows.get? key := by
    rw [get?_updateAt]
    simp [hfresh]
  have hwrite : ∀ row, rows.get? key = some row →
      (rows.updateAt seen f).insert key (f row) = rows.updateAt (seen ++ [key]) f := by
    intro row hrow
    refine OrdMap.ext_get? fun k => ?_
    rw [OrdMap.get?_insert, get?_updateAt, get?_updateAt]
    by_cases hk : k = key
    · simp [hk, hrow]
    · simp [hk]
  simp only [bind_eq_ok, Exec.expect_eq_ok, hread, Except.ok.injEq]
  constructor
  · rintro ⟨row, hrow, next, hnext, rfl⟩
    obtain ⟨hgood, rfl⟩ := (hupdate seen key row next hrow).1 hnext
    exact ⟨⟨row, hrow, hgood⟩, hwrite row hrow⟩
  · rintro ⟨⟨row, hrow, hgood⟩, rfl⟩
    exact ⟨row, hrow, f row, (hupdate seen key row _ hrow).2 ⟨hgood, rfl⟩, hwrite row hrow⟩

end UpdateAt

/-- The rows after one change. -/
def BatchChange.applyTo (change : BatchChange) (rows : Rows) : Rows :=
  match change.row with
  | some row => rows.insert change.key row
  | none => rows.erase change.key

def applied (rows : Rows) (changes : List BatchChange) : Rows :=
  changes.foldl (fun rows change => change.applyTo rows) rows

/-- What a batch may do to a row of the store. -/
def Admissible (spec : RawAppSpec) (rows : Rows) : BatchChange → Prop
  | .insert row => rows.get? row.key = none ∧ ∀ rule ∈ spec.rulesOf row.tableId,
      ∀ value, row.values.get? rule.capturedPriceField = some value → value.isEmpty = true
  | .replace row => ∃ old, rows.get? row.key = some old ∧ ∀ rule ∈ spec.rulesOf row.tableId,
      row.values.get? rule.capturedPriceField = old.values.get? rule.capturedPriceField ∧
        row.values.get? rule.productRefField = old.values.get? rule.productRefField
  | .delete tableId recordId => ∃ old, rows.get? (toLex (tableId, recordId)) = some old

def insertedKeys (changes : List BatchChange) : List RecordKey :=
  (changes.filter BatchChange.isInsert).map BatchChange.key

def deletedKeys (changes : List BatchChange) : List RecordKey :=
  (changes.filter BatchChange.isDelete).map BatchChange.key

theorem BatchChange.key_of_row {change : BatchChange} {row : RawRecord}
    (h : change.row = some row) : change.key = row.key := by
  cases change <;> simp_all [BatchChange.row, BatchChange.key]

section Applied

variable {rows : Rows} {changes : List BatchChange}

theorem get?_applyTo (change : BatchChange) (rows : Rows) (key : RecordKey) :
    (change.applyTo rows).get? key = if key = change.key then change.row else rows.get? key := by
  unfold BatchChange.applyTo
  split
  · rename_i row hrow
    rw [OrdMap.get?_insert, hrow]
  · rename_i hrow
    rw [OrdMap.get?_erase, hrow]

@[simp] theorem applied_append (rows : Rows) (changes : List BatchChange) (change : BatchChange) :
    applied rows (changes ++ [change]) = change.applyTo (applied rows changes) := by
  simp [applied]

theorem get?_applied_of_not_mem {key : RecordKey} (h : key ∉ changes.map BatchChange.key) :
    (applied rows changes).get? key = rows.get? key := by
  induction changes using List.reverseRecOn with
  | nil => rfl
  | append_singleton changes change ih =>
      simp only [List.map_append, List.map_cons, List.map_nil, List.mem_append,
        List.mem_singleton, not_or] at h
      rw [applied_append, get?_applyTo, if_neg h.2, ih h.1]

theorem get?_applied_of_mem (hkeys : (changes.map BatchChange.key).Nodup) {change : BatchChange}
    (h : change ∈ changes) : (applied rows changes).get? change.key = change.row := by
  induction changes using List.reverseRecOn with
  | nil => simp at h
  | append_singleton changes last ih =>
      rw [List.map_append, List.nodup_append] at hkeys
      rw [applied_append, get?_applyTo]
      rcases List.mem_append.1 h with hmem | hlast
      · rw [if_neg, ih hkeys.1 hmem]
        exact hkeys.2.2 _ (List.mem_map_of_mem hmem) _ (by simp)
      · obtain rfl : change = last := by simpa using hlast
        rw [if_pos rfl]

theorem Rows.Keyed.applied (h : rows.Keyed) (changes : List BatchChange) :
    (applied rows changes).Keyed := by
  induction changes using List.reverseRecOn with
  | nil => exact h
  | append_singleton changes change ih =>
      intro key row hrow
      rw [applied_append, get?_applyTo] at hrow
      split_ifs at hrow with hkey
      · rw [hkey, BatchChange.key_of_row hrow]
      · exact ih key row hrow

end Applied

/-- A batch touches every key at most once and does what it may do to the rows. -/
structure WellShaped (spec : RawAppSpec) (rows : Rows) (changes : List BatchChange) : Prop where
  keys : (changes.map BatchChange.key).Nodup
  each : ∀ change ∈ changes, Admissible spec rows change

def candidateOf (rows : Rows) (changes : List BatchChange) : Candidate :=
  ⟨applied rows changes, changes.map BatchChange.key, insertedKeys changes, deletedKeys changes⟩

section Candidate

variable {spec : RawAppSpec} {rows : Rows} {changes : List BatchChange}

theorem checkCaptureInput_eq_ok_iff {row : RawRecord} {rule : CaptureRule} :
    checkCaptureInput row rule = .ok () ↔
      ∀ value, row.values.get? rule.capturedPriceField = some value → value.isEmpty = true := by
  simp only [checkCaptureInput, rejectIf_eq_ok, Option.any_eq_true, not_exists, not_and]
  exact forall₂_congr fun value _ => by simp

theorem checkHistory_eq_ok_iff {old row : RawRecord} {rule : CaptureRule} :
    checkHistory old row rule = .ok () ↔
      row.values.get? rule.capturedPriceField = old.values.get? rule.capturedPriceField ∧
        row.values.get? rule.productRefField = old.values.get? rule.productRefField := by
  simp only [checkHistory, bind_eq_ok, rejectIf_eq_ok, not_not]
  constructor
  · rintro ⟨-, hprice, hproduct⟩
    exact ⟨hprice.symm, hproduct.symm⟩
  · rintro ⟨hprice, hproduct⟩
    exact ⟨(), hprice.symm, hproduct.symm⟩

theorem candidateOf_append (rows : Rows) (changes : List BatchChange) (change : BatchChange) :
    candidateOf rows (changes ++ [change]) =
      ⟨change.applyTo (applied rows changes), changes.map BatchChange.key ++ [change.key],
        insertedKeys changes ++ if change.isInsert then [change.key] else [],
        deletedKeys changes ++ if change.isDelete then [change.key] else []⟩ := by
  cases change <;>
    simp [candidateOf, insertedKeys, deletedKeys, List.filter_cons, BatchChange.isInsert,
      BatchChange.isDelete]

/-- One step of the candidate, when the batch so far has made the candidate. -/
theorem apply_eq_ok_iff (change : BatchChange) {next : Candidate} :
    (candidateOf rows changes).apply spec change = .ok next ↔
      (change.key ∉ changes.map BatchChange.key ∧ Admissible spec (applied rows changes) change) ∧
        next = candidateOf rows (changes ++ [change]) := by
  rw [candidateOf_append, Candidate.apply]
  cases change with
  | insert row =>
      simp only [bind_eq_ok, rejectIf_eq_ok, each_eq_ok_iff, checkCaptureInput_eq_ok_iff, not_not,
        Except.ok.injEq]
      constructor
      · rintro ⟨⟨⟩, hfresh, ⟨⟩, hnew, ⟨⟩, hinput, rfl⟩
        exact ⟨⟨hfresh, hnew, hinput⟩, by simp [candidateOf, BatchChange.applyTo,
          BatchChange.row, BatchChange.isInsert, BatchChange.isDelete]⟩
      · rintro ⟨⟨hfresh, hnew, hinput⟩, rfl⟩
        exact ⟨(), hfresh, (), hnew, (), hinput, by simp [candidateOf, BatchChange.applyTo,
          BatchChange.row, BatchChange.isInsert, BatchChange.isDelete]⟩
  | replace row =>
      simp only [bind_eq_ok, rejectIf_eq_ok, okOr_eq_ok, each_eq_ok_iff, checkHistory_eq_ok_iff,
        Except.ok.injEq]
      constructor
      · rintro ⟨⟨⟩, hfresh, old, hold, ⟨⟩, hhistory, rfl⟩
        exact ⟨⟨hfresh, old, hold, hhistory⟩, by simp [candidateOf, BatchChange.applyTo,
          BatchChange.row, BatchChange.isInsert, BatchChange.isDelete]⟩
      · rintro ⟨⟨hfresh, old, hold, hhistory⟩, rfl⟩
        exact ⟨(), hfresh, old, hold, (), hhistory, by simp [candidateOf, BatchChange.applyTo,
          BatchChange.row, BatchChange.isInsert, BatchChange.isDelete]⟩
  | delete tableId recordId =>
      simp only [bind_eq_ok, rejectIf_eq_ok, Except.ok.injEq]
      constructor
      · rintro ⟨⟨⟩, hfresh, ⟨⟩, hold, rfl⟩
        exact ⟨⟨hfresh, Option.ne_none_iff_exists'.1 hold⟩, by simp [candidateOf,
          BatchChange.applyTo, BatchChange.row, BatchChange.isInsert, BatchChange.isDelete]⟩
      · rintro ⟨⟨hfresh, hold⟩, rfl⟩
        exact ⟨(), hfresh, (), Option.ne_none_iff_exists'.2 hold, by simp [candidateOf,
          BatchChange.applyTo, BatchChange.row, BatchChange.isInsert, BatchChange.isDelete]⟩

/-- A batch makes its candidate exactly when it is well shaped. -/
theorem foldlM_apply_eq_ok_iff {candidate : Candidate} :
    changes.foldlM (Candidate.apply spec) ⟨rows, [], [], []⟩ = .ok candidate ↔
      WellShaped spec rows changes ∧ candidate = candidateOf rows changes := by
  rw [show (⟨rows, [], [], []⟩ : Candidate) = candidateOf rows [] from rfl,
    foldlM_eq_ok_iff (candidateOf rows) (fun pre change =>
      change.key ∉ pre.map BatchChange.key ∧ Admissible spec (applied rows pre) change)
      fun pre change post _ b => apply_eq_ok_iff change]
  refine and_congr_left fun _ => ?_
  have hsame : ∀ pre change, change.key ∉ pre.map BatchChange.key →
      (Admissible spec (applied rows pre) change ↔ Admissible spec rows change) := by
    intro pre change hfresh
    have hget : (applied rows pre).get? change.key = rows.get? change.key :=
      get?_applied_of_not_mem hfresh
    cases change <;> simp only [Admissible] <;> simp only [BatchChange.key] at hget <;> rw [hget]
  constructor
  · intro h
    have hnodup : (changes.map BatchChange.key).Nodup := by
      refine nodup_of_eachAfter (f := fun before change =>
        rejectIf (change.key ∈ before.map BatchChange.key) ()) BatchChange.key
        (fun before change hvisit => by simpa using hvisit) (u := ()) ?_
      exact eachAfter_eq_ok_iff.2 fun pre change post heq => by simpa using (h pre change post heq).1
    refine ⟨hnodup, fun change hchange => ?_⟩
    obtain ⟨pre, post, heq⟩ := List.append_of_mem hchange
    obtain ⟨hfresh, hadmissible⟩ := h pre change post heq
    exact (hsame pre change hfresh).1 hadmissible
  · rintro ⟨hkeys, hall⟩ pre change post rfl
    rw [List.map_append, List.nodup_append] at hkeys
    have hfresh : change.key ∉ pre.map BatchChange.key :=
      fun hmem => hkeys.2.2 _ hmem _ (by simp) rfl
    exact ⟨hfresh, (hsame pre change hfresh).2 (hall change (by simp))⟩

end Candidate

theorem mem_rulesOf {spec : RawAppSpec} {table : TableId} {rule : CaptureRule} :
    rule ∈ spec.rulesOf table ↔ rule ∈ spec.captureRules ∧ rule.lineTable = table := by
  simp [RawAppSpec.rulesOf]

theorem nodup_captured {spec : RawAppSpec} (hspec : WellFormed spec) (table : TableId) :
    ((spec.rulesOf table).map (·.capturedPriceField)).Nodup := by
  have hsorted := hspec.captures_sorted.filter fun rule => rule.lineTable = table
  rw [List.Nodup, List.pairwise_map]
  refine hsorted.imp_of_mem fun {a b} ha hb hlt heq => ?_
  have hlines : a.lineTable = b.lineTable :=
    (mem_rulesOf.1 ha).2.trans (mem_rulesOf.1 hb).2.symm
  rw [CaptureRule.target, CaptureRule.target, heq, hlines] at hlt
  exact lt_irrefl _ hlt

section SetPrices

variable {rules : List CaptureRule} {price : CaptureRule → I64} {row : RawRecord}

@[simp] theorem setPrices_key : (row.setPrices rules price).key = row.key := rfl

@[simp] theorem setPrices_tableId : (row.setPrices rules price).tableId = row.tableId := rfl

@[simp] theorem setPrices_scope : (row.setPrices rules price).scope = row.scope := rfl

@[simp] theorem setPrices_id : (row.setPrices rules price).id = row.id := rfl

theorem setPrices_append (rules : List CaptureRule) (rule : CaptureRule)
    (price : CaptureRule → I64) (row : RawRecord) :
    row.setPrices (rules ++ [rule]) price =
      (row.setPrices rules price).setPrices [rule] fun _ => price rule := by
  simp [RawRecord.setPrices]

theorem setPrices_congr {price' : CaptureRule → I64} (h : ∀ rule ∈ rules, price rule = price' rule) :
    row.setPrices rules price = row.setPrices rules price' := by
  induction rules using List.reverseRecOn with
  | nil => rfl
  | append_singleton rules rule ih =>
      rw [setPrices_append, setPrices_append, ih fun r hr => h r (by simp [hr]), h rule (by simp)]

theorem get?_setPrices_of_free {field : FieldId}
    (h : ∀ rule ∈ rules, rule.capturedPriceField ≠ field) :
    (row.setPrices rules price).values.get? field = row.values.get? field := by
  induction rules using List.reverseRecOn with
  | nil => rfl
  | append_singleton rules rule ih =>
      have hlast : field ≠ rule.capturedPriceField := (h rule (by simp)).symm
      rw [setPrices_append]
      change ((row.setPrices rules price).values.insert _ _).get? field = _
      rw [OrdMap.get?_insert_of_ne _ _ hlast, ih fun r hr => h r (by simp [hr])]

/-- The captured field of a rule has its price. -/
theorem get?_setPrices_of_mem (hnodup : (rules.map (·.capturedPriceField)).Nodup)
    {rule : CaptureRule} (h : rule ∈ rules) :
    (row.setPrices rules price).values.get? rule.capturedPriceField =
      some (.money (price rule)) := by
  induction rules using List.reverseRecOn with
  | nil => simp at h
  | append_singleton rules last ih =>
      rw [List.map_append, List.nodup_append] at hnodup
      rw [setPrices_append]
      change ((row.setPrices rules price).values.insert _ _).get? _ = _
      rcases List.mem_append.1 h with hmem | hlast
      · have hne : rule.capturedPriceField ≠ last.capturedPriceField :=
          hnodup.2.2 _ (List.mem_map_of_mem hmem) _ (by simp)
        rw [OrdMap.get?_insert_of_ne _ _ hne, ih hnodup.1 hmem]
      · obtain rfl : rule = last := by simpa using hlast
        rw [OrdMap.get?_insert_self]

end SetPrices

/-- The price of the product that a line refers to, when it refers to one: to a record of
the declared product table with a price. -/
def priceIn (spec : RawAppSpec) (scope : Scope) (rows : Rows) (row : RawRecord)
    (rule : CaptureRule) : Option I64 :=
  match row.values.get? rule.productRefField with
  | some (.ref reference) =>
      if reference.scope = scope ∧
          spec.hasType row.tableId rule.productRefField (.ref reference.tableId) then
        match (rows.get? (toLex (reference.tableId, reference.recordId))).bind fun product =>
            product.values.get? rule.productPriceField with
        | some (.money price) => some price
        | _ => none
      else none
  | _ => none

def capturedIn (spec : RawAppSpec) (scope : Scope) (rows : Rows) (row : RawRecord) : RawRecord :=
  row.setPrices (spec.rulesOf row.tableId) fun rule =>
    (priceIn spec scope rows row rule).getD temporaryPrice

def placeholder (spec : RawAppSpec) (row : RawRecord) : RawRecord :=
  row.setPrices (spec.rulesOf row.tableId) fun _ => temporaryPrice

section Prices

variable {spec : RawAppSpec} {scope : Scope} {rows : Rows} {row : RawRecord} {rule : CaptureRule}

theorem capturePrice_eq_ok_iff (hspec : WellFormed spec) (hrule : rule ∈ spec.rulesOf row.tableId)
    {price : I64} :
    capturePrice spec scope rows row rule = .ok price ↔
      priceIn spec scope rows row rule = some price := by
  obtain ⟨hmem, htable⟩ := mem_rulesOf.1 hrule
  obtain ⟨product, haccepted⟩ := hspec.captures rule hmem
  obtain ⟨field, hfield, htype⟩ := Option.map_eq_some_iff.1 (htable ▸ haccepted.reference)
  have hlast : ∀ source : Option RawRecord,
      (match source.bind fun source => source.values.get? rule.productPriceField with
        | some (.money price) => .ok price
        | _ => .error (.fail (.captureSourceInvalid rule.productPriceField)) :
          Exec RelationError I64) = .ok price ↔
      (match source.bind fun source => source.values.get? rule.productPriceField with
        | some (.money price) => some price
        | _ => none) = some price := by
    intro source
    split <;> simp
  unfold capturePrice priceIn
  cases hvalue : row.values.get? rule.productRefField with
  | none => simp
  | some value =>
      cases value with
      | ref reference =>
          by_cases hscope : reference.scope = scope
          · have htarget : spec.hasType row.tableId rule.productRefField (.ref reference.tableId) ↔
                reference.tableId = product := by
              rw [RawAppSpec.hasType, hfield, Option.map_some, htype]
              simp [eq_comm]
            simp only [hscope, if_true, true_and, hfield, Exec.expect, ok_bind, htype, htarget]
            by_cases hproduct : reference.tableId = product
            · simp only [hproduct, if_true, rejectIf, not_true, if_false, ne_eq, ok_bind]
              exact hlast _
            · simp [hproduct, rejectIf]
          · simp [hscope]
      | _ => simp

theorem productRef_ne_captured (hspec : WellFormed spec) {table : TableId} {rule' : CaptureRule}
    (hrule : rule ∈ spec.rulesOf table) (hrule' : rule' ∈ spec.rulesOf table) :
    rule'.capturedPriceField ≠ rule.productRefField := by
  intro heq
  obtain ⟨hmem, htable⟩ := mem_rulesOf.1 hrule
  obtain ⟨hmem', htable'⟩ := mem_rulesOf.1 hrule'
  obtain ⟨product, haccepted⟩ := hspec.captures rule hmem
  obtain ⟨_, haccepted'⟩ := hspec.captures rule' hmem'
  have htarget := haccepted'.target
  rw [heq, htable', ← htable, RawAppSpec.hasType, haccepted.reference] at htarget
  cases htarget

theorem priceIn_setPrices (hspec : WellFormed spec) (hrule : rule ∈ spec.rulesOf row.tableId)
    {rules : List CaptureRule} (hrules : ∀ r ∈ rules, r ∈ spec.rulesOf row.tableId)
    (price : CaptureRule → I64) :
    priceIn spec scope rows (row.setPrices rules price) rule = priceIn spec scope rows row rule := by
  rw [priceIn, get?_setPrices_of_free fun r hr => productRef_ne_captured hspec hrule (hrules r hr)]
  rfl

/-- The prices of products are not captured prices, so a price depends on the fields of the
rows that no line captures. -/
theorem priceIn_congr (hspec : WellFormed spec) (hrule : rule ∈ spec.rulesOf row.tableId)
    {rows' : Rows} (hsource : ∀ key : RecordKey,
      (∀ r ∈ spec.rulesOf (ofLex key).1, r.capturedPriceField ≠ rule.productPriceField) →
      (rows'.get? key).bind (fun product => product.values.get? rule.productPriceField) =
        (rows.get? key).bind fun product => product.values.get? rule.productPriceField) :
    priceIn spec scope rows' row rule = priceIn spec scope rows row rule := by
  obtain ⟨hmem, htable⟩ := mem_rulesOf.1 hrule
  obtain ⟨product, haccepted⟩ := hspec.captures rule hmem
  unfold priceIn
  cases hvalue : row.values.get? rule.productRefField with
  | none => rfl
  | some value =>
      cases value with
      | ref reference =>
          by_cases hreads : reference.scope = scope ∧
              spec.hasType row.tableId rule.productRefField (.ref reference.tableId)
          · have hproduct : product = reference.tableId := by
              have := haccepted.reference
              rw [RawAppSpec.hasType, htable, hreads.2] at this
              simpa [eq_comm] using this
            have hfree : ∀ r ∈ spec.rulesOf reference.tableId,
                r.capturedPriceField ≠ rule.productPriceField := by
              intro r hr heq
              obtain ⟨hrmem, hrtable⟩ := mem_rulesOf.1 hr
              refine haccepted.source_free (List.mem_map.2 ⟨r, hrmem, ?_⟩)
              rw [CaptureRule.target, hrtable, hproduct, heq]
            simp only [if_pos hreads,
              hsource (toLex (reference.tableId, reference.recordId)) hfree]
          · simp only [if_neg hreads]
      | _ => rfl

theorem priceIn_capturedIn (hspec : WellFormed spec) (hrows : rows.Keyed)
    (hrule : rule ∈ spec.rulesOf row.tableId) (keys : List RecordKey) :
    priceIn spec scope (rows.updateAt keys (capturedIn spec scope rows)) row rule =
      priceIn spec scope rows row rule := by
  refine priceIn_congr hspec hrule fun key hfree => ?_
  rw [get?_updateAt]
  cases hsource : rows.get? key with
  | none => rfl
  | some source =>
      have htable : source.tableId = (ofLex key).1 := by
        rw [← hrows _ _ hsource]
        rfl
      rw [← htable] at hfree
      simp only [Option.map_some, Option.bind_some]
      split_ifs
      · exact get?_setPrices_of_free hfree
      · rfl

theorem capturedIn_capturedIn (hspec : WellFormed spec) (hrows : rows.Keyed)
    (keys : List RecordKey) :
    capturedIn spec scope (rows.updateAt keys (capturedIn spec scope rows)) row =
      capturedIn spec scope rows row :=
  setPrices_congr fun _ hrule =>
    congrArg (·.getD temporaryPrice) (priceIn_capturedIn hspec hrows hrule keys)

/-- A line captures its prices exactly when each of its products has one. -/
theorem captureRow_eq_ok_iff (hspec : WellFormed spec) {next : RawRecord} :
    captureRow spec scope rows row = .ok next ↔
      (∀ rule ∈ spec.rulesOf row.tableId, ∃ price, priceIn spec scope rows row rule = some price) ∧
        next = capturedIn spec scope rows row := by
  have hfold := foldlM_eq_ok_iff
    (fun rules => row.setPrices rules fun rule =>
      (priceIn spec scope rows row rule).getD temporaryPrice)
    (fun _ rule => ∃ price, priceIn spec scope rows row rule = some price)
    (l := spec.rulesOf row.tableId) (b := next)
    (f := fun row rule => do
      let price ← capturePrice spec scope rows row rule
      .ok (row.setPrices [rule] fun _ => price)) ?_
  · rw [show row.setPrices [] _ = row from rfl] at hfold
    rw [captureRow, capturedIn, hfold]
    refine and_congr_left fun _ => ⟨fun h rule hrule => ?_, fun h pre rule post heq => ?_⟩
    · obtain ⟨pre, post, heq⟩ := List.append_of_mem hrule
      exact h pre rule post heq
    · exact h rule (by simp [heq])
  intro pre rule post heq b
  have hrule : rule ∈ spec.rulesOf row.tableId := by simp [heq]
  have hpre : ∀ r ∈ pre, r ∈ spec.rulesOf row.tableId := fun r hr => by simp [heq, hr]
  have hprice : ∀ p, capturePrice spec scope rows (row.setPrices pre fun rule =>
      (priceIn spec scope rows row rule).getD temporaryPrice) rule = .ok p ↔
        priceIn spec scope rows (row.setPrices pre fun rule =>
          (priceIn spec scope rows row rule).getD temporaryPrice) rule = some p :=
    fun _ => capturePrice_eq_ok_iff hspec (by rwa [setPrices_tableId])
  simp only [priceIn_setPrices hspec hrule hpre] at hprice
  simp only [bind_eq_ok, hprice, Except.ok.injEq, setPrices_append]
  constructor
  · rintro ⟨price, heq, rfl⟩
    exact ⟨⟨price, heq⟩, by rw [heq, Option.getD_some]⟩
  · rintro ⟨⟨price, heq⟩, rfl⟩
    exact ⟨price, heq, by rw [heq, Option.getD_some]⟩

end Prices

namespace RelationStore

def appliedRows (store : RelationStore) (changes : List BatchChange) : Rows :=
  applied store.records.rows changes

/-- The rows that a batch leaves: the inserted lines have the prices of their products. -/
def finalRows (store : RelationStore) (changes : List BatchChange) : Rows :=
  (store.appliedRows changes).updateAt (insertedKeys changes)
    (capturedIn store.spec.definition store.records.scope (store.appliedRows changes))

def graphRows (store : RelationStore) (changes : List BatchChange) : Rows :=
  (store.appliedRows changes).updateAt (insertedKeys changes) (placeholder store.spec.definition)

/-- Every inserted line refers to products that have a price. -/
def HasPrices (store : RelationStore) (changes : List BatchChange) : Prop :=
  ∀ row, .insert row ∈ changes → ∀ rule ∈ store.spec.definition.rulesOf row.tableId,
    ∃ price, priceIn store.spec.definition store.records.scope (store.appliedRows changes) row rule =
      some price

/-- What is checked of a batch. -/
structure Accepts (store : RelationStore) (changes : List BatchChange) (records : CheckedRecords) :
    Prop where
  incoming : checkIncoming changes = .ok ()
  shaped : WellShaped store.spec.definition store.records.rows changes
  kept : ∀ key ∈ deletedKeys changes,
    checkDeleted store.records.scope (store.appliedRows changes) key = .ok ()
  graph : ∃ checked, validateRecords store.spec.definition store.records.scope
    (store.graphRows changes).values = .ok checked
  prices : store.HasPrices changes
  final : validateRecords store.spec.definition store.records.scope
    (store.finalRows changes).values = .ok records

variable {store : RelationStore} {changes : List BatchChange}

theorem validFacts (store : RelationStore) :
    ValidFacts store.spec.definition store.records.scope store.records.records :=
  ((validFor_iff (wellFormed store.spec)).1 store.valid).1

theorem normalized_records (store : RelationStore) :
    normalized store.spec.definition store.records.records = store.records.records :=
  ((validFor_iff (wellFormed store.spec)).1 store.valid).2

theorem keyed_appliedRows (store : RelationStore) (changes : List BatchChange) :
    (store.appliedRows changes).Keyed :=
  (keyed_rows store.validFacts.keys).applied changes

theorem keyed_finalRows (store : RelationStore) (changes : List BatchChange) :
    (store.finalRows changes).Keyed :=
  (store.keyed_appliedRows changes).updateAt fun _ => rfl

theorem keyed_graphRows (store : RelationStore) (changes : List BatchChange) :
    (store.graphRows changes).Keyed :=
  (store.keyed_appliedRows changes).updateAt fun _ => rfl

theorem nodup_insertedKeys (h : (changes.map BatchChange.key).Nodup) :
    (insertedKeys changes).Nodup :=
  h.sublist (List.filter_sublist.map _)

theorem mem_insertedKeys {key : RecordKey} :
    key ∈ insertedKeys changes ↔ ∃ row, .insert row ∈ changes ∧ row.key = key := by
  simp only [insertedKeys, List.mem_map, List.mem_filter]
  constructor
  · rintro ⟨change, ⟨hmem, hinsert⟩, rfl⟩
    cases change with
    | insert row => exact ⟨row, hmem, rfl⟩
    | _ => simp [BatchChange.isInsert] at hinsert
  · rintro ⟨row, hmem, rfl⟩
    exact ⟨_, ⟨hmem, rfl⟩, rfl⟩

theorem get?_appliedRows_insert (h : (changes.map BatchChange.key).Nodup) {row : RawRecord}
    (hmem : .insert row ∈ changes) : (store.appliedRows changes).get? row.key = some row :=
  get?_applied_of_mem h hmem

theorem candidate_graphRows_eq_ok_iff (h : (changes.map BatchChange.key).Nodup) {out : Rows} :
    (candidateOf store.records.rows changes).graphRows store.spec.definition = .ok out ↔
      out = store.graphRows changes := by
  have hrows : updateRows (fun _ row => .ok (placeholder store.spec.definition row))
      (insertedKeys changes) (store.appliedRows changes) = .ok out ↔ _ :=
    updateRows_eq_ok_iff (fun _ => True) (nodup_insertedKeys h)
      fun _ _ row next _ => by rw [Except.ok.injEq, true_and, eq_comm]
  refine hrows.trans (and_iff_right fun key hkey => ?_)
  obtain ⟨row, hmem, rfl⟩ := mem_insertedKeys.1 hkey
  exact ⟨row, get?_appliedRows_insert h hmem, trivial⟩

/-- The inserted lines capture their prices exactly when each of their products has one. -/
theorem captureRows_eq_ok_iff (h : (changes.map BatchChange.key).Nodup) {out : Rows} :
    updateRows (captureRow store.spec.definition store.records.scope) (insertedKeys changes)
        (store.appliedRows changes) = .ok out ↔
      store.HasPrices changes ∧ out = store.finalRows changes := by
  have hspec := wellFormed store.spec
  have hcapture : ∀ seen key row next, (store.appliedRows changes).get? key = some row →
      (captureRow store.spec.definition store.records.scope
          ((store.appliedRows changes).updateAt seen (capturedIn store.spec.definition
            store.records.scope (store.appliedRows changes))) row = .ok next ↔
        (∀ rule ∈ store.spec.definition.rulesOf row.tableId, ∃ price,
          priceIn store.spec.definition store.records.scope (store.appliedRows changes) row rule =
            some price) ∧
        next = capturedIn store.spec.definition store.records.scope (store.appliedRows changes)
          row) := by
    intro seen key row next _
    have hrows := store.keyed_appliedRows changes
    rw [captureRow_eq_ok_iff hspec, capturedIn_capturedIn hspec hrows]
    exact and_congr_left fun _ => forall₂_congr fun rule hrule => by
      rw [priceIn_capturedIn hspec hrows hrule]
  rw [updateRows_eq_ok_iff _ (nodup_insertedKeys h) hcapture]
  refine and_congr_left fun _ => ⟨fun hall row hmem => ?_, fun hall key hkey => ?_⟩
  · obtain ⟨r, hr, hgood⟩ := hall row.key (mem_insertedKeys.2 ⟨row, hmem, rfl⟩)
    rw [get?_appliedRows_insert h hmem] at hr
    obtain rfl := Option.some.inj hr
    exact hgood
  · obtain ⟨row, hmem, rfl⟩ := mem_insertedKeys.1 hkey
    exact ⟨row, get?_appliedRows_insert h hmem, hall row hmem⟩

theorem finalRecords_eq_ok_iff {records : CheckedRecords} :
    store.finalRecords changes = .ok records ↔ store.Accepts changes records := by
  simp only [finalRecords, bind_eq_ok, foldlM_apply_eq_ok_iff, Exec.lift_eq_ok, each_eq_ok_iff]
  constructor
  · rintro ⟨⟨⟩, hincoming, candidate, ⟨hshaped, rfl⟩, graph, hgraph, ⟨⟩, hkept, checked, hchecked,
      rows, hrows, hfinal⟩
    obtain rfl := (candidate_graphRows_eq_ok_iff hshaped.keys).1 hgraph
    obtain ⟨hprices, rfl⟩ := (captureRows_eq_ok_iff hshaped.keys).1 hrows
    exact ⟨hincoming, hshaped, hkept, ⟨checked, hchecked⟩, hprices, hfinal⟩
  · rintro ⟨hincoming, hshaped, hkept, ⟨checked, hchecked⟩, hprices, hfinal⟩
    exact ⟨(), hincoming, _, ⟨hshaped, rfl⟩, _, (candidate_graphRows_eq_ok_iff hshaped.keys).2 rfl,
      (), hkept, checked, hchecked, _, (captureRows_eq_ok_iff hshaped.keys).2 ⟨hprices, rfl⟩, hfinal⟩

end RelationStore

end Evobase
