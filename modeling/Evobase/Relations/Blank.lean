import Evobase.Relations.Placeholder

/-!
# Blank and absent in a batch

Rows are alike when they differ only in that one has a blank where the other has no value. Alike
rows have one normal form and one validity, and so have the rows that alike batches leave
(`finalRows_alike`). The check of the history of a line is the one place that looks at the rows as
they are written: there a stored blank is kept by a blank and not by an absent value
(`sameOutcome_iff`).

The rows that the check of the history compares are the stored row and the row of the batch,
neither of them normalized. The equivalence is proved over alike batches: every other pass gives
the same verdict on both.
-/

namespace Evobase

open Foundation

/-- Where the rows differ, one has a blank in a declared field and the other no value. -/
structure RawRecord.Alike (spec : RawAppSpec) (row other : RawRecord) : Prop where
  scope_eq : other.scope = row.scope
  key : other.key = row.key
  values : ∀ field, other.values.get? field = row.values.get? field ∨
    (∃ f, spec.field row.tableId field = some f) ∧ row.value field = .blank ∧
      other.value field = .blank

/-- The same change of alike rows. -/
inductive BatchChange.Alike (spec : RawAppSpec) : BatchChange → BatchChange → Prop where
  | insert {row other : RawRecord} (h : row.Alike spec other) : Alike spec (.insert row) (.insert other)
  | replace {row other : RawRecord} (h : row.Alike spec other) :
      Alike spec (.replace row) (.replace other)
  | delete (tableId : TableId) (recordId : RecordId) :
      Alike spec (.delete tableId recordId) (.delete tableId recordId)

section Alike

variable {spec : RawAppSpec} {scope : Scope} {row other : RawRecord}

@[refl] theorem RawRecord.Alike.refl (spec : RawAppSpec) (row : RawRecord) : row.Alike spec row :=
  ⟨rfl, rfl, fun _ => .inl rfl⟩

theorem RawRecord.Alike.erase {field : FieldId}
    (hdeclared : ∃ f, spec.field row.tableId field = some f) (hblank : row.value field = .blank) :
    row.Alike spec { row with values := row.values.erase field } := by
  refine ⟨rfl, rfl, fun other => ?_⟩
  by_cases heq : other = field
  · subst heq
    refine .inr ⟨hdeclared, hblank, ?_⟩
    simp [RawRecord.value, OrdMap.get?_erase]
  · exact .inl (by simp [OrdMap.get?_erase, heq])

theorem RawRecord.Alike.tableId (h : row.Alike spec other) : other.tableId = row.tableId :=
  (key_eq_key_iff.1 h.key).1

theorem RawRecord.Alike.symm (h : row.Alike spec other) : other.Alike spec row := by
  refine ⟨h.scope_eq.symm, h.key.symm, fun field => ?_⟩
  rcases h.values field with heq | ⟨hdeclared, hrow, hother⟩
  · exact .inl heq.symm
  · exact .inr ⟨h.tableId ▸ hdeclared, hother, hrow⟩

theorem RawRecord.Alike.value (h : row.Alike spec other) (field : FieldId) :
    other.value field = row.value field := by
  rcases h.values field with heq | ⟨-, hrow, hother⟩
  · rw [RawRecord.value, heq, RawRecord.value]
  · rw [hrow, hother]

theorem RawRecord.Alike.normalize (hspec : WellFormed spec) (h : row.Alike spec other) :
    other.normalize spec = row.normalize spec := by
  have hvalues : (other.normalize spec).values = (row.normalize spec).values := by
    refine OrdMap.ext_get? fun field => ?_
    rw [get?_normalize hspec, get?_normalize hspec, h.tableId, h.value]
  obtain ⟨rowScope, id, tableId, values⟩ := row
  obtain ⟨otherScope, id', tableId', values'⟩ := other
  obtain rfl : otherScope = rowScope := h.scope_eq
  obtain ⟨htable, hid⟩ := key_eq_key_iff.1 h.key
  obtain rfl : tableId' = tableId := htable
  obtain rfl : id' = id := hid
  simp only [RawRecord.normalize, RawRecord.mk.injEq, true_and] at hvalues ⊢
  exact hvalues

theorem RawRecord.Alike.declared (h : row.Alike spec other)
    (hdeclared : ∀ field ∈ row.values.keys, ∃ f, spec.field row.tableId field = some f) :
    ∀ field ∈ other.values.keys, ∃ f, spec.field other.tableId field = some f := by
  intro field hfield
  rw [h.tableId]
  rcases h.values field with heq | ⟨hknown, -⟩
  · refine hdeclared field (OrdMap.mem_keys_iff.2 ?_)
    rw [← heq]
    exact OrdMap.mem_keys_iff.1 hfield
  · exact hknown

theorem RawRecord.Alike.validRecord (h : row.Alike spec other) {records : List RawRecord}
    (hvalid : ValidRecord spec scope records row) : ValidRecord spec scope records other := by
  obtain ⟨table, htable, hvalues⟩ := hvalid.table
  refine ⟨h.scope_eq.trans hvalid.inScope, ⟨table, h.tableId ▸ htable, fun field hfield => ?_⟩,
    h.declared hvalid.declared, fun rule hrule hruleTable => ?_, fun machine hmachine hmachineTable => ?_⟩
  · rw [h.value]
    exact hvalues field hfield
  · rw [h.value]
    exact hvalid.constraints rule hrule (hruleTable.trans h.tableId)
  · rw [h.value]
    exact hvalid.states machine hmachine (hmachineTable.trans h.tableId)

theorem fits_of_fits_normalized (hspec : WellFormed spec) {records : List RawRecord}
    (hkeys : (records.map RawRecord.key).Nodup)
    (hdeclared : ∀ row ∈ records, ∀ field ∈ row.values.keys,
      ∃ f, spec.field row.tableId field = some f)
    (hfits : Fits (recordsToJson (normalized spec records))) : Fits (recordsToJson records) := by
  refine Fits.of_smaller (Json.smaller_ofList hkeys fun row hrow => ?_) hfits
  refine ⟨row.normalize spec, mem_normalized_iff.2 ⟨row, hrow, rfl⟩, rfl,
    RawRecord.smaller_of_values rfl rfl fun field value hvalue => ⟨value, ?_, .refl _⟩⟩
  have hknown := hdeclared row hrow field (OrdMap.mem_keys_iff.2 ⟨value, hvalue⟩)
  rw [get?_normalize hspec, if_pos (Option.isSome_iff_exists.2 hknown), RawRecord.value, hvalue]
  rfl

theorem normalized_of_alike (hspec : WellFormed spec) {records others : List RawRecord}
    (hkeys : (records.map RawRecord.key).Nodup) (hkeys' : (others.map RawRecord.key).Nodup)
    (h : ∀ row ∈ records, ∃ other ∈ others, row.Alike spec other)
    (h' : ∀ other ∈ others, ∃ row ∈ records, row.Alike spec other) :
    normalized spec others = normalized spec records := by
  refine eq_of_pairwise_lt RawRecord.key (pairwise_normalized spec hkeys')
    (pairwise_normalized spec hkeys) fun normal => ?_
  rw [mem_normalized_iff, mem_normalized_iff]
  constructor
  · rintro ⟨other, hother, rfl⟩
    obtain ⟨row, hrow, halike⟩ := h' other hother
    exact ⟨row, hrow, (halike.normalize hspec).symm⟩
  · rintro ⟨row, hrow, rfl⟩
    obtain ⟨other, hother, halike⟩ := h row hrow
    exact ⟨other, hother, halike.normalize hspec⟩

theorem validFacts_of_alike (hspec : WellFormed spec) {records others : List RawRecord}
    (hvalid : ValidFacts spec scope records) (hkeys : (others.map RawRecord.key).Nodup)
    (h : ∀ other ∈ others, ∃ row ∈ records, row.Alike spec other)
    (hnormal : normalized spec others = normalized spec records) :
    ValidFacts spec scope others := by
  have hsame : ∀ key, key ∈ records.map RawRecord.key → key ∈ others.map RawRecord.key := by
    intro key hkey
    have hmap := congrArg (List.map RawRecord.key) hnormal
    rw [map_key_normalized, map_key_normalized] at hmap
    rwa [← mem_keys_sortBy, hmap, mem_keys_sortBy]
  have heach : ∀ other ∈ others, ValidRecord spec scope others other := by
    intro other hother
    obtain ⟨row, hrow, halike⟩ := h other hother
    exact (halike.validRecord (hvalid.each row hrow)).mono hsame
  have hfits : Fits (recordsToJson (normalized spec others)) := by
    rw [hnormal]
    exact hvalid.fits_normalized
  refine ⟨hvalid.app, ?_, fits_of_fits_normalized hspec hkeys
    (fun other hother => (heach other hother).declared) hfits, hkeys, heach, hfits⟩
  have hlength := congrArg List.length hnormal
  rw [normalized, normalized, List.length_map, List.length_map, length_sortBy,
    length_sortBy] at hlength
  rw [hlength]
  exact hvalid.count

end Alike

def Rows.Alike (spec : RawAppSpec) (rows rows' : Rows) : Prop :=
  ∀ key, Option.Rel (RawRecord.Alike spec) (rows.get? key) (rows'.get? key)

section AlikeRows

variable {spec : RawAppSpec} {scope : Scope} {row other : RawRecord} {rows rows' : Rows}

@[refl] theorem Rows.Alike.refl (spec : RawAppSpec) (rows : Rows) : rows.Alike spec rows := by
  intro key
  cases rows.get? key with
  | none => exact .none
  | some row => exact .some (.refl spec row)

theorem Rows.Alike.exists_of_get? (h : rows.Alike spec rows') {key : RecordKey}
    (hrow : rows.get? key = some row) :
    ∃ other, rows'.get? key = some other ∧ row.Alike spec other := by
  have hkey := h key
  rw [hrow] at hkey
  cases hother : rows'.get? key with
  | none =>
      rw [hother] at hkey
      cases hkey
  | some other =>
      rw [hother] at hkey
      cases hkey with
      | some halike => exact ⟨other, rfl, halike⟩

theorem Rows.Alike.symm (h : rows.Alike spec rows') : rows'.Alike spec rows := by
  intro key
  cases hrow : rows.get? key with
  | some row =>
      obtain ⟨other, hother, halike⟩ := h.exists_of_get? hrow
      rw [hother]
      exact .some halike.symm
  | none =>
      have hkey := h key
      rw [hrow] at hkey
      cases hother : rows'.get? key with
      | none => exact .none
      | some other =>
          rw [hother] at hkey
          cases hkey

theorem Rows.Alike.exists_of_mem_values (h : rows.Alike spec rows') :
    ∀ other ∈ rows'.values, ∃ row ∈ rows.values, row.Alike spec other := by
  intro other hother
  obtain ⟨key, hget⟩ := OrdMap.mem_values_iff.1 hother
  obtain ⟨row, hrow, halike⟩ := h.symm.exists_of_get? hget
  exact ⟨row, OrdMap.mem_values_iff.2 ⟨key, hrow⟩, halike.symm⟩

theorem Rows.Alike.validateRecords (hspec : WellFormed spec) (h : rows.Alike spec rows')
    (hrows : rows.Keyed) (hrows' : rows'.Keyed) {checked : CheckedRecords}
    (hvalid : Evobase.validateRecords spec scope rows.values = .ok checked) :
    Evobase.validateRecords spec scope rows'.values = .ok checked := by
  obtain ⟨hfacts, rfl⟩ := (validateRecords_eq_ok_iff hspec).1 hvalid
  have hnormal := normalized_of_alike hspec hrows.nodup hrows'.nodup
    (fun row hrow => (h.symm.exists_of_mem_values row hrow).imp fun _ hother =>
      ⟨hother.1, hother.2.symm⟩) h.exists_of_mem_values
  refine (validateRecords_eq_ok_iff hspec).2
    ⟨validFacts_of_alike hspec hfacts hrows'.nodup h.exists_of_mem_values hnormal, ?_⟩
  rw [hnormal]

theorem get?_eq_some_iff_value {field : FieldId} {value : Value} (hvalue : value ≠ .blank) :
    row.values.get? field = some value ↔ row.value field = value := by
  unfold RawRecord.value
  cases row.values.get? field with
  | none => simpa using hvalue.symm
  | some found => simp

theorem priceIn_eq_some_iff {rule : CaptureRule} {price : I64} :
    priceIn spec scope rows row rule = some price ↔ ∃ reference product,
      row.value rule.productRefField = .ref reference ∧ reference.scope = scope ∧
        spec.hasType row.tableId rule.productRefField (.ref reference.tableId) ∧
        rows.get? (toLex (reference.tableId, reference.recordId)) = some product ∧
        product.value rule.productPriceField = .money price := by
  unfold priceIn
  constructor
  · intro h
    split at h
    · rename_i reference hreference
      split_ifs at h with hreads
      split at h
      · rename_i found hfound
        obtain ⟨product, hproduct, hprice⟩ := Option.bind_eq_some_iff.1 hfound
        obtain rfl := Option.some.inj h
        exact ⟨reference, product, (get?_eq_some_iff_value (by simp)).1 hreference, hreads.1,
          hreads.2, hproduct, (get?_eq_some_iff_value (by simp)).1 hprice⟩
      · cases h
    · cases h
  · rintro ⟨reference, product, hreference, hscope, htype, hproduct, hprice⟩
    rw [(get?_eq_some_iff_value (by simp)).2 hreference]
    simp only [hscope, htype, and_self, if_true, hproduct, Option.bind_some,
      (get?_eq_some_iff_value (by simp)).2 hprice]

theorem Rows.Alike.priceIn_eq_some (hrows : rows.Alike spec rows') (h : row.Alike spec other)
    {rule : CaptureRule} {price : I64} (hprice : priceIn spec scope rows row rule = some price) :
    priceIn spec scope rows' other rule = some price := by
  obtain ⟨reference, product, hreference, hscope, htype, hproduct, hvalue⟩ :=
    priceIn_eq_some_iff.1 hprice
  obtain ⟨product', hproduct', halike⟩ := hrows.exists_of_get? hproduct
  refine priceIn_eq_some_iff.2 ⟨reference, product', (h.value _).trans hreference, hscope, ?_,
    hproduct', (halike.value _).trans hvalue⟩
  rwa [h.tableId]

theorem Rows.Alike.priceIn (hrows : rows.Alike spec rows') (h : row.Alike spec other)
    (rule : CaptureRule) :
    Evobase.priceIn spec scope rows' other rule = Evobase.priceIn spec scope rows row rule :=
  Option.ext fun _ => ⟨hrows.symm.priceIn_eq_some h.symm, hrows.priceIn_eq_some h⟩

theorem RawRecord.Alike.setPrices (hspec : WellFormed spec) (h : row.Alike spec other)
    {table : TableId} (price : CaptureRule → I64) :
    (row.setPrices (spec.rulesOf table) price).Alike spec
      (other.setPrices (spec.rulesOf table) price) := by
  refine ⟨h.scope_eq, h.key, fun field => ?_⟩
  rcases captured_or_free (spec.rulesOf table) field with ⟨rule, hrule, rfl⟩ | hfree
  · rw [get?_setPrices_of_mem (nodup_captured hspec table) hrule,
      get?_setPrices_of_mem (nodup_captured hspec table) hrule]
    exact .inl rfl
  · rw [value_setPrices_of_free hfree, value_setPrices_of_free hfree, get?_setPrices_of_free hfree,
      get?_setPrices_of_free hfree]
    exact h.values field

theorem RawRecord.Alike.capturedIn (hspec : WellFormed spec) (hrows : rows.Alike spec rows')
    (h : row.Alike spec other) :
    (capturedIn spec scope rows row).Alike spec (capturedIn spec scope rows' other) := by
  have hprices : Evobase.capturedIn spec scope rows' other =
      other.setPrices (spec.rulesOf row.tableId) fun rule =>
        (Evobase.priceIn spec scope rows row rule).getD temporaryPrice := by
    rw [Evobase.capturedIn, h.tableId]
    exact setPrices_congr fun rule _ => by rw [hrows.priceIn h]
  rw [hprices]
  exact h.setPrices hspec _

end AlikeRows

/-- What a batch may do to a row of the store when an absent value is a blank. -/
def AdmissibleUpToBlank (spec : RawAppSpec) (rows : Rows) : BatchChange → Prop
  | .insert row => rows.get? row.key = none ∧ ∀ rule ∈ spec.rulesOf row.tableId,
      (row.value rule.capturedPriceField).isEmpty = true
  | .replace row => ∃ old, rows.get? row.key = some old ∧ ∀ rule ∈ spec.rulesOf row.tableId,
      row.value rule.capturedPriceField = old.value rule.capturedPriceField ∧
        row.value rule.productRefField = old.value rule.productRefField
  | .delete tableId recordId => ∃ old, rows.get? (toLex (tableId, recordId)) = some old

/-- The replaced lines have a value, blank or not, for what the rules keep. -/
def WritesHistory (spec : RawAppSpec) (changes : List BatchChange) : Prop :=
  ∀ row, .replace row ∈ changes → ∀ rule ∈ spec.rulesOf row.tableId,
    row.values.get? rule.capturedPriceField ≠ none ∧ row.values.get? rule.productRefField ≠ none

section AlikeBatches

variable {spec : RawAppSpec} {scope : Scope} {rows rows' : Rows} {change change' : BatchChange}
  {changes changes' : List BatchChange}

theorem BatchChange.Alike.key (h : change.Alike spec change') : change'.key = change.key := by
  cases h with
  | insert halike => exact halike.key
  | replace halike => exact halike.key
  | delete tableId recordId => rfl

theorem BatchChange.Alike.row (h : change.Alike spec change') :
    Option.Rel (RawRecord.Alike spec) change.row change'.row := by
  cases h with
  | insert halike => exact .some halike
  | replace halike => exact .some halike
  | delete tableId recordId => exact .none

theorem BatchChange.Alike.isInsert (h : change.Alike spec change') :
    change'.isInsert = change.isInsert := by
  cases h <;> rfl

theorem BatchChange.Alike.symm (h : change.Alike spec change') : change'.Alike spec change := by
  cases h with
  | insert halike => exact .insert halike.symm
  | replace halike => exact .replace halike.symm
  | delete tableId recordId => exact .delete tableId recordId

theorem alike_symm (h : List.Forall₂ (BatchChange.Alike spec) changes changes') :
    List.Forall₂ (BatchChange.Alike spec) changes' changes :=
  (h.imp fun _ _ halike => halike.symm).flip

theorem exists_of_mem_alike (h : List.Forall₂ (BatchChange.Alike spec) changes changes')
    (hchange : change ∈ changes) : ∃ change' ∈ changes', change.Alike spec change' := by
  induction h with
  | nil => cases hchange
  | cons halike _ ih =>
      rcases List.mem_cons.1 hchange with rfl | hmem
      · exact ⟨_, List.mem_cons_self, halike⟩
      · obtain ⟨change', hchange', halike'⟩ := ih hmem
        exact ⟨change', List.mem_cons_of_mem _ hchange', halike'⟩

theorem exists_insert_of_alike (h : List.Forall₂ (BatchChange.Alike spec) changes changes')
    {row : RawRecord} (hrow : .insert row ∈ changes) :
    ∃ other, .insert other ∈ changes' ∧ row.Alike spec other := by
  obtain ⟨change', hchange', halike⟩ := exists_of_mem_alike h hrow
  cases halike with
  | insert halike => exact ⟨_, hchange', halike⟩

theorem map_key_alike (h : List.Forall₂ (BatchChange.Alike spec) changes changes') :
    changes'.map BatchChange.key = changes.map BatchChange.key := by
  induction h with
  | nil => rfl
  | cons halike _ ih => rw [List.map_cons, List.map_cons, halike.key, ih]

theorem insertedKeys_alike (h : List.Forall₂ (BatchChange.Alike spec) changes changes') :
    insertedKeys changes' = insertedKeys changes := by
  induction h with
  | nil => rfl
  | cons halike _ ih =>
      rw [insertedKeys, insertedKeys] at ih ⊢
      rw [List.filter_cons, List.filter_cons, halike.isInsert]
      split_ifs
      · rw [List.map_cons, List.map_cons, halike.key, ih]
      · exact ih

theorem BatchChange.Alike.applyTo (h : change.Alike spec change') (hrows : rows.Alike spec rows') :
    (change.applyTo rows).Alike spec (change'.applyTo rows') := by
  intro key
  rw [get?_applyTo, get?_applyTo, h.key]
  split_ifs
  · exact h.row
  · exact hrows key

theorem applied_alike (h : List.Forall₂ (BatchChange.Alike spec) changes changes')
    (hrows : rows.Alike spec rows') : (applied rows changes).Alike spec (applied rows' changes') := by
  induction h generalizing rows rows' with
  | nil => exact hrows
  | cons halike _ ih => exact ih (halike.applyTo hrows)

theorem AdmissibleUpToBlank.alike (h : change.Alike spec change')
    (hadmissible : AdmissibleUpToBlank spec rows change) :
    AdmissibleUpToBlank spec rows change' := by
  cases h with
  | insert halike =>
      obtain ⟨hnew, hinput⟩ := hadmissible
      refine ⟨by rw [halike.key, hnew], fun rule hrule => ?_⟩
      rw [halike.tableId] at hrule
      rw [halike.value]
      exact hinput rule hrule
  | replace halike =>
      obtain ⟨old, hold, hhistory⟩ := hadmissible
      refine ⟨old, by rw [halike.key, hold], fun rule hrule => ?_⟩
      rw [halike.tableId] at hrule
      rw [halike.value, halike.value]
      exact hhistory rule hrule
  | delete tableId recordId => exact hadmissible

/-- A row keeps what a stored row has exactly when it is the same up to blanks and leaves out
nothing that the stored row has. -/
theorem get?_eq_iff_value {row old : RawRecord} {field : FieldId} {stored : Value}
    (hstored : old.values.get? field = some stored) :
    row.values.get? field = old.values.get? field ↔
      row.values.get? field ≠ none ∧ row.value field = old.value field := by
  unfold RawRecord.value
  rw [hstored]
  cases row.values.get? field with
  | none => simp
  | some found => simp

theorem isEmpty_value_iff {row : RawRecord} {field : FieldId} :
    (row.value field).isEmpty = true ↔
      ∀ value, row.values.get? field = some value → value.isEmpty = true := by
  unfold RawRecord.value
  cases row.values.get? field with
  | none => simp [Value.isEmpty]
  | some found => simp

theorem declared_of_rule (hspec : WellFormed spec) {table : TableId} {rule : CaptureRule}
    (hrule : rule ∈ spec.rulesOf table) :
    (∃ f, spec.field table rule.capturedPriceField = some f) ∧
      ∃ f, spec.field table rule.productRefField = some f := by
  obtain ⟨f, hf, -⟩ := captured_money hspec hrule
  obtain ⟨hmem, rfl⟩ := mem_rulesOf.1 hrule
  obtain ⟨product, haccepted⟩ := hspec.captures rule hmem
  obtain ⟨field, hfield, -⟩ := Option.map_eq_some_iff.1 haccepted.reference
  exact ⟨⟨f, hf⟩, field, hfield⟩

end AlikeBatches

namespace RelationStore

variable {store : RelationStore} {changes changes' : List BatchChange}

theorem get?_stored {key : RecordKey} {row : RawRecord}
    (hrow : store.records.rows.get? key = some row) {field : FieldId}
    (hfield : ∃ f, store.spec.definition.field row.tableId field = some f) :
    ∃ value, row.values.get? field = some value := by
  obtain ⟨hmem, -⟩ := (get?_rows store.validFacts.keys).1 hrow
  have hnormal := ((normalized_eq_self_iff store.validFacts.keys).1 store.normalized_records).2
    row hmem
  rw [← hnormal, get?_normalize (wellFormed store.spec),
    if_pos (Option.isSome_iff_exists.2 hfield)]
  exact ⟨_, rfl⟩

/-- A replaced line keeps the history of the stored one exactly when it does so up to blanks and
leaves none of it out. -/
theorem keeps_iff {row old : RawRecord} (hold : store.records.rows.get? row.key = some old)
    {rule : CaptureRule} (hrule : rule ∈ store.spec.definition.rulesOf row.tableId) :
    (row.values.get? rule.capturedPriceField = old.values.get? rule.capturedPriceField ∧
        row.values.get? rule.productRefField = old.values.get? rule.productRefField) ↔
      (row.value rule.capturedPriceField = old.value rule.capturedPriceField ∧
        row.value rule.productRefField = old.value rule.productRefField) ∧
      row.values.get? rule.capturedPriceField ≠ none ∧
        row.values.get? rule.productRefField ≠ none := by
  have hkey : old.key = row.key := keyed_rows store.validFacts.keys _ _ hold
  rw [← (key_eq_key_iff.1 hkey).1] at hrule
  obtain ⟨hprice, hproduct⟩ := declared_of_rule (wellFormed store.spec) hrule
  obtain ⟨price, hprice⟩ := store.get?_stored hold hprice
  obtain ⟨product, hproduct⟩ := store.get?_stored hold hproduct
  rw [get?_eq_iff_value hprice, get?_eq_iff_value hproduct]
  tauto

theorem admissible_iff {change : BatchChange} :
    Admissible store.spec.definition store.records.rows change ↔
      AdmissibleUpToBlank store.spec.definition store.records.rows change ∧
        WritesHistory store.spec.definition [change] := by
  cases change with
  | insert row =>
      simp only [Admissible, AdmissibleUpToBlank, isEmpty_value_iff, iff_self_and]
      intro _ other hother
      cases List.mem_singleton.1 hother
  | replace row =>
      simp only [Admissible, AdmissibleUpToBlank]
      constructor
      · rintro ⟨old, hold, hhistory⟩
        refine ⟨⟨old, hold, fun rule hrule => ((keeps_iff hold hrule).1 (hhistory rule hrule)).1⟩, ?_⟩
        intro other hother rule hrule
        obtain rfl : other = row := by simpa using hother
        exact ((keeps_iff hold hrule).1 (hhistory rule hrule)).2
      · rintro ⟨⟨old, hold, hhistory⟩, hwrites⟩
        exact ⟨old, hold, fun rule hrule => (keeps_iff hold hrule).2
          ⟨hhistory rule hrule, hwrites row List.mem_cons_self rule hrule⟩⟩
  | delete tableId recordId =>
      simp only [Admissible, AdmissibleUpToBlank, iff_self_and]
      intro _ other hother
      cases List.mem_singleton.1 hother

/-- What is meant by a batch when an absent value is a blank: it is small enough, every change may
be made, the temporary price is allowed and the intended result is valid. -/
structure AcceptableUpToBlank (store : RelationStore) (changes : List BatchChange) : Prop where
  count : changes.length ≤ maxBatch
  keys : (changes.map BatchChange.key).Nodup
  each : ∀ change ∈ changes,
    AdmissibleUpToBlank store.spec.definition store.records.rows change
  placeholder : AdmitsPlaceholder store changes
  intended : IntendedValid store changes

theorem applyBatch_fst_eq_ok_iff_acceptable :
    (store.applyBatch changes).1 = .ok () ↔
      AcceptableUpToBlank store changes ∧ WritesHistory store.spec.definition changes := by
  rw [applyBatch_fst_eq_ok_iff]
  constructor
  · rintro ⟨records, haccepts⟩
    have hcount : changes.length ≤ maxBatch := by
      have hincoming := haccepts.incoming
      simp only [checkIncoming, bind_eq_ok, rejectIf_eq_ok, gt_iff_lt, not_lt] at hincoming
      exact hincoming.choose_spec.1
    have heach := fun change hchange => admissible_iff.1 (haccepts.shaped.each change hchange)
    refine ⟨⟨hcount, haccepts.shaped.keys, fun change hchange => (heach change hchange).1,
      haccepts.admitsPlaceholder, _, haccepts.isFinal, _, haccepts.final⟩, fun row hrow => ?_⟩
    exact (heach _ hrow).2 row List.mem_cons_self
  · rintro ⟨hacceptable, hwrites⟩
    refine accepts_of_intendedValid hacceptable.count
      ⟨hacceptable.keys, fun change hchange => admissible_iff.2
        ⟨hacceptable.each change hchange, fun row hrow => ?_⟩⟩
      hacceptable.placeholder hacceptable.intended
    obtain rfl := List.mem_singleton.1 hrow
    exact hwrites row hchange

theorem finalRows_alike
    (h : List.Forall₂ (BatchChange.Alike store.spec.definition) changes changes') :
    (store.finalRows changes).Alike store.spec.definition (store.finalRows changes') := by
  have happlied : (store.appliedRows changes).Alike store.spec.definition
      (store.appliedRows changes') := applied_alike h (.refl _ _)
  intro key
  rw [finalRows, finalRows, get?_updateAt, get?_updateAt, insertedKeys_alike h]
  cases hrow : (store.appliedRows changes).get? key with
  | some row =>
      obtain ⟨other, hother, halike⟩ := happlied.exists_of_get? hrow
      rw [hother, Option.map_some, Option.map_some]
      split_ifs
      · exact .some (halike.capturedIn (wellFormed store.spec) happlied)
      · exact .some halike
  | none =>
      have hkey := happlied key
      rw [hrow] at hkey
      cases hother : (store.appliedRows changes').get? key with
      | none => exact .none
      | some other =>
          rw [hother] at hkey
          cases hkey

theorem HasPrices.alike
    (h : List.Forall₂ (BatchChange.Alike store.spec.definition) changes changes')
    (hprices : store.HasPrices changes) : store.HasPrices changes' := by
  intro other hother rule hrule
  obtain ⟨row, hrow, halike⟩ := exists_insert_of_alike (alike_symm h) hother
  rw [← halike.tableId] at hrule
  obtain ⟨price, hprice⟩ := hprices row hrow rule hrule
  have happlied : (store.appliedRows changes).Alike store.spec.definition
      (store.appliedRows changes') := applied_alike h (.refl _ _)
  exact ⟨price, happlied.priceIn_eq_some halike.symm hprice⟩

/-- Alike batches are acceptable together, up to blanks. -/
theorem AcceptableUpToBlank.alike
    (h : List.Forall₂ (BatchChange.Alike store.spec.definition) changes changes')
    (hacceptable : AcceptableUpToBlank store changes) : AcceptableUpToBlank store changes' := by
  have hkeys : (changes'.map BatchChange.key).Nodup := by
    rw [map_key_alike h]
    exact hacceptable.keys
  refine ⟨h.length_eq ▸ hacceptable.count, hkeys, fun change' hchange' => ?_,
    fun other hother rule hrule constraint hconstraint htable hfield => ?_, ?_⟩
  · obtain ⟨change, hchange, halike⟩ := exists_of_mem_alike (alike_symm h) hchange'
    exact (hacceptable.each change hchange).alike halike.symm
  · obtain ⟨row, hrow, halike⟩ := exists_insert_of_alike (alike_symm h) hother
    rw [← halike.tableId] at hrule htable
    exact hacceptable.placeholder row hrow rule hrule constraint hconstraint htable hfield
  · obtain ⟨final, hfinal, checked, hchecked⟩ := hacceptable.intended
    obtain ⟨hprices, rfl⟩ := (isFinal_iff hacceptable.keys).1 hfinal
    exact ⟨_, (isFinal_iff hkeys).2 ⟨hprices.alike h, rfl⟩, checked,
      (finalRows_alike h).validateRecords (wellFormed store.spec) (store.keyed_finalRows changes)
        (store.keyed_finalRows changes') hchecked⟩

/-- Both batches are accepted, with the same records, or neither is. -/
def SameOutcome (store : RelationStore) (changes changes' : List BatchChange) : Prop :=
  ((store.applyBatch changes').1 = .ok () ↔ (store.applyBatch changes).1 = .ok ()) ∧
    ((store.applyBatch changes).1 = .ok () → (store.applyBatch changes').1 = .ok () →
      (store.applyBatch changes').2.records = (store.applyBatch changes).2.records)

theorem records_alike
    (h : List.Forall₂ (BatchChange.Alike store.spec.definition) changes changes')
    (hok : (store.applyBatch changes).1 = .ok ()) (hok' : (store.applyBatch changes').1 = .ok ()) :
    (store.applyBatch changes').2.records = (store.applyBatch changes).2.records := by
  rcases store.applyBatch_cases changes with ⟨next, heq, -, hfinal⟩ | ⟨halt, heq, -⟩
  · rcases store.applyBatch_cases changes' with ⟨next', heq', -, hfinal'⟩ | ⟨halt, heq', -⟩
    · have hrecords := (finalRecords_eq_ok_iff.1 hfinal).final
      have hrecords' := (finalRecords_eq_ok_iff.1 hfinal').final
      have hsame := (finalRows_alike h).validateRecords (wellFormed store.spec)
        (store.keyed_finalRows changes) (store.keyed_finalRows changes') hrecords
      rw [heq, heq']
      exact Except.ok.inj (hrecords'.symm.trans hsame)
    · rw [heq'] at hok'
      cases hok'
  · rw [heq] at hok
    cases hok

/-- A blank and an absent value in a batch come to the same, unless the batch would be accepted
and it is by them that one of the two leaves out the captured price or the product of a replaced
line. -/
theorem sameOutcome_iff (store : RelationStore) (changes changes' : List BatchChange)
    (h : List.Forall₂ (BatchChange.Alike store.spec.definition) changes changes') :
    SameOutcome store changes changes' ↔
      (AcceptableUpToBlank store changes →
        (WritesHistory store.spec.definition changes ↔
          WritesHistory store.spec.definition changes')) := by
  have hacceptable : AcceptableUpToBlank store changes' ↔ AcceptableUpToBlank store changes :=
    ⟨AcceptableUpToBlank.alike (alike_symm h), AcceptableUpToBlank.alike h⟩
  have hverdict : ((store.applyBatch changes').1 = .ok () ↔ (store.applyBatch changes).1 = .ok ()) ↔
      (AcceptableUpToBlank store changes → (WritesHistory store.spec.definition changes ↔
        WritesHistory store.spec.definition changes')) := by
    rw [applyBatch_fst_eq_ok_iff_acceptable, applyBatch_fst_eq_ok_iff_acceptable, hacceptable,
      and_congr_right_iff]
    exact imp_congr_right fun _ => iff_comm
  rw [SameOutcome, hverdict]
  exact and_iff_left (records_alike h)

/-- An order without notes, with a blank and without a value. -/
theorem sameOutcome_iff_draftShop :
    SameOutcome draftShop [.insert (draftOrder ⟨"rec_q", by decide⟩ "b")]
      [.insert { draftOrder ⟨"rec_q", by decide⟩ "b" with
        values := (draftOrder ⟨"rec_q", by decide⟩ "b").values.erase ⟨"fld_on", by decide⟩ }] := by
  refine (sameOutcome_iff draftShop _ _ (.cons (.insert (.erase (Option.isSome_iff_exists.1
    (by decide +kernel)) (by decide +kernel))) .nil)).2 fun _ => iff_of_true ?_ ?_
  · intro row hrow
    cases List.mem_singleton.1 hrow
  · intro row hrow
    cases List.mem_singleton.1 hrow

def blankLine : RawRecord :=
  shopLine recL recO recP .blank

def lineWithoutPrice : RawRecord :=
  { blankLine with values := blankLine.values.erase fldLx }

/-- The shop with the line. -/
def blankShop : RelationStore :=
  ⟨shopSpec, ⟨shopScope, [blankLine, draftOrder recO "a",
    shopProduct recP shopPrice]⟩,
    [blankLine, draftOrder recO "a",
      shopProduct recP shopPrice], by decide +kernel⟩

/-- The line may be replaced by itself, and not by itself without the blank. -/
theorem not_sameOutcome : ¬ ∀ (spec : CheckedAppSpec) (snapshot : CheckedRecords)
    (store : RelationStore), fromCheckedSnapshot spec snapshot = .ok store →
    ∀ (batches : List (List BatchChange)) (changes changes' : List BatchChange),
      List.Forall₂ (BatchChange.Alike spec.definition) changes changes' →
      checkIncoming changes = .ok () → checkIncoming changes' = .ok () →
        SameOutcome (store.run batches) changes changes' := by
  intro hall
  have hopen : fromCheckedSnapshot shopSpec blankShop.records = .ok blankShop :=
    ofRecords_eq_ok_iff.2 ⟨rfl, by decide +kernel⟩
  obtain ⟨records, hrecords⟩ := exists_eq_ok (x := blankShop.finalRecords [.replace blankLine])
    (by decide +kernel)
  have haccepts := finalRecords_eq_ok_iff.1 hrecords
  obtain ⟨⟨⟩, hincoming⟩ := exists_eq_ok (x := checkIncoming [.replace lineWithoutPrice])
    (by decide +kernel)
  have halike : blankLine.Alike shopDefinition lineWithoutPrice :=
    .erase (Option.isSome_iff_exists.1 (by decide +kernel)) (by decide +kernel)
  have hsame : SameOutcome blankShop [.replace blankLine] [.replace lineWithoutPrice] :=
    hall shopSpec blankShop.records blankShop hopen [] _ _ (.cons (.replace halike) .nil)
      haccepts.incoming hincoming
  obtain ⟨others, hothers⟩ :=
    applyBatch_fst_eq_ok_iff.1 (hsame.1.2 (applyBatch_fst_eq_ok_iff.2 ⟨_, haccepts⟩))
  have hrefused : (blankShop.finalRecords [.replace lineWithoutPrice]).toBool = false := by
    decide +kernel
  rw [finalRecords_eq_ok_iff.2 hothers] at hrefused
  cases hrefused

end RelationStore

end Evobase
