import Evobase.Relations.Final

/-!
# What holds in every state of a store

The records of a store are a fixed point of validation, so they are in key order and every
reference is live (`Coherent`). A line that stays keeps its captured prices and its products
(`CapturesKept`).
-/

namespace Evobase

open Foundation

/-- The records are in key order, their references are live, and they validate to
themselves. -/
structure Coherent (spec : RawAppSpec) (facts : CheckedRecords) : Prop where
  references : ∀ row ∈ facts.records, ∀ field reference,
    row.values.get? field = some (.ref reference) →
      reference.scope = facts.scope ∧
      (∃ f, spec.field row.tableId field = some f ∧ f.fieldType = .ref reference.tableId) ∧
      ∃ target ∈ facts.records,
        target.tableId = reference.tableId ∧ target.id = reference.recordId
  sorted : facts.records.Pairwise fun a b => a.key < b.key
  fixed : validateRecords spec facts.scope facts.records = .ok facts

/-- A line that is in both lists has the same captured price and the same product. -/
def CapturesKept (spec : RawAppSpec) (before after : CheckedRecords) : Prop :=
  ∀ rule ∈ spec.captureRules, ∀ line ∈ before.records, line.tableId = rule.lineTable →
    ∀ next ∈ after.records, next.key = line.key →
      next.values.get? rule.capturedPriceField = line.values.get? rule.capturedPriceField ∧
      next.values.get? rule.productRefField = line.values.get? rule.productRefField

theorem ValidRecord.validValue {spec : RawAppSpec} {scope : Scope} {records : List RawRecord}
    {row : RawRecord} (h : ValidRecord spec scope records row) {field : FieldId} {value : Value}
    (hvalue : row.values.get? field = some value) :
    ∃ f, spec.field row.tableId field = some f ∧ ValidValue scope records f value := by
  obtain ⟨f, hf⟩ := h.declared field (OrdMap.mem_keys_iff.2 ⟨_, hvalue⟩)
  obtain ⟨table, htable, hvalues⟩ := h.table
  obtain ⟨t, ht, hmem, rfl⟩ := RawAppSpec.field_some hf
  obtain rfl : table = t := Option.some.inj (htable.symm.trans ht)
  have hvalid := hvalues f hmem
  rw [RawRecord.value, hvalue, Option.getD_some] at hvalid
  exact ⟨f, hf, hvalid⟩

theorem coherent_of_validFor {spec : RawAppSpec} (hspec : WellFormed spec) {facts : CheckedRecords}
    (h : facts.ValidFor spec) : Coherent spec facts := by
  obtain ⟨hvalid, hnormal⟩ := (validFor_iff hspec).1 h
  refine ⟨fun row hrow field reference hreference => ?_, ?_, ?_⟩
  · obtain ⟨f, hf, hvalue⟩ := (hvalid.each row hrow).validValue hreference
    obtain ⟨hscope, htype, htarget⟩ := hvalue.reference reference rfl
    exact ⟨hscope, ⟨f, hf, htype⟩, htarget⟩
  · rw [← hnormal]
    exact pairwise_normalized _ hvalid.keys
  · exact (validateRecords_eq_ok_iff hspec).2 ⟨hvalid, by rw [hnormal]⟩

namespace RelationStore

variable {store : RelationStore} {changes : List BatchChange} {records : CheckedRecords}

/-- A record of the store that a batch leaves is not among the inserted ones, so the batch
leaves it as the changes do. -/
theorem Accepts.get?_appliedRows (h : store.Accepts changes records) {line row : RawRecord}
    (hline : line ∈ store.records.records) (hkey : row.key = line.key)
    (hrow : (store.finalRows changes).get? row.key = some row) :
    (store.appliedRows changes).get? row.key = some row := by
  have hfresh : row.key ∉ insertedKeys changes := by
    intro hmem
    obtain ⟨inserted, hinserted, heq⟩ := mem_insertedKeys.1 hmem
    have hnone := (h.shaped.each _ hinserted).1
    rw [heq, hkey, (get?_rows store.validFacts.keys).2 ⟨hline, rfl⟩] at hnone
    cases hnone
  rw [finalRows, get?_updateAt] at hrow
  simpa [hfresh] using hrow

/-- A batch keeps the captured values of the lines it does not insert. -/
theorem Accepts.captures_kept (h : store.Accepts changes records) {line row : RawRecord}
    (hline : line ∈ store.records.records) (hkey : row.key = line.key)
    (hrow : (store.finalRows changes).get? row.key = some row) {rule : CaptureRule}
    (hrule : rule ∈ store.spec.definition.rulesOf line.tableId) :
    row.values.get? rule.capturedPriceField = line.values.get? rule.capturedPriceField ∧
      row.values.get? rule.productRefField = line.values.get? rule.productRefField := by
  have hget := (get?_rows store.validFacts.keys).2 ⟨hline, rfl⟩
  have happlied := h.get?_appliedRows hline hkey hrow
  by_cases htouched : row.key ∈ changes.map BatchChange.key
  · obtain ⟨change, hchange, hchangeKey⟩ := List.mem_map.1 htouched
    rw [← hchangeKey, appliedRows, get?_applied_of_mem h.shaped.keys hchange] at happlied
    have hadmissible := h.shaped.each change hchange
    cases change with
    | insert new =>
        obtain rfl := Option.some.inj happlied
        rw [Admissible, hkey, hget] at hadmissible
        cases hadmissible.1
    | replace new =>
        obtain rfl := Option.some.inj happlied
        obtain ⟨old, hold, hhistory⟩ := hadmissible
        rw [hkey, hget] at hold
        obtain rfl := Option.some.inj hold
        rw [← (key_eq_key_iff.1 hkey).1] at hrule
        exact hhistory rule hrule
    | delete tableId recordId => cases happlied
  · rw [appliedRows, get?_applied_of_not_mem htouched, hkey, hget] at happlied
    obtain rfl := Option.some.inj happlied
    exact ⟨rfl, rfl⟩

theorem capturesKept_finalRecords (h : store.finalRecords changes = .ok records) :
    CapturesKept store.spec.definition store.records records := by
  have hspec := wellFormed store.spec
  have haccepts := finalRecords_eq_ok_iff.1 h
  obtain ⟨-, rfl⟩ := (validateRecords_eq_ok_iff hspec).1 haccepts.final
  intro rule hrule line hline htable next hnext hkey
  obtain ⟨row, hrow, rfl⟩ := mem_normalized_iff.1 hnext
  rw [normalize_key] at hkey
  have hkept := haccepts.captures_kept hline hkey
    ((store.keyed_finalRows changes).mem_values_iff.1 hrow)
    (mem_rulesOf.2 ⟨hrule, htable.symm⟩)
  have hnormal : line.normalize store.spec.definition = line :=
    ((normalized_eq_self_iff store.validFacts.keys).1 store.normalized_records).2 line hline
  have hsame : ∀ field, row.values.get? field = line.values.get? field →
      (row.normalize store.spec.definition).values.get? field = line.values.get? field := by
    intro field hfield
    rw [← hnormal, get?_normalize hspec, get?_normalize hspec, RawRecord.value, hfield,
      (key_eq_key_iff.1 hkey).1]
    rfl
  exact ⟨hsame _ hkept.1, hsame _ hkept.2⟩

theorem applyBatch_step (store : RelationStore) (changes : List BatchChange) :
    (store.applyBatch changes).2.spec = store.spec ∧
      (store.applyBatch changes).2.records.scope = store.records.scope ∧
      CapturesKept store.spec.definition store.records (store.applyBatch changes).2.records := by
  rcases store.applyBatch_cases changes with ⟨next, heq, hspec, hfinal⟩ | ⟨halt, heq, -⟩
  · rw [heq]
    exact ⟨hspec, (validFor_of_finalRecords hfinal).2, capturesKept_finalRecords hfinal⟩
  · rw [heq]
    refine ⟨rfl, rfl, fun rule hrule line hline htable next hnext hkey => ?_⟩
    obtain rfl : next = line :=
      List.inj_on_of_nodup_map store.validFacts.keys hnext hline hkey
    exact ⟨rfl, rfl⟩

theorem run_step (store : RelationStore) (batches : List (List BatchChange)) :
    (store.run batches).spec = store.spec ∧
      (store.run batches).records.scope = store.records.scope := by
  induction batches generalizing store with
  | nil => exact ⟨rfl, rfl⟩
  | cons changes batches ih =>
      obtain ⟨hspec, hscope, -⟩ := store.applyBatch_step changes
      obtain ⟨hspec', hscope'⟩ := ih (store.applyBatch changes).2
      exact ⟨hspec'.trans hspec, hscope'.trans hscope⟩

/-- In every state that batches reach from a checked snapshot, the records are coherent; the
next batch keeps the captured prices and the products of the lines it leaves, and it leaves
the store as it is when it is rejected. -/
theorem run_coherent (spec : CheckedAppSpec) (snapshot : CheckedRecords) (store : RelationStore)
    (hopen : fromCheckedSnapshot spec snapshot = .ok store) (batches : List (List BatchChange)) :
    (store.run batches).spec = spec ∧
    (store.run batches).records.scope = snapshot.scope ∧
    Coherent spec.definition (store.run batches).records ∧
    ∀ changes, CapturesKept spec.definition (store.run batches).records
        ((store.run batches).applyBatch changes).2.records ∧
      ∀ halt, ((store.run batches).applyBatch changes).1 = .error halt →
        ((store.run batches).applyBatch changes).2.records = (store.run batches).records := by
  obtain ⟨rfl, hrecords⟩ := ofRecords_eq_ok_iff.1 hopen
  obtain ⟨hspec, hscope⟩ := store.run_step batches
  have hopened : store.records.scope = snapshot.scope := by
    obtain ⟨-, heq⟩ := (validateRecords_eq_ok_iff (wellFormed store.spec)).1 hrecords
    rw [heq]
  have hvalid := (store.run batches).valid
  rw [hspec] at hvalid
  refine ⟨hspec, hscope.trans hopened, coherent_of_validFor (wellFormed store.spec) hvalid,
    fun changes => ⟨?_, fun halt hhalt => ?_⟩⟩
  · have hkept := ((store.run batches).applyBatch_step changes).2.2
    rwa [hspec] at hkept
  · rcases (store.run batches).applyBatch_cases changes with ⟨next, heq, -⟩ | ⟨halt', heq, -⟩
    · rw [heq] at hhalt
      cases hhalt
    · rw [heq]

/-- A line that has captured the price of its product. -/
def stockedShop : CheckedRecords :=
  ⟨shopScope, [shopLine recL recO recP (.money shopPrice), draftOrder recO "a",
    shopProduct recP shopPrice]⟩

def repriceProduct : List BatchChange := [.replace (shopProduct recP I64.one)]

def repricedShop : CheckedRecords :=
  ⟨shopScope, [shopLine recL recO recP (.money shopPrice), draftOrder recO "a",
    shopProduct recP I64.one]⟩

/-- A new price of the product leaves the captured price of the line. -/
theorem run_coherent_shop :
    ∃ store, fromCheckedSnapshot shopSpec stockedShop = .ok store ∧
      (store.applyBatch repriceProduct).2.records = repricedShop ∧
      Coherent shopDefinition (store.run [repriceProduct, [.delete tblP recP]]).records ∧
      CapturesKept shopDefinition store.records (store.applyBatch repriceProduct).2.records := by
  have hrun : ((fromCheckedSnapshot shopSpec stockedShop).map fun store =>
      decide ((store.applyBatch repriceProduct).2.records = repricedShop)).toOption = some true := by
    decide +kernel
  obtain ⟨store, hopen⟩ := exists_eq_ok (x := fromCheckedSnapshot shopSpec stockedShop)
    (by decide +kernel)
  rw [hopen] at hrun
  have hcoherent (batches : List (List BatchChange)) := run_coherent shopSpec stockedShop store
    hopen batches
  have hkept := ((hcoherent []).2.2.2 repriceProduct).1
  rw [show store.run [] = store from rfl] at hkept
  exact ⟨store, hopen, of_decide_eq_true (Option.some.inj hrun), (hcoherent _).2.2.1, hkept⟩

end RelationStore

end Evobase
