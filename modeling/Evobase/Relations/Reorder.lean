import Evobase.Relations.Placeholder

/-!
# Batches up to order

A batch touches a key at most once, so its changes do not see each other: what they leave
of the rows, the lines that capture prices and the records that must not be referred to
depend on the set of the changes only (`Accepts.reorder`). The order of a batch decides
neither its verdict nor its result (`applyBatch_reorder`).
-/

namespace Evobase

open Foundation

section Reorder

variable {rows : Rows} {changes changes' : List BatchChange}

theorem map_key_perm (h : changes.Perm changes') :
    (changes.map BatchChange.key).Perm (changes'.map BatchChange.key) := h.map _

theorem applied_reorder (h : changes.Perm changes')
    (hkeys : (changes.map BatchChange.key).Nodup) : applied rows changes' = applied rows changes := by
  have hkeys' : (changes'.map BatchChange.key).Nodup := (map_key_perm h).nodup_iff.1 hkeys
  refine OrdMap.ext_get? fun key => ?_
  by_cases hkey : key ∈ changes.map BatchChange.key
  · obtain ⟨change, hchange, rfl⟩ := List.mem_map.1 hkey
    rw [get?_applied_of_mem hkeys' (h.mem_iff.1 hchange), get?_applied_of_mem hkeys hchange]
  · have hkey' : key ∉ changes'.map BatchChange.key := fun hmem =>
      hkey ((map_key_perm h).mem_iff.2 hmem)
    rw [get?_applied_of_not_mem hkey', get?_applied_of_not_mem hkey]

theorem mem_insertedKeys_reorder (h : changes.Perm changes') (key : RecordKey) :
    key ∈ insertedKeys changes' ↔ key ∈ insertedKeys changes :=
  ((h.filter BatchChange.isInsert).map BatchChange.key).mem_iff.symm

theorem mem_deletedKeys_reorder (h : changes.Perm changes') (key : RecordKey) :
    key ∈ deletedKeys changes' ↔ key ∈ deletedKeys changes :=
  ((h.filter BatchChange.isDelete).map BatchChange.key).mem_iff.symm

theorem updateAt_reorder {keys keys' : List RecordKey} (h : ∀ key, key ∈ keys' ↔ key ∈ keys)
    (f : RawRecord → RawRecord) : rows.updateAt keys' f = rows.updateAt keys f := by
  refine OrdMap.ext_get? fun key => ?_
  rw [get?_updateAt, get?_updateAt]
  simp only [h key]

theorem checkIncoming_reorder (h : changes.Perm changes') (hcheck : checkIncoming changes = .ok ()) :
    checkIncoming changes' = .ok () := by
  have hrows : (changes.filterMap BatchChange.row).Perm (changes'.filterMap BatchChange.row) :=
    h.filterMap _
  simp only [checkIncoming, bind_eq_ok, rejectIf_eq_ok, Exec.ofExcept_eq_ok, each_eq_ok_iff,
    rejectAny_eq_ok, boundedEncode_eq_ok_iff (exact_recordsToJson _)] at hcheck ⊢
  obtain ⟨⟨⟩, hcount, _, ⟨hfits, -⟩, hshort⟩ := hcheck
  refine ⟨(), by rwa [← h.length_eq], _, ⟨hfits.of_perm (hrows.map _), rfl⟩, fun row hrow => ?_⟩
  exact hshort row (hrows.mem_iff.2 hrow)

theorem WellShaped.reorder {spec : RawAppSpec} (h : changes.Perm changes')
    (hshaped : WellShaped spec rows changes) : WellShaped spec rows changes' where
  keys := (map_key_perm h).nodup_iff.1 hshaped.keys
  each change hchange := hshaped.each change (h.mem_iff.2 hchange)

end Reorder

namespace RelationStore

variable {store : RelationStore} {changes changes' : List BatchChange} {records : CheckedRecords}

theorem appliedRows_reorder (h : changes.Perm changes')
    (hkeys : (changes.map BatchChange.key).Nodup) :
    store.appliedRows changes' = store.appliedRows changes :=
  applied_reorder h hkeys

theorem finalRows_reorder (h : changes.Perm changes')
    (hkeys : (changes.map BatchChange.key).Nodup) :
    store.finalRows changes' = store.finalRows changes := by
  rw [finalRows, finalRows, appliedRows_reorder h hkeys,
    updateAt_reorder (mem_insertedKeys_reorder h)]

theorem graphRows_reorder (h : changes.Perm changes')
    (hkeys : (changes.map BatchChange.key).Nodup) :
    store.graphRows changes' = store.graphRows changes := by
  rw [graphRows, graphRows, appliedRows_reorder h hkeys,
    updateAt_reorder (mem_insertedKeys_reorder h)]

/-- A batch is accepted in every order, with the same records. -/
theorem Accepts.reorder (h : changes.Perm changes') (haccepts : store.Accepts changes records) :
    store.Accepts changes' records := by
  have hkeys := haccepts.shaped.keys
  refine ⟨checkIncoming_reorder h haccepts.incoming, haccepts.shaped.reorder h,
    fun key hkey => ?_, ?_, fun row hrow rule hrule => ?_, ?_⟩
  · rw [appliedRows_reorder h hkeys]
    exact haccepts.kept key ((mem_deletedKeys_reorder h key).1 hkey)
  · rw [graphRows_reorder h hkeys]
    exact haccepts.graph
  · rw [appliedRows_reorder h hkeys]
    exact haccepts.prices row (h.mem_iff.2 hrow) rule hrule
  · rw [finalRows_reorder h hkeys]
    exact haccepts.final

theorem finalRecords_reorder (h : changes.Perm changes') :
    store.finalRecords changes = .ok records ↔ store.finalRecords changes' = .ok records := by
  rw [finalRecords_eq_ok_iff, finalRecords_eq_ok_iff]
  exact ⟨Accepts.reorder h, Accepts.reorder h.symm⟩

/-- A batch is a set: its changes in another order are accepted exactly when the batch is, and
then they leave the same records. -/
theorem applyBatch_reorder (store : RelationStore) (changes changes' : List BatchChange)
    (h : changes.Perm changes') :
    ((store.applyBatch changes').1 = .ok () ↔ (store.applyBatch changes).1 = .ok ()) ∧
      (store.applyBatch changes').2.records = (store.applyBatch changes).2.records := by
  rcases store.applyBatch_cases changes with ⟨next, heq, -, hfinal⟩ | ⟨halt, heq, hfinal⟩ <;>
    rcases store.applyBatch_cases changes' with ⟨next', heq', -, hfinal'⟩ | ⟨halt', heq', hfinal'⟩ <;>
    rw [heq, heq']
  · refine ⟨Iff.rfl, Except.ok.inj (hfinal'.symm.trans ((finalRecords_reorder h).1 hfinal))⟩
  · rw [(finalRecords_reorder h).1 hfinal] at hfinal'
    cases hfinal'
  · rw [(finalRecords_reorder h).2 hfinal'] at hfinal
    cases hfinal
  · exact ⟨by simp, rfl⟩

/-- A product is deleted and an order inserted, in either order. -/
theorem applyBatch_reorder_draftShop :
    ((draftShop.applyBatch [.insert (draftOrder ⟨"rec_q", by decide⟩ "b"),
          .delete ⟨"tbl_p", by decide⟩ ⟨"rec_p", by decide⟩]).1 = .ok () ↔
        (draftShop.applyBatch [.delete ⟨"tbl_p", by decide⟩ ⟨"rec_p", by decide⟩,
          .insert (draftOrder ⟨"rec_q", by decide⟩ "b")]).1 = .ok ()) ∧
      (draftShop.applyBatch [.insert (draftOrder ⟨"rec_q", by decide⟩ "b"),
          .delete ⟨"tbl_p", by decide⟩ ⟨"rec_p", by decide⟩]).2.records =
        (draftShop.applyBatch [.delete ⟨"tbl_p", by decide⟩ ⟨"rec_p", by decide⟩,
          .insert (draftOrder ⟨"rec_q", by decide⟩ "b")]).2.records :=
  applyBatch_reorder draftShop _ _ (List.Perm.swap _ _ [])

end RelationStore

end Evobase
