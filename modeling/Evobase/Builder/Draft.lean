import Evobase.Relations.Answers
import Evobase.Relations.Blank
import Evobase.Builder.Snapshot

/-!
# Edits of the draft

The texts of the edited cells are parsed together, against the records before the edit, and the
rows they make are given to the relation store as one batch. Either every edit is made, or the
Builder shows why not and keeps the records it had.

A cell that does not parse, or a batch that the store refuses, gives a diagnostic and no records.
What the three entry points of the Builder make of this is in `edits_exact`.
-/

namespace Foundation

/-- Handle the error of a computation. An abort is not handled. -/
def Exec.attempt {ε ε' α : Type} : Exec ε α → Exec ε' (Except ε α)
  | .ok a => .ok (.ok a)
  | .error (.fail error) => .ok (.error error)
  | .error (.panic site) => .error (.panic site)
  | .error .diverge => .error .diverge

theorem answers_attempt {ε ε' α : Type} {post : α → Prop} {x : Exec ε α} (h : Answers post x) :
    Answers (fun result => ∀ a, result = .ok a → x = .ok a)
      (x.attempt : Exec ε' (Except ε α)) := by
  cases x with
  | ok a => exact fun b hb => congrArg Except.ok (Except.ok.inj hb)
  | error halt =>
      obtain ⟨error, rfl⟩ := h
      exact fun b hb => by cases hb

theorem forall_fresh_iff_nodup {α κ : Type} (key : α → κ) {l : List α} :
    (∀ pre a post, l = pre ++ a :: post → key a ∉ pre.map key) ↔ (l.map key).Nodup := by
  constructor
  · intro h
    induction l using List.reverseRecOn with
    | nil => exact List.nodup_nil
    | append_singleton l a ih =>
        have hbefore : (l.map key).Nodup := ih fun pre b post heq =>
          h pre b (post ++ [a]) (by rw [heq, List.append_assoc, List.cons_append])
        rw [List.map_append, List.nodup_append]
        refine ⟨hbefore, List.nodup_singleton _, ?_⟩
        rintro k hk _ hlast rfl
        rw [List.map_singleton, List.mem_singleton] at hlast
        exact h l a [] rfl (hlast ▸ hk)
  · rintro h pre a post rfl
    rw [List.map_append, List.nodup_append] at h
    exact fun hmem => h.2.2 _ hmem _ (by simp) rfl

end Foundation

namespace Evobase.Builder

open Foundation

def tr (vi : Bool) (viText en : String) : String := if vi then viText else en

def diagnostic (error : Error) (vi : Bool) : String :=
  match error with
  | .required _ _ => tr vi "Trường bắt buộc không được để trống hoặc null."
      "Required fields cannot be blank or null."
  | .constraintViolation _ _ _ => tr vi "Giá trị không đáp ứng quy tắc dữ liệu của trường."
      "Value does not satisfy this field's data rule."
  | .invalidConstraint _ _ =>
      tr vi "Quy tắc không tương thích với kiểu trường hoặc giới hạn không hợp lệ."
        "The rule is incompatible with the field type or its bounds are invalid."
  | .ambiguousReference _ _ => tr vi "Tên liên kết trùng lặp. Chọn định danh bản ghi rõ ràng."
      "Reference label is ambiguous. Enter an explicit record identity."
  | .missingReference _ _ => tr vi "Không tìm thấy bản ghi liên kết trong bảng đích."
      "No matching record in the target table."
  | .invalidCell expected _ | .wrongType _ _ expected =>
      tr vi "Kiểu dữ liệu cần nhập:" "Expected input type:" ++ " " ++ expected ++ "."
  | .overflow _ => tr vi "Giá trị vượt giới hạn số nguyên 64 bit."
      "Value exceeds the signed 64-bit range."
  | .limitExceeded _ limit =>
      tr vi "Vượt giới hạn:" "Limit exceeded:" ++ " " ++ toString limit ++ "."
  | _ => tr vi "Dữ liệu không hợp lệ theo AppSpec. Xem chi tiết kỹ thuật."
      "Data does not satisfy the AppSpec. See technical details."

def relationDiagnostic (error : RelationError) (vi : Bool) : String :=
  match error with
  | .kernel error => diagnostic error vi
  | .captureInputForbidden _ => tr vi "Giá đã chốt được tính khi tạo dòng; để trống cột này."
      "Captured prices are derived when creating a line; leave this column empty."
  | .capturedValueImmutable _ => tr vi "Không thể sửa giá lịch sử đã chốt."
      "Captured historical prices cannot be edited."
  | .capturedReferenceImmutable _ => tr vi "Tạo dòng mới để chọn sản phẩm khác."
      "Create a new line to choose another product."
  | .captureSourceInvalid _ => tr vi "Nguồn giá không có giá trị tiền hợp lệ."
      "The capture source has no valid money value."
  | .batchLimit => tr vi "Số thay đổi vượt giới hạn của một lượt kiểm tra."
      "Too many changes in one checked batch."
  | _ =>
      tr vi "Thay đổi không hợp lệ với các liên kết của bản nháp. Dữ liệu trước đó được giữ nguyên."
        "This change does not satisfy the draft relation rules. Prior data is preserved."

abbrev Buffers := OrdMap String String

def cellKey (table : TableId) (record : RecordId) (field : FieldId) : String :=
  table.text ++ "/" ++ record.text ++ "/" ++ field.text

def rowsOf (records : List RawRecord) : Rows := .ofList (records.map fun row => (row.key, row))

/-- One row of the draft against the row it had, with the keys that were visited. -/
def visitRow (original : Rows) (state : List RecordKey × List BatchChange) (row : RawRecord) :
    Exec RelationError (List RecordKey × List BatchChange) := do
  rejectIf (row.key ∈ state.1) (.fail (.duplicateMutation row.tableId row.id))
  let seen := state.1 ++ [row.key]
  match original.get? row.key with
  | some old => if old = row then .ok (seen, state.2) else .ok (seen, state.2 ++ [.replace row])
  | none => .ok (seen, state.2 ++ [.insert row])

/-- The draft goes through the batches of a relation store that starts from the old records. -/
def applyDraftChanges (checked : CheckedAppSpec) (scope : Scope) (before next : List RawRecord) :
    Exec RelationError (List RawRecord) := do
  let history ← Exec.lift .kernel (validateRecords checked.definition scope before)
  let store ← RelationStore.fromCheckedSnapshot checked history
  let original := rowsOf before
  let (seen, changes) ← next.foldlM (visitRow original) ([], [])
  let removed := (original.keys.filter (· ∉ seen)).map fun key =>
    BatchChange.delete (ofLex key).1 (ofLex key).2
  let (result, store) := store.applyBatch (changes ++ removed)
  let _ ← result
  .ok store.records.toRaw

section Changes

variable {original : Rows} {before next : List RawRecord}

/-- The change that makes a row of the draft. -/
def changeOf (original : Rows) (row : RawRecord) : Option BatchChange :=
  match original.get? row.key with
  | some old => if old = row then none else some (.replace row)
  | none => some (.insert row)

def draftChanges (before next : List RawRecord) : List BatchChange :=
  next.filterMap (changeOf (rowsOf before)) ++
    ((rowsOf before).keys.filter (· ∉ next.map RawRecord.key)).map fun key =>
      .delete (ofLex key).1 (ofLex key).2

theorem visitRow_eq_ok_iff {pre : List RawRecord} {row : RawRecord}
    {out : List RecordKey × List BatchChange} :
    visitRow original (pre.map RawRecord.key, pre.filterMap (changeOf original)) row = .ok out ↔
      row.key ∉ pre.map RawRecord.key ∧
        out = ((pre ++ [row]).map RawRecord.key, (pre ++ [row]).filterMap (changeOf original)) := by
  rw [visitRow, rejectIf_bind_eq_ok, List.map_append, List.filterMap_append]
  refine and_congr_right fun _ => ?_
  cases hold : original.get? row.key with
  | none => simp [changeOf, hold, eq_comm]
  | some old =>
      by_cases hsame : old = row
      · simp [changeOf, hold, hsame, eq_comm]
      · simp [changeOf, hold, hsame, eq_comm]

theorem foldlM_visitRow_eq_ok_iff {out : List RecordKey × List BatchChange} :
    next.foldlM (visitRow original) ([], []) = .ok out ↔
      (next.map RawRecord.key).Nodup ∧
        out = (next.map RawRecord.key, next.filterMap (changeOf original)) := by
  have hfold := foldlM_eq_ok_iff
    (fun pre : List RawRecord => (pre.map RawRecord.key, pre.filterMap (changeOf original)))
    (fun pre row => row.key ∉ pre.map RawRecord.key) (l := next) (b := out)
    (f := visitRow original) fun pre row post _ b => visitRow_eq_ok_iff
  rw [show (([], []) : List RecordKey × List BatchChange) =
    (([] : List RawRecord).map RawRecord.key, ([] : List RawRecord).filterMap (changeOf original))
    from rfl, hfold, forall_fresh_iff_nodup]

/-- A draft is accepted when its keys are different and the store accepts its changes. -/
theorem applyDraftChanges_eq_ok_iff {checked : CheckedAppSpec} {scope : Scope}
    {history : CheckedRecords}
    (hbefore : validateRecords checked.definition scope before = .ok history)
    {rows : List RawRecord} :
    applyDraftChanges checked scope before next = .ok rows ↔
      (next.map RawRecord.key).Nodup ∧ ∃ (store : RelationStore) (records : CheckedRecords),
        store.spec = checked ∧ store.records = history ∧
        store.finalRecords (draftChanges before next) = .ok records ∧ rows = records.records := by
  have hagain : validateRecords checked.definition history.scope history.records = .ok history := by
    exact validateRecords_records (wellFormed checked) hbefore
  have hopen : ∀ store : RelationStore, RelationStore.fromCheckedSnapshot checked history =
      .ok store ↔ store.spec = checked ∧ store.records = history := by
    intro store
    rw [RelationStore.fromCheckedSnapshot, RelationStore.ofRecords_eq_ok_iff, hagain,
      Except.ok.injEq, eq_comm (a := history)]
  rw [applyDraftChanges, hbefore]
  simp only [Exec.lift, ok_bind, bind_eq_ok, hopen, foldlM_visitRow_eq_ok_iff, Except.ok.injEq]
  constructor
  · rintro ⟨store, ⟨hspec, hrecords⟩, _, ⟨hnodup, rfl⟩, u, hresult, rfl⟩
    change (store.applyBatch (draftChanges before next)).1 = .ok u at hresult
    rcases store.applyBatch_cases (draftChanges before next) with
      ⟨after, heq, -, hfinal⟩ | ⟨halt, heq, -⟩
    · refine ⟨hnodup, store, after.records, hspec, hrecords, hfinal, ?_⟩
      change (store.applyBatch (draftChanges before next)).2.records.toRaw = _
      rw [heq]
      rfl
    · rw [heq] at hresult
      cases hresult
  · rintro ⟨hnodup, store, records, hspec, hrecords, hfinal, rfl⟩
    rcases store.applyBatch_cases (draftChanges before next) with
      ⟨after, heq, -, hafter⟩ | ⟨halt, -, herror⟩
    · obtain rfl := Except.ok.inj (hafter.symm.trans hfinal)
      refine ⟨store, ⟨hspec, hrecords⟩, _, ⟨hnodup, rfl⟩, (), ?_⟩
      change (store.applyBatch (draftChanges before next)).1 = _ ∧
        (store.applyBatch (draftChanges before next)).2.records.toRaw = _
      rw [heq]
      exact ⟨rfl, rfl⟩
    · rw [hfinal] at herror
      cases herror

end Changes

/-- The stored row of a new one. A price that the row captures is the price of the product that it
refers to; every other field has the value of the normal form. -/
structure NewRow (spec : RawAppSpec) (scope : Scope) (rows : List RawRecord)
    (row line : RawRecord) : Prop where
  key : line.key = row.key
  scope_eq : line.scope = row.scope
  free : ∀ field, (∀ rule ∈ spec.rulesOf row.tableId, rule.capturedPriceField ≠ field) →
    line.values.get? field = (row.normalize spec).values.get? field
  captured : ∀ rule ∈ spec.rulesOf row.tableId, ∃ product ∈ rows, ∃ price,
    line.values.get? rule.productRefField = some (.ref ⟨scope, product.tableId, product.id⟩) ∧
      product.values.get? rule.productPriceField = some (.money price) ∧
      line.values.get? rule.capturedPriceField = some (.money price)

/-- The rows are valid and normal and have the keys of the draft. A row that was there before,
edited or not, is the row of the draft in normal form. -/
structure Applied (spec : RawAppSpec) (scope : Scope) (before next rows : List RawRecord) :
    Prop where
  valid : validateRecords spec scope rows = .ok ⟨scope, rows⟩
  distinct : (next.map RawRecord.key).Nodup
  keys : ∀ key, key ∈ rows.map RawRecord.key ↔ key ∈ next.map RawRecord.key
  known : ∀ row ∈ next, row.key ∈ before.map RawRecord.key → row.normalize spec ∈ rows
  fresh : ∀ row ∈ next, row.key ∉ before.map RawRecord.key →
    ∃ line ∈ rows, NewRow spec scope rows row line

section Applied

variable {spec : RawAppSpec} {scope : Scope} {before next : List RawRecord} {row : RawRecord}

theorem get?_rowsOf (hkeys : (before.map RawRecord.key).Nodup) {key : RecordKey} :
    (rowsOf before).get? key = some row ↔ row ∈ before ∧ row.key = key := by
  have hrows : rowsOf before = CheckedRecords.rows ⟨row.scope, before⟩ := rfl
  rw [hrows, get?_rows hkeys]

theorem get?_rowsOf_eq_none (hkeys : (before.map RawRecord.key).Nodup) {key : RecordKey} :
    (rowsOf before).get? key = none ↔ key ∉ before.map RawRecord.key := by
  rw [← not_iff_not, not_not, ← ne_eq, Option.ne_none_iff_exists', List.mem_map]
  simp only [get?_rowsOf hkeys]

theorem changeOf_eq_some_iff (hkeys : (before.map RawRecord.key).Nodup) {change : BatchChange} :
    changeOf (rowsOf before) row = some change ↔
      (change = .insert row ∧ row.key ∉ before.map RawRecord.key) ∨
        change = .replace row ∧ row.key ∈ before.map RawRecord.key ∧ row ∉ before := by
  rw [changeOf]
  cases hold : (rowsOf before).get? row.key with
  | none =>
      have hfresh := (get?_rowsOf_eq_none hkeys).1 hold
      simp [hfresh, eq_comm]
  | some old =>
      obtain ⟨hmem, hkey⟩ := (get?_rowsOf hkeys).1 hold
      have hknown : row.key ∈ before.map RawRecord.key := List.mem_map.2 ⟨old, hmem, hkey⟩
      by_cases hsame : old = row
      · subst hsame
        simp only [if_true, reduceCtorEq, hknown, hmem, not_true_eq_false, and_false, or_false]
      · have hfresh : row ∉ before := fun h => hsame (List.inj_on_of_nodup_map hkeys hmem h hkey)
        simp [hsame, hfresh, hknown, eq_comm]

theorem mem_draftChanges_iff {change : BatchChange} :
    change ∈ draftChanges before next ↔
      (∃ row ∈ next, changeOf (rowsOf before) row = some change) ∨
        ∃ key ∈ (rowsOf before).keys, key ∉ next.map RawRecord.key ∧
          change = .delete (ofLex key).1 (ofLex key).2 := by
  simp only [draftChanges, List.mem_append, List.mem_filterMap, List.mem_map, List.mem_filter,
    decide_eq_true_eq, and_assoc]
  refine or_congr_right (exists_congr fun key => ?_)
  rw [eq_comm]

theorem changeOf_of_key (hkeys : (before.map RawRecord.key).Nodup)
    (hnext : (next.map RawRecord.key).Nodup) (hrow : row ∈ next) {change : BatchChange}
    (hchange : change ∈ draftChanges before next) (hkey : change.key = row.key) :
    changeOf (rowsOf before) row = some change := by
  rcases mem_draftChanges_iff.1 hchange with ⟨other, hother, hmade⟩ | ⟨key, -, hremoved, rfl⟩
  · have hsame : other.key = row.key := by
      rw [← hkey]
      rcases (changeOf_eq_some_iff hkeys).1 hmade with ⟨rfl, -⟩ | ⟨rfl, -⟩ <;> rfl
    obtain rfl := List.inj_on_of_nodup_map hnext hother hrow hsame
    exact hmade
  · exact absurd (List.mem_map.2 ⟨row, hrow, hkey.symm⟩) hremoved

theorem get?_normalize_of_get? (hspec : WellFormed spec) {records : List RawRecord}
    (hvalid : ValidRecord spec scope records row) {field : FieldId} {value : Value}
    (hvalue : row.values.get? field = some value) :
    (row.normalize spec).values.get? field = some value := by
  obtain ⟨f, hf, -⟩ := hvalid.validValue hvalue
  rw [get?_normalize hspec, if_pos (by simp [hf]), RawRecord.value, hvalue]
  rfl

/-- The rows that the store validates last, after the changes of a draft. -/
theorem exists_finalRow {store : RelationStore} {records : CheckedRecords}
    (hbefore : (before.map RawRecord.key).Nodup)
    (hstore : store.records.records = normalized store.spec.definition before)
    (hnext : (next.map RawRecord.key).Nodup)
    (haccepts : store.Accepts (draftChanges before next) records) (hrow : row ∈ next)
    (hknown : row.key ∈ before.map RawRecord.key) :
    ∃ stored, (store.finalRows (draftChanges before next)).get? row.key = some stored ∧
      stored.normalize store.spec.definition = row.normalize store.spec.definition := by
  have hspec := wellFormed store.spec
  have hold : row.key ∉ insertedKeys (draftChanges before next) := by
    intro hmem
    obtain ⟨inserted, hinserted, hkey⟩ := RelationStore.mem_insertedKeys.1 hmem
    have hmade := changeOf_of_key hbefore hnext hrow hinserted hkey
    rcases (changeOf_eq_some_iff hbefore).1 hmade with ⟨-, hfresh⟩ | ⟨heq, -⟩
    · exact hfresh hknown
    · cases heq
  rw [RelationStore.get?_finalRows_of_not_mem hold, RelationStore.appliedRows]
  by_cases hsame : row ∈ before
  · refine ⟨row.normalize store.spec.definition, ?_, normalize_normalize hspec row⟩
    rw [get?_applied_of_not_mem, get?_rows store.validFacts.keys, hstore]
    · exact ⟨mem_normalized_iff.2 ⟨row, hsame, rfl⟩, rfl⟩
    · intro hmem
      obtain ⟨change, hchange, hkey⟩ := List.mem_map.1 hmem
      have hmade := changeOf_of_key hbefore hnext hrow hchange hkey
      rcases (changeOf_eq_some_iff hbefore).1 hmade with ⟨-, hfresh⟩ | ⟨-, -, hfresh⟩
      · exact hfresh hknown
      · exact hfresh hsame
  · have hreplaced : .replace row ∈ draftChanges before next :=
      mem_draftChanges_iff.2 (.inl ⟨row, hrow,
        (changeOf_eq_some_iff hbefore).2 (.inr ⟨rfl, hknown, hsame⟩)⟩)
    exact ⟨row, get?_applied_of_mem haccepts.shaped.keys hreplaced, rfl⟩

/-- Only the keys of the draft are left. -/
theorem mem_next_of_finalRow {store : RelationStore} {records : CheckedRecords}
    (hbefore : (before.map RawRecord.key).Nodup)
    (hstore : store.records.records = normalized store.spec.definition before)
    (haccepts : store.Accepts (draftChanges before next) records) {key : RecordKey}
    (hget : (store.finalRows (draftChanges before next)).get? key = some row) :
    key ∈ next.map RawRecord.key := by
  by_contra hnext
  have hkept : key ∉ insertedKeys (draftChanges before next) := by
    intro hmem
    obtain ⟨inserted, hinserted, rfl⟩ := RelationStore.mem_insertedKeys.1 hmem
    rcases mem_draftChanges_iff.1 hinserted with ⟨other, hother, hmade⟩ | ⟨_, -, -, heq⟩
    · rcases (changeOf_eq_some_iff hbefore).1 hmade with ⟨heq, -⟩ | ⟨heq, -⟩
      · obtain rfl := BatchChange.insert.inj heq
        exact hnext (List.mem_map.2 ⟨inserted, hother, rfl⟩)
      · cases heq
    · cases heq
  rw [RelationStore.get?_finalRows_of_not_mem hkept, RelationStore.appliedRows] at hget
  by_cases hknown : key ∈ before.map RawRecord.key
  · have hremoved : .delete (ofLex key).1 (ofLex key).2 ∈ draftChanges before next := by
      refine mem_draftChanges_iff.2 (.inr ⟨key, ?_, hnext, rfl⟩)
      obtain ⟨old, hmem, hkey⟩ := List.mem_map.1 hknown
      exact OrdMap.mem_keys_iff.2 ⟨old, (get?_rowsOf hbefore).2 ⟨hmem, hkey⟩⟩
    have hgone : (applied store.records.rows (draftChanges before next)).get? key = none :=
      get?_applied_of_mem haccepts.shaped.keys hremoved
    rw [hget] at hgone
    cases hgone
  · rw [get?_applied_of_not_mem, get?_rows store.validFacts.keys, hstore] at hget
    · obtain ⟨hmem, rfl⟩ := hget
      obtain ⟨old, hold, rfl⟩ := mem_normalized_iff.1 hmem
      exact hknown (List.mem_map.2 ⟨old, hold, rfl⟩)
    · intro hmem
      obtain ⟨change, hchange, rfl⟩ := List.mem_map.1 hmem
      rcases mem_draftChanges_iff.1 hchange with ⟨other, hother, hmade⟩ | ⟨key, hkey, -, rfl⟩
      · refine hnext (List.mem_map.2 ⟨other, hother, ?_⟩)
        rcases (changeOf_eq_some_iff hbefore).1 hmade with ⟨rfl, -⟩ | ⟨rfl, -⟩ <;> rfl
      · obtain ⟨old, hold⟩ := OrdMap.mem_keys_iff.1 hkey
        exact hknown (List.mem_map.2 ⟨old, (get?_rowsOf hbefore).1 hold⟩)

/-- The stored form of an inserted line. -/
theorem newRow_of_captures {store : RelationStore} {changes : List BatchChange}
    {records : CheckedRecords} (haccepts : store.Accepts changes records) {line : RawRecord}
    (hline : (store.finalRows changes).get? row.key = some line)
    (hcaptures : Captures store.spec.definition store.records.scope (store.finalRows changes) row
      line) :
    line.normalize store.spec.definition ∈ records.records ∧
      NewRow store.spec.definition store.records.scope records.records row
        (line.normalize store.spec.definition) := by
  have hspec := wellFormed store.spec
  have hkeyed := store.keyed_finalRows changes
  obtain ⟨hfacts, rfl⟩ := (validateRecords_eq_ok_iff hspec).1 haccepts.final
  have hstored : ∀ {r : RawRecord} {key : RecordKey}, (store.finalRows changes).get? key = some r →
      r ∈ (store.finalRows changes).values ∧ r.key = key := by
    intro r key hr
    exact ⟨OrdMap.mem_values_iff.2 ⟨key, hr⟩, hkeyed key r hr⟩
  obtain ⟨htable, -⟩ := key_eq_key_iff.1 hcaptures.key
  refine ⟨mem_normalized_iff.2 ⟨line, (hstored hline).1, rfl⟩, hcaptures.key, hcaptures.scope_eq, ?_, ?_⟩
  · intro field hfree
    rw [get?_normalize hspec, get?_normalize hspec, RawRecord.value, RawRecord.value,
      hcaptures.free field hfree, htable]
  · intro rule hrule
    obtain ⟨price, hprice, hwritten⟩ := hcaptures.price rule hrule
    obtain ⟨reference, product, hreference, hscope, -, hproduct, hvalue⟩ := priceIn_eq_some_iff.1 hprice
    obtain ⟨hmem, hkey⟩ := hstored hproduct
    obtain ⟨hproductTable, hproductId⟩ : product.tableId = reference.tableId ∧
        product.id = reference.recordId := by
      simpa [RawRecord.key] using hkey
    refine ⟨product.normalize store.spec.definition, mem_normalized_iff.2 ⟨product, hmem, rfl⟩, price,
      get?_normalize_of_get? hspec (hfacts.each line (hstored hline).1) ?_,
      get?_normalize_of_get? hspec (hfacts.each product hmem)
        ((get?_eq_some_iff_value (by simp)).2 hvalue),
      get?_normalize_of_get? hspec (hfacts.each line (hstored hline).1) hwritten⟩
    rw [(get?_eq_some_iff_value (by simp)).2 hreference, ← hscope]
    exact congrArg (fun target => some (Value.ref target))
      (by rw [RawRecord.normalize, hproductTable, hproductId])

/-- An accepted draft leaves the rows of the draft. -/
theorem applied_of_applyDraftChanges {checked : CheckedAppSpec} {history : CheckedRecords}
    (hbefore : validateRecords checked.definition scope before = .ok history)
    {rows : List RawRecord} (h : applyDraftChanges checked scope before next = .ok rows) :
    Applied checked.definition scope before next rows := by
  have hspec := wellFormed checked
  obtain ⟨hold, rfl⟩ := (validateRecords_eq_ok_iff hspec).1 hbefore
  obtain ⟨hnext, store, records, rfl, hstore, hfinal, rfl⟩ := (applyDraftChanges_eq_ok_iff hbefore).1 h
  have haccepts := RelationStore.finalRecords_eq_ok_iff.1 hfinal
  have hrecords : store.records.records = normalized store.spec.definition before := by rw [hstore]
  have hscope : store.records.scope = scope := by rw [hstore]
  have hkeyed := store.keyed_finalRows (draftChanges before next)
  have hresult := haccepts.final
  rw [hscope] at hresult
  obtain ⟨hfacts, rfl⟩ := (validateRecords_eq_ok_iff hspec).1 hresult
  have hknown : ∀ row ∈ next, row.key ∈ before.map RawRecord.key →
      row.normalize store.spec.definition ∈ normalized store.spec.definition
        (store.finalRows (draftChanges before next)).values := by
    intro row hrow hkey
    obtain ⟨stored, hget, hnormal⟩ := exists_finalRow hold.keys hrecords hnext haccepts hrow hkey
    exact mem_normalized_iff.2 ⟨stored, OrdMap.mem_values_iff.2 ⟨_, hget⟩, hnormal⟩
  have hfresh : ∀ row ∈ next, row.key ∉ before.map RawRecord.key →
      ∃ line ∈ normalized store.spec.definition (store.finalRows (draftChanges before next)).values,
        NewRow store.spec.definition scope (normalized store.spec.definition
          (store.finalRows (draftChanges before next)).values) row line := by
    intro row hrow hkey
    have hinserted : .insert row ∈ draftChanges before next :=
      mem_draftChanges_iff.2 (.inl ⟨row, hrow, (changeOf_eq_some_iff hold.keys).2 (.inl ⟨rfl, hkey⟩)⟩)
    obtain ⟨line, hline, hcaptures⟩ := haccepts.isFinal.inserted row hinserted
    have hnew := newRow_of_captures haccepts hline hcaptures
    rw [hscope] at hnew
    exact ⟨_, hnew⟩
  refine ⟨validateRecords_records hspec hresult, hnext, fun key => ⟨fun hkey => ?_, fun hkey => ?_⟩,
    hknown, hfresh⟩
  · obtain ⟨row, hrow, rfl⟩ := List.mem_map.1 hkey
    obtain ⟨stored, hmem, rfl⟩ := mem_normalized_iff.1 hrow
    rw [normalize_key]
    exact mem_next_of_finalRow hold.keys hrecords haccepts (hkeyed.mem_values_iff.1 hmem)
  · obtain ⟨row, hrow, rfl⟩ := List.mem_map.1 hkey
    by_cases hrowKnown : row.key ∈ before.map RawRecord.key
    · exact List.mem_map.2 ⟨_, hknown row hrow hrowKnown, rfl⟩
    · obtain ⟨line, hline, hnew⟩ := hfresh row hrow hrowKnown
      exact List.mem_map.2 ⟨line, hline, hnew.key⟩

end Applied

/-- A draft is accepted or reported. -/
theorem answers_applyDraftChanges (checked : CheckedAppSpec) (scope : Scope)
    (before next : List RawRecord) :
    Answers (fun rows => applyDraftChanges checked scope before next = .ok rows)
      (applyDraftChanges checked scope before next) := by
  suffices h : Answers (fun _ => True) (applyDraftChanges checked scope before next) by
    cases hrun : applyDraftChanges checked scope before next with
    | ok rows => exact rfl
    | error halt =>
        rw [hrun] at h
        exact h
  have hopen : ∀ history, Answers (fun _ => True)
      (RelationStore.fromCheckedSnapshot checked history) := by
    intro history
    have hvalid : Answers _ (validateRecords checked.definition history.scope history.records) :=
      answers_validateRecords history.records
    rw [RelationStore.fromCheckedSnapshot, RelationStore.ofRecords]
    split
    · trivial
    · rename_i halt hrun
      rw [hrun] at hvalid
      exact Answers.lift _ hvalid
  have hvisit : Answers (fun _ => True) (next.foldlM (visitRow (rowsOf before)) ([], [])) := by
    refine Yields.foldlM (I := fun _ _ => True) trivial fun pre row post _ state _ => ?_
    refine (answers_rejectIf _).bind fun _ _ => ?_
    split
    · split_ifs <;> trivial
    · trivial
  refine ((answers_validateRecords _).lift _).bind fun history _ => (hopen history).bind fun store _ =>
    hvisit.bind fun state _ => ?_
  have hfinal := store.answers_finalRecords (state.2 ++
    ((rowsOf before).keys.filter (· ∉ state.1)).map fun key => .delete (ofLex key).1 (ofLex key).2)
  rcases store.applyBatch_cases (state.2 ++ ((rowsOf before).keys.filter (· ∉ state.1)).map
    fun key => .delete (ofLex key).1 (ofLex key).2) with ⟨after, heq, -⟩ | ⟨halt, heq, herror⟩
  · dsimp only
    rw [heq]
    trivial
  · dsimp only
    rw [herror] at hfinal
    rw [heq]
    exact hfinal

end Evobase.Builder
