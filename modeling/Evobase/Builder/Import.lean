import Evobase.Builder.Edit
import Evobase.Foundation.JsonNeat
import Evobase.Foundation.Text

/-!
# Imported rows

The lines of tab-separated texts below a line of field identities become new rows. Every row gets an
identity that no row has, of any table, and the rows are handed to the draft together.
-/

namespace Evobase.Builder

open Foundation

def maxImportBytes : Nat := 65536
def maxImportRows : Nat := 100

/-- The field that a heading names, unless an earlier heading named it. -/
def importField (table : RawTable) (fields : List RawField) (header : String) : Option RawField :=
  (table.fields.find? fun field => field.id.text = header).filter fun field =>
    !fields.any fun existing => existing.id = field.id

/-- One heading of the import, with the fields and the diagnostics so far. -/
def importHeader (table : RawTable) (vi : Bool) (state : List RawField × List String)
    (header : String × Nat) : List RawField × List String :=
  match importField table state.1 header.1 with
  | some field => (state.1 ++ [field], state.2)
  | none => (state.1, state.2 ++ [tr vi "Cột" "Column" ++ " " ++ toString (header.2 + 1) ++ ": " ++
      tr vi "định danh trường không tồn tại hoặc bị lặp." "unknown or duplicate field identity."])

def importId (suffix : Nat) : String := "rec_import_" ++ toString suffix

/-- The first number from the given one on whose identity no row has. -/
def freshSuffix (rows : List RawRecord) : Nat → Nat → Exec (List String) Nat
  | 0, _ => .error .diverge
  | fuel + 1, suffix =>
      if rows.any (fun row => row.id.text = importId suffix) then freshSuffix rows fuel (suffix + 1)
      else .ok suffix

section Import

variable (checked : CheckedAppSpec) (scope : Scope) (baseline : List RawRecord) (table : RawTable)
  (vi : Bool)

/-- One cell of a line of the import, with the values and the diagnostics so far. -/
def importCell (index : Nat) (state : OrdMap FieldId Value × List String)
    (cell : (RawField × String) × Nat) : Exec (List String) (OrdMap FieldId Value × List String) := do
  let ((field, text), column) := cell
  let result ← (parseCell checked.definition scope table.id field.id text baseline).attempt
  match result with
  | .ok value => .ok (state.1.insert field.id value, state.2)
  | .error error =>
      .ok (state.1, state.2 ++ [tr vi "Hàng" "Row" ++ " " ++ toString (index + 2) ++ ", " ++
        tr vi "cột" "column" ++ " " ++ toString (column + 1) ++ " (" ++ field.name ++ "): " ++
        diagnostic error vi])

/-- One line of the import, with the rows and the diagnostics so far. -/
def importLine (fields : List RawField) (state : List RawRecord × List String)
    (line : String × Nat) : Exec (List String) (List RawRecord × List String) := do
  let (next, diagnostics) := state
  let (text, index) := line
  let cells := Text.split '\t' text
  if cells.length ≠ fields.length then
    .ok (next, diagnostics ++ [tr vi "Hàng" "Row" ++ " " ++ toString (index + 2) ++ ": " ++
      tr vi "số cột không khớp tiêu đề." "column count differs from the header."])
  else do
    let (values, diagnostics) ← (fields.zip cells).zipIdx.foldlM
      (importCell checked scope baseline table vi index) (OrdMap.empty, diagnostics)
    let suffix ← freshSuffix next (next.length + 1) 1
    let id ← Exec.expect "generated identity" (Identity.ofText? .record (importId suffix))
    .ok (next ++ [⟨scope, id, table.id, values⟩], diagnostics)

end Import

/-- The added row and the field that an error of the draft is about. -/
def importPlace (added : List RawRecord) (error : RelationError) :
    Option RecordId × Option FieldId :=
  match error with
  | .kernel (.required record field) | .kernel (.wrongType record field _)
  | .kernel (.constraintViolation record field _) => (some record, some field)
  | .captureInputForbidden field | .captureSourceInvalid field =>
      ((added.find? fun row => (row.values.get? field).any fun value => !value.isEmpty).map (·.id),
        some field)
  | _ => (none, none)

/-- The row and the column of the import that an error of the draft is about. -/
def importLocation (table : RawTable) (headers : List String) (added : List RawRecord) (vi : Bool)
    (error : RelationError) : String :=
  let (record, field) := importPlace added error
  match field with
  | none => ""
  | some field =>
      let row := (record.bind fun record => added.findIdx? fun r => r.id = record).getD 0
      let name := ((table.fields.find? fun f => f.id = field).map (·.name)).getD field.text
      let column := ((headers.findIdx? fun header => header = field.text).map fun column =>
        toString (column + 1)).getD (tr vi "thiếu" "missing")
      tr vi "Hàng" "Row" ++ " " ++ toString (row + 2) ++ ", " ++ tr vi "cột" "column" ++ " " ++
        column ++ " (" ++ name ++ "): "

/-- The records with a row for every line of the source. -/
def prepareImport (current : RawAppSpec) (records : List RawRecord) (tableId : TableId)
    (source : String) (vi : Bool) : Exec (List String) (List RawRecord) := do
  let table ← okOr (.fail [tr vi "Không tìm thấy bảng." "Unknown table."]) (current.table tableId)
  rejectIf (source.utf8ByteSize > maxImportBytes)
    (.fail [tr vi "Dữ liệu vượt giới hạn 64 KiB." "Input exceeds the 64 KiB limit."])
  let lines := Text.lines source
  rejectIf (lines.length < 2 ∨ lines.length > maxImportRows + 1)
    (.fail [tr vi "Cần một hàng tiêu đề và tối đa 100 hàng dữ liệu."
      "Use a header and at most 100 data rows."])
  let headers := Text.split '\t' (lines.headD "")
  let (fields, diagnostics) := headers.zipIdx.foldl (importHeader table vi) ([], [])
  rejectIf (diagnostics ≠ []) (.fail diagnostics)
  let checked ← Exec.ofExcept (fun error => [diagnostic error vi]) (compileChecked current)
  let scope := scopeFor current
  let (next, diagnostics) ← lines.tail.zipIdx.foldlM
    (importLine checked scope records table vi fields) (records, [])
  rejectIf (diagnostics ≠ []) (.fail diagnostics)
  Exec.lift (fun error => [importLocation table headers (next.drop records.length) vi error ++
    relationDiagnostic error vi]) (applyDraftChanges checked scope records next)

theorem importId_injective : Function.Injective importId := by
  intro n m h
  have hdigits : toString n = toString m := (String.append_right_inj _).1 h
  rw [Nat.toString_eq_ofList_toDigits, Nat.toString_eq_ofList_toDigits] at hdigits
  have hlist : Nat.toDigits 10 n = Nat.toDigits 10 m := String.ofList_injective hdigits
  rw [← Nat.ofDigitChars_ten_toDigits (n := n), hlist, Nat.ofDigitChars_ten_toDigits]

/-- The identity of a number with at most sixty digits is one of a record. -/
theorem exists_importId {n : Nat} (h : n < 10 ^ 60) :
    ∃ id, Identity.ofText? .record (importId n) = some id := by
  have hdigits : ∀ c ∈ Nat.toDigits 10 n, c.isDigit = true := fun c hc =>
    Nat.isDigit_of_mem_toDigits (by decide) (by decide) hc
  have hcount : (Nat.toDigits 10 n).length ≤ 60 :=
    (Nat.length_toDigits_le_iff (by decide) (by decide)).2 h
  have hlist : (importId n).toList = "rec_import_".toList ++ Nat.toDigits 10 n := by
    rw [importId, Nat.toString_eq_ofList_toDigits, String.toList_append]
    exact congrArg ("rec_import_".toList ++ ·) String.toList_ofList
  have hbytes : (Json.utf8 (Nat.toDigits 10 n)).length = (Nat.toDigits 10 n).length := by
    change (Json.digitBytes n).length = _
    rw [Json.digitBytes_eq_map, List.length_map]
  have hsize : (importId n).utf8ByteSize = 11 + (Nat.toDigits 10 n).length := by
    have hstem : (Json.utf8 "rec_import_".toList).length = 11 := by decide
    rw [← Json.length_utf8_toList, hlist, Json.utf8, List.flatMap_append, List.length_append]
    exact congrArg₂ (· + ·) hstem hbytes
  have hchars : ((importId n).toList.all isIdChar) = true := by
    rw [hlist, List.all_append, Bool.and_eq_true, List.all_eq_true (l := Nat.toDigits 10 n)]
    refine ⟨by decide, fun c hc => ?_⟩
    simp [isIdChar, Char.isAlphanum, hdigits c hc]
  have hprefix : startsWith (importId n) IdKind.record.stem = true := by
    rw [startsWith, List.isPrefixOf_iff_prefix, hlist]
    exact ⟨"import_".toList ++ Nat.toDigits 10 n, rfl⟩
  have haccepts : IdKind.record.accepts (importId n) = true := by
    have hstem : IdKind.record.stem.utf8ByteSize = 4 := by decide
    simp only [IdKind.accepts, hsize, hprefix, hchars, hstem, Bool.and_true, Bool.and_eq_true,
      decide_eq_true_eq]
    omega
  exact ⟨⟨importId n, haccepts⟩, dif_pos haccepts⟩

theorem exists_free (rows : List RawRecord) (suffix : Nat) :
    ∃ n, suffix ≤ n ∧ n < suffix + (rows.length + 1) ∧ ∀ row ∈ rows, row.id.text ≠ importId n := by
  by_contra hnone
  push Not at hnone
  have hsubset : (List.range' suffix (rows.length + 1)).map importId ⊆
      rows.map fun row => row.id.text := by
    intro text htext
    obtain ⟨n, hn, rfl⟩ := List.mem_map.1 htext
    obtain ⟨hlow, hhigh⟩ := List.mem_range'_1.1 hn
    obtain ⟨row, hrow, htaken⟩ := hnone n hlow hhigh
    exact List.mem_map.2 ⟨row, hrow, htaken⟩
  have hnodup : ((List.range' suffix (rows.length + 1)).map importId).Nodup :=
    (List.nodup_range' 1).map importId_injective
  have hle := (List.subperm_of_subset hnodup hsubset).length_le
  rw [List.length_map, List.length_map, List.length_range'] at hle
  omega

theorem answers_freshSuffix {rows : List RawRecord} {fuel suffix n : Nat} (hlow : suffix ≤ n)
    (hhigh : n < suffix + fuel) (hfree : ∀ row ∈ rows, row.id.text ≠ importId n) :
    Answers (fun found => found ≤ n ∧ ∀ row ∈ rows, row.id.text ≠ importId found)
      (freshSuffix rows fuel suffix) := by
  induction fuel generalizing suffix with
  | zero => omega
  | succ fuel ih =>
      rw [freshSuffix]
      split_ifs with htaken
      · refine ih ?_ (by omega)
        rcases hlow.eq_or_lt with rfl | hlt
        · obtain ⟨row, hrow, heq⟩ := List.any_eq_true.1 htaken
          exact absurd (of_decide_eq_true heq) (hfree row hrow)
        · exact hlt
      · refine ⟨hlow, fun row hrow heq => htaken ?_⟩
        exact List.any_eq_true.2 ⟨row, hrow, decide_eq_true heq⟩

/-- The row that a line of the import stands for. Its cells have the values of the texts, which are
read against the records before the import; it has no other values. -/
structure ImportedRow (checked : CheckedAppSpec) (scope : Scope) (records : List RawRecord)
    (table : RawTable) (fields : List RawField) (line : String) (row : RawRecord) : Prop where
  scope_eq : row.scope = scope
  table_eq : row.tableId = table.id
  cells : List.Forall₂ (fun field text => ∃ value,
    parseCell checked.definition scope table.id field.id text records = .ok value ∧
      row.values.get? field.id = some value) fields (Text.split '\t' line)
  only : ∀ field, field ∉ fields.map (·.id) → row.values.get? field = none

/-- The fields that the headings name, each once. -/
structure Headed (table : RawTable) (headers : List String) (fields : List RawField) : Prop where
  named : List.Forall₂ (fun header field => field ∈ table.fields ∧ field.id.text = header)
    headers fields
  distinct : (fields.map (·.id)).Nodup

/-- The rows have identities of an import, which are different and which no record has. -/
structure FreshIds (records added : List RawRecord) : Prop where
  numbered : ∀ row ∈ added, ∃ n, row.id.text = importId n
  distinct : (added.map (·.id)).Nodup
  unused : ∀ row ∈ added, row.id ∉ records.map (·.id)

/-- The rows of an import: one for every line below the first. -/
structure Imported (spec : RawAppSpec) (checked : CheckedAppSpec) (scope : Scope)
    (records : List RawRecord) (tableId : TableId) (source : String) (added : List RawRecord) :
    Prop where
  rows : ∃ table fields, spec.table tableId = some table ∧
    Headed table (Text.split '\t' ((Text.lines source).headD "")) fields ∧
    List.Forall₂ (ImportedRow checked scope records table fields) (Text.lines source).tail added
  ids : FreshIds records added

section Meaning

variable {spec : RawAppSpec} {checked : CheckedAppSpec} {scope : Scope} {records : List RawRecord}
  {table : RawTable} {fields : List RawField} {vi : Bool}

theorem importField_eq_some_iff {header : String} {field : RawField}
    (h : importField table fields header = some field) :
    field ∈ table.fields ∧ field.id.text = header ∧ field.id ∉ fields.map (·.id) := by
  obtain ⟨hfind, hnew⟩ := Option.filter_eq_some_iff.1 h
  refine ⟨List.mem_of_find?_eq_some hfind, by simpa using List.find?_some hfind, ?_⟩
  simp only [Bool.not_eq_true', List.any_eq_false, decide_eq_true_eq] at hnew
  intro hmem
  obtain ⟨existing, hexisting, heq⟩ := List.mem_map.1 hmem
  exact hnew existing hexisting heq

theorem headed_of_importHeaders (headers : List (String × Nat)) :
    (headers.foldl (importHeader table vi) ([], [])).2 = [] →
      Headed table (headers.map (·.1)) (headers.foldl (importHeader table vi) ([], [])).1 := by
  induction headers using List.reverseRecOn with
  | nil => exact fun _ => ⟨.nil, List.nodup_nil⟩
  | append_singleton headers header ih =>
      rw [List.foldl_append, List.foldl_cons, List.foldl_nil, importHeader]
      split
      · rename_i field hfield
        intro hnone
        obtain ⟨hmem, hname, hfresh⟩ := importField_eq_some_iff hfield
        obtain ⟨hnamed, hdistinct⟩ := ih hnone
        rw [List.map_append]
        refine ⟨List.rel_append hnamed (.cons ⟨hmem, hname⟩ .nil), ?_⟩
        rw [List.map_append, List.map_singleton, List.nodup_append]
        refine ⟨hdistinct, List.nodup_singleton _, ?_⟩
        rintro id hid _ hlast rfl
        exact hfresh (List.mem_singleton.1 hlast ▸ hid)
      · intro hsome
        simp at hsome

/-- The cells of a line are read into values, or a diagnostic is added. -/
theorem answers_importCells (hspec : WellFormed checked.definition) (index : Nat)
    {cells : List ((RawField × String) × Nat)}
    (hdistinct : (cells.map fun cell => cell.1.1.id).Nodup) (diagnostics : List String) :
    Answers (fun state => state.2 = [] → diagnostics = [] ∧
        (∀ cell ∈ cells, ∃ value,
          parseCell checked.definition scope table.id cell.1.1.id cell.1.2 records = .ok value ∧
            state.1.get? cell.1.1.id = some value) ∧
        ∀ field, field ∉ cells.map (fun cell => cell.1.1.id) → state.1.get? field = none)
      (cells.foldlM (importCell checked scope records table vi index) (OrdMap.empty, diagnostics)) := by
  refine Yields.foldlM (I := fun pre (state : OrdMap FieldId Value × List String) =>
    state.2 = [] → diagnostics = [] ∧
        (∀ cell : (RawField × String) × Nat, cell ∈ pre → ∃ value,
          parseCell checked.definition scope table.id cell.1.1.id cell.1.2 records = .ok value ∧
            state.1.get? cell.1.1.id = some value) ∧
        ∀ field, field ∉ pre.map (fun cell : (RawField × String) × Nat => cell.1.1.id) → state.1.get? field = none) ?_ ?_
  · exact fun hnone => ⟨hnone, fun _ hcell => by simp at hcell, fun _ _ => rfl⟩
  · intro pre cell post heq state hstate
    have hfresh : cell.1.1.id ∉ pre.map fun cell => cell.1.1.id := by
      rw [heq, List.map_append, List.nodup_append] at hdistinct
      exact fun hmem => hdistinct.2.2 _ hmem _ (by simp) rfl
    refine (answers_attempt (answers_parseCell hspec table.id cell.1.1.id cell.1.2 records)).bind
      fun result hresult => ?_
    cases result with
    | error error =>
        intro hnone
        simp at hnone
    | ok value =>
        intro hnone
        obtain ⟨hdiagnostics, hread, honly⟩ := hstate hnone
        refine ⟨hdiagnostics, fun other hother => ?_, fun field hfield => ?_⟩
        · rcases List.mem_append.1 hother with hmem | hlast
          · obtain ⟨found, hparse, hget⟩ := hread other hmem
            have hne : other.1.1.id ≠ cell.1.1.id := fun hsame =>
              hfresh (List.mem_map.2 ⟨other, hmem, hsame⟩)
            exact ⟨found, hparse, (OrdMap.get?_insert_of_ne _ _ hne).trans hget⟩
          · obtain rfl := List.mem_singleton.1 hlast
            exact ⟨value, hresult value rfl, OrdMap.get?_insert_self _ _ _⟩
        · have hne : field ≠ cell.1.1.id := by
            rintro rfl
            exact hfield (by simp)
          refine (OrdMap.get?_insert_of_ne _ _ hne).trans (honly field fun hmem => hfield ?_)
          rw [List.map_append]
          exact List.mem_append_left _ hmem

/-- The state of the import after some lines. Until a diagnostic is added, the rows so far are
those of the lines so far. -/
structure ImportState (checked : CheckedAppSpec) (scope : Scope) (records : List RawRecord)
    (table : RawTable) (fields : List RawField) (lines : List (String × Nat))
    (state : List RawRecord × List String) : Prop where
  count : state.1.length ≤ records.length + lines.length
  rows : state.2 = [] → ∃ added, state.1 = records ++ added ∧ FreshIds records added ∧
    List.Forall₂ (ImportedRow checked scope records table fields) (lines.map (·.1)) added

theorem FreshIds.append {added : List RawRecord} {row : RawRecord} (h : FreshIds records added)
    {n : Nat} (hid : row.id.text = importId n)
    (hfree : ∀ other ∈ records ++ added, other.id.text ≠ importId n) :
    FreshIds records (added ++ [row]) := by
  have hne : ∀ other ∈ records ++ added, other.id ≠ row.id := fun other hother heq =>
    hfree other hother ((congrArg Identity.text heq).trans hid)
  refine ⟨fun other hother => ?_, ?_, fun other hother hused => ?_⟩
  · rcases List.mem_append.1 hother with hmem | hlast
    · exact h.numbered other hmem
    · exact ⟨n, List.mem_singleton.1 hlast ▸ hid⟩
  · rw [List.map_append, List.map_singleton, List.nodup_append]
    refine ⟨h.distinct, List.nodup_singleton _, ?_⟩
    rintro id hused _ hlast rfl
    obtain ⟨other, hother, heq⟩ := List.mem_map.1 hused
    exact hne other (List.mem_append_right _ hother) (heq.trans (List.mem_singleton.1 hlast))
  · rcases List.mem_append.1 hother with hmem | hlast
    · exact h.unused other hmem hused
    · obtain rfl := List.mem_singleton.1 hlast
      obtain ⟨used, hmem, heq⟩ := List.mem_map.1 hused
      exact hne used (List.mem_append_left _ hmem) heq

theorem ImportState.importLine (hspec : WellFormed checked.definition)
    (hfields : (fields.map (·.id)).Nodup) {lines : List (String × Nat)}
    {state : List RawRecord × List String}
    (h : ImportState checked scope records table fields lines state)
    (hcount : records.length + lines.length < 10 ^ 59) (line : String × Nat) :
    Answers (ImportState checked scope records table fields (lines ++ [line]))
      (importLine checked scope records table vi fields state line) := by
  obtain ⟨hlength, hrows⟩ := h
  unfold Builder.importLine
  dsimp only
  split_ifs with hwidth
  · refine ⟨?_, fun hnone => by simp at hnone⟩
    rw [List.length_append]
    exact hlength.trans (Nat.add_le_add_left (Nat.le_add_right _ _) _)
  · rw [not_not] at hwidth
    have hcells : ((fields.zip (Text.split '\t' line.1)).zipIdx.map fun cell => cell.1.1.id) =
        fields.map (·.id) := by
      have hfirst : ((fields.zip (Text.split '\t' line.1)).zipIdx.map (·.1)).map (·.1) = fields := by
        rw [List.zipIdx_map_fst, List.map_fst_zip (by omega)]
      conv_rhs => rw [← hfirst]
      rw [List.map_map, List.map_map]
      rfl
    refine (answers_importCells hspec line.2 (hcells ▸ hfields) state.2).bind fun read hread => ?_
    obtain ⟨n, hlow, hhigh, hfree⟩ := exists_free state.1 1
    refine (answers_freshSuffix hlow (by omega) hfree).bind fun suffix hsuffix => ?_
    obtain ⟨hle, hunused⟩ := hsuffix
    have hbound : suffix < 10 ^ 60 := by
      have : (10 : Nat) ^ 60 = 10 * 10 ^ 59 := by norm_num
      omega
    refine (answers_expect (exists_importId hbound)).bind fun id hid => ?_
    refine ⟨?_, fun hnone => ?_⟩
    · simp only [List.length_append, List.length_singleton]
      omega
    · obtain ⟨hbefore, hvalues, honly⟩ := hread hnone
      obtain ⟨added, hstate, hfresh, hadded⟩ := hrows hbefore
      refine ⟨added ++ [⟨scope, id, table.id, read.1⟩], by simp [hstate], ?_, ?_⟩
      · exact hfresh.append (Identity.ofText?_eq_some.1 hid) (hstate ▸ hunused)
      · rw [List.map_append]
        refine List.rel_append hadded (.cons ⟨rfl, rfl, ?_, ?_⟩ .nil)
        · refine List.forall₂_iff_zip.2 ⟨hwidth.symm, fun hmem => ?_⟩
          rename_i field text
          rw [← List.zipIdx_map_fst 0 (fields.zip _)] at hmem
          obtain ⟨cell, hcell, heq⟩ := List.mem_map.1 hmem
          obtain ⟨value, hparse, hget⟩ := hvalues cell hcell
          rw [heq] at hparse hget
          exact ⟨value, hparse, hget⟩
        · exact fun field hfield => honly field (hcells ▸ hfield)

theorem answers_importLines (hspec : WellFormed checked.definition)
    (hfields : (fields.map (·.id)).Nodup) (lines : List (String × Nat))
    (hcount : records.length + lines.length < 10 ^ 59) :
    Answers (ImportState checked scope records table fields lines)
      (lines.foldlM (importLine checked scope records table vi fields) (records, [])) := by
  refine Yields.foldlM ?_ fun pre line post heq state hstate => ?_
  · exact ⟨Nat.le_add_right _ _, fun _ => ⟨[], by simp, ⟨by simp, by simp, by simp⟩, .nil⟩⟩
  · refine hstate.importLine hspec hfields ?_ line
    rw [heq, List.length_append] at hcount
    omega

/-- The lines of the source are made into rows that hold their values, or the diagnostics are
shown. -/
theorem answers_prepareImport (hcompile : compile spec = .ok checked.definition)
    {facts : CheckedRecords}
    (hvalid : validateRecords checked.definition (scopeFor spec) records = .ok facts)
    (tableId : TableId) (source : String) :
    Answers (fun rows => ∃ added,
        Imported spec checked (scopeFor spec) records tableId source added ∧
          Applied checked.definition (scopeFor spec) records (records ++ added) rows)
      (prepareImport spec records tableId source vi) := by
  have hspec := wellFormed checked
  refine (answers_okOr _ _).bind fun table htable => (answers_rejectIf _).bind fun _ _ =>
    (answers_rejectIf _).bind fun _ hlines => ?_
  refine (answers_rejectIf _).bind fun _ hheaders => ?_
  have hheaded := headed_of_importHeaders _ (not_not.1 hheaders)
  rw [List.zipIdx_map_fst] at hheaded
  rw [compileChecked_of_compile hcompile, Exec.ofExcept, ok_bind]
  have hcount : records.length ≤ maxRecords :=
    ((validateRecords_eq_ok_iff hspec).1 hvalid).1.count
  have hbound : records.length + (Text.lines source).tail.zipIdx.length < 10 ^ 59 := by
    rw [List.length_zipIdx, List.length_tail]
    simp only [maxRecords, maxImportRows] at hcount hlines
    omega
  refine (answers_importLines hspec hheaded.distinct _ hbound).bind fun state hstate => (answers_rejectIf _).bind fun _ hnone => ?_
  obtain ⟨added, hnext, hfresh, hadded⟩ := hstate.rows (not_not.1 hnone)
  rw [List.zipIdx_map_fst] at hadded
  refine ((answers_applyDraftChanges _ _ _ _).lift _).mono (fun rows hrows => ?_) fun _ h => h
  refine ⟨added, ⟨⟨table, _, htable, hheaded, hadded⟩, hfresh⟩, ?_⟩
  exact applied_of_applyDraftChanges hvalid (hnext ▸ hrows)

end Meaning

end Evobase.Builder
