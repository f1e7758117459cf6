import Evobase.AppSpec.Validate
import Evobase.Foundation.ParseInt

/-!
# The text of a cell

`parseCell` reads the text that an author types into a cell as a value of the field. An empty
text is blank, the text `null` is null, and `text:` makes a text of what follows it. A reference
is the identity of a record or the label of exactly one record of the target table.

`ReadsNumber` and `ReadsLabel` say which texts have which values. A label is looked up in the
display field of the target table, over all the records, so two records with one label make the
text ambiguous. `parseCell_exact` puts the types of a field together.
-/

namespace Evobase

open Foundation

/-- Every byte is a digit, or a minus sign at the start. No byte of a character outside ASCII is
one of these. -/
def isCellInteger (text : String) : Bool :=
  text.toList.zipIdx.all fun c => c.1.isDigit || (c.2 == 0 && c.1 == '-')

def parseCellInteger (fieldType : FieldType) (text : String) : Exec Error I64 := do
  rejectIf (isCellInteger text = false) (.fail (.invalidCell fieldType.name text))
  match I64.parse text with
  | .ok n => .ok n
  | .error .posOverflow | .error .negOverflow => .error (.fail (.overflow fieldType.name))
  | .error _ => .error (.fail (.invalidCell fieldType.name text))

def RawField.isName (field : RawField) : Bool :=
  field.fieldType = .text && endsWith field.id.text "_name"

def RawTable.displayField (table : RawTable) : Option RawField :=
  (table.fields.find? RawField.isName).or (table.fields.find? fun field => field.fieldType = .text)

/-- The record with the identity in the text. -/
def parseIdentity (scope : Scope) (target : TableId) (text : String) (records : List RawRecord) :
    Exec Error RecordId := do
  let id ← Exec.ofExcept id (Identity.new .record text)
  if ∃ r ∈ records, r.scope = scope ∧ r.tableId = target ∧ r.id = id then .ok id
  else
    match records.find? fun r => r.id = id with
    | some other =>
        if other.scope ≠ scope then .error (.fail (.crossScope id))
        else .error (.fail (.wrongReferenceTable id target other.tableId))
    | none => .error (.fail (.missingReference target id))

/-- The record shows the text in the display field. -/
def RawRecord.shows (scope : Scope) (target : TableId) (display : Option RawField) (text : String)
    (row : RawRecord) : Bool :=
  row.scope = scope && row.tableId = target &&
    display.any fun field => row.values.get? field.id = some (.text text)

/-- The record with the label. -/
def parseLabel (spec : RawAppSpec) (scope : Scope) (target : TableId) (text : String)
    (records : List RawRecord) : Exec Error RecordId := do
  let table ← Exec.expect "compiled graph" (spec.table target)
  match records.filter (RawRecord.shows scope target table.displayField text) with
  | [] => .error (.fail (.invalidCell (FieldType.ref target).name text))
  | [first] => .ok first.id
  | _ => .error (.fail (.ambiguousReference target text))

/-- The record that a cell refers to. -/
def parseReference (spec : RawAppSpec) (scope : Scope) (target : TableId) (text : String)
    (records : List RawRecord) : Exec Error RecordId :=
  if startsWith text IdKind.record.stem = true then parseIdentity scope target text records
  else parseLabel spec scope target text records

/-- The value of a text that is neither empty nor reserved. -/
def parsePlainCell (spec : RawAppSpec) (scope : Scope) (fieldType : FieldType) (text : String)
    (records : List RawRecord) : Exec Error Value :=
  match fieldType with
  | .text => do
      rejectIf (text.utf8ByteSize > maxTextBytes) (.fail (.limitExceeded "text bytes" maxTextBytes))
      .ok (.text text)
  | .integer => do
      let n ← parseCellInteger .integer text
      .ok (.integer n)
  | .money => do
      let n ← parseCellInteger .money text
      .ok (.money n)
  | .bool =>
      if text = "true" then .ok (.bool true)
      else if text = "false" then .ok (.bool false)
      else .error (.fail (.invalidCell FieldType.bool.name text))
  | .ref target => do
      rejectIf (records.length > maxRecords) (.fail (.limitExceeded "records" maxRecords))
      let id ← parseReference spec scope target text records
      .ok (.ref ⟨scope, target, id⟩)

def escaped? (fieldType : FieldType) (text : String) : Option String :=
  if fieldType = .text then stripPrefix? "text:" text else none

def parseCell (spec : RawAppSpec) (scope : Scope) (table : TableId) (field : FieldId)
    (text : String) (records : List RawRecord) : Exec Error Value := do
  rejectIf (scope.appId ≠ spec.appId) (.fail (.wrongApp spec.appId scope.appId))
  let definition ← okOr (.fail (.unknownField table field)) (spec.field table field)
  match escaped? definition.fieldType text with
  | some literal => do
      rejectIf (literal.utf8ByteSize > maxTextBytes)
        (.fail (.limitExceeded "text bytes" maxTextBytes))
      .ok (.text literal)
  | none =>
      if text = "" then .ok .blank
      else if text = "null" then .ok .null
      else parsePlainCell spec scope definition.fieldType text records

theorem isCellInteger_eq_true_iff {text : String} :
    isCellInteger text = true ↔ ∀ c rest, text.toList = c :: rest →
      (c.isDigit = true ∨ c = '-') ∧ ∀ d ∈ rest, d.isDigit = true := by
  unfold isCellInteger
  cases text.toList with
  | nil => simp
  | cons c rest =>
      rw [List.zipIdx_cons, List.all_cons, Bool.and_eq_true, List.all_eq_true]
      constructor
      · rintro ⟨hhead, htail⟩ a l heq
        obtain ⟨rfl, rfl⟩ := List.cons.inj heq
        refine ⟨by simpa using hhead, fun d hd => ?_⟩
        obtain ⟨i, hi, rfl⟩ := List.mem_iff_getElem.1 hd
        have hmem : (rest[i], i + 1) ∈ rest.zipIdx (0 + 1) :=
          List.mk_mem_zipIdx_iff_le_and_getElem?_sub.2 ⟨by omega, by simp [hi]⟩
        simpa using htail _ hmem
      · intro h
        obtain ⟨hhead, htail⟩ := h c rest rfl
        refine ⟨by simpa using hhead, fun pair hpair => ?_⟩
        simp [htail pair.1 (List.fst_mem_of_mem_zipIdx hpair)]

theorem isCellInteger_of_decimal {text : String} {z : Int} (h : Decimal text z) :
    isCellInteger text = true := by
  obtain ⟨digits, -, hdigits, hform⟩ := h
  rw [isCellInteger_eq_true_iff]
  intro c rest heq
  rcases hform with ⟨htext, -⟩ | ⟨htext, -⟩
  · rw [htext] at heq
    subst heq
    exact ⟨.inl (hdigits c List.mem_cons_self), fun d hd => hdigits d (List.mem_cons_of_mem c hd)⟩
  · obtain ⟨rfl, rfl⟩ := List.cons.inj (htext.symm.trans heq)
    exact ⟨.inr rfl, hdigits⟩

theorem parseCellInteger_of_decimal {fieldType : FieldType} {text : String} {z : Int}
    (h : Decimal text z) :
    parseCellInteger fieldType text =
      okOr (.fail (.overflow fieldType.name)) (Bounded.ofInt? z) := by
  obtain ⟨e, he, hparse⟩ := I64.parse_decimal h
  rw [parseCellInteger, rejectIf_bind_of_not (by simp [isCellInteger_of_decimal h]), hparse]
  cases (Bounded.ofInt? z : Option I64) with
  | some n => rfl
  | none => rcases he with rfl | rfl <;> rfl

theorem parseCellInteger_of_not_decimal {fieldType : FieldType} {text : String}
    (h : ∀ z, ¬ Decimal text z) :
    parseCellInteger fieldType text = .error (.fail (.invalidCell fieldType.name text)) := by
  by_cases hcell : isCellInteger text = true
  · rw [parseCellInteger, rejectIf_bind_of_not (by simp [hcell])]
    cases htext : text.toList with
    | nil => simp [I64.parse, htext]
    | cons c rest =>
        obtain ⟨hc, hrest⟩ := isCellInteger_eq_true_iff.1 hcell c rest htext
        rcases hc with hc | rfl
        · refine absurd ⟨c :: rest, by simp, ?_, .inl ⟨htext, rfl⟩⟩ (h _)
          simpa [hc] using hrest
        · cases rest with
          | nil => simp [I64.parse, htext]
          | cons d rest => exact absurd ⟨d :: rest, by simp, hrest, .inr ⟨htext, rfl⟩⟩ (h _)
  · rw [parseCellInteger, rejectIf, if_pos (by simpa using hcell)]
    rfl

theorem decimal_ne_reserved {text : String} {z : Int} (h : Decimal text z) :
    text ≠ "" ∧ text ≠ "null" := by
  obtain ⟨digits, hne, hdigits, hform⟩ := h
  constructor
  · rintro rfl
    rcases hform with ⟨htext, -⟩ | ⟨htext, -⟩
    · exact hne htext.symm
    · cases htext
  · rintro rfl
    rcases hform with ⟨htext, -⟩ | ⟨htext, -⟩
    · subst htext
      exact absurd (hdigits 'n' (by decide)) (by decide)
    · cases htext

def IsFirst (table : RawTable) (property : RawField → Prop) (field : RawField) : Prop :=
  field ∈ table.fields ∧ property field ∧
    ∀ other ∈ table.fields, property other → field.id ≤ other.id

def IsName (field : RawField) : Prop :=
  field.fieldType = .text ∧ "_name".toList <:+ field.id.text.toList

/-- The first text field whose identity ends in `_name`, or else the first text field. -/
def IsDisplayField (table : RawTable) (field : RawField) : Prop :=
  IsFirst table IsName field ∨
    (∀ other ∈ table.fields, ¬ IsName other) ∧ IsFirst table (·.fieldType = .text) field

/-- The record of the target table has the text in the display field. -/
def HasLabel (spec : RawAppSpec) (scope : Scope) (target : TableId) (text : String)
    (row : RawRecord) : Prop :=
  row.scope = scope ∧ row.tableId = target ∧ ∃ table field, spec.table target = some table ∧
    IsDisplayField table field ∧ row.values.get? field.id = some (.text text)

theorem isName_eq_true_iff {field : RawField} : field.isName = true ↔ IsName field := by
  simp [RawField.isName, IsName, endsWith]

theorem displayField_eq_some_iff {table : RawTable} {field : RawField}
    (hsorted : table.fields.Pairwise fun a b => a.id < b.id) :
    table.displayField = some field ↔ IsDisplayField table field := by
  have hfirst : ∀ (p : RawField → Bool) (property : RawField → Prop),
      (∀ f, p f = true ↔ property f) →
        (table.fields.find? p = some field ↔ IsFirst table property field) := by
    intro p property hp
    rw [find?_eq_some_iff_least RawField.id hsorted]
    simp only [hp, IsFirst]
  rw [RawTable.displayField, Option.or_eq_some_iff, IsDisplayField,
    hfirst _ _ fun f => isName_eq_true_iff,
    hfirst _ (·.fieldType = .text) fun f => decide_eq_true_iff, List.find?_eq_none]
  simp only [isName_eq_true_iff]

theorem shows_eq_true_iff {spec : RawAppSpec} (hspec : WellFormed spec) {scope : Scope}
    {target : TableId} {table : RawTable} (htable : spec.table target = some table)
    {text : String} {row : RawRecord} :
    row.shows scope target table.displayField text = true ↔ HasLabel spec scope target text row := by
  have hsorted := hspec.fields_sorted table (RawAppSpec.table_some htable).1
  rw [RawRecord.shows, Bool.and_eq_true, Bool.and_eq_true, decide_eq_true_iff, decide_eq_true_iff,
    Option.any_eq_true, HasLabel, and_assoc]
  refine and_congr_right fun _ => and_congr_right fun _ => ?_
  constructor
  · rintro ⟨field, hfield, hvalue⟩
    exact ⟨table, field, htable, (displayField_eq_some_iff hsorted).1 hfield, by simpa using hvalue⟩
  · rintro ⟨other, field, hother, hfield, hvalue⟩
    obtain rfl := Option.some.inj (htable.symm.trans hother)
    exact ⟨field, (displayField_eq_some_iff hsorted).2 hfield, by simpa using hvalue⟩

theorem exists_table_of_mem {spec : RawAppSpec} {target : TableId}
    (h : target ∈ spec.tables.map (·.id)) : ∃ table, spec.table target = some table := by
  obtain ⟨table, htable, rfl⟩ := List.mem_map.1 h
  rw [← Option.isSome_iff_exists, RawAppSpec.table, List.find?_isSome]
  exact ⟨table, htable, by simp⟩

theorem parseLabel_cases {spec : RawAppSpec} (hspec : WellFormed spec) (scope : Scope)
    {target : TableId} (htarget : target ∈ spec.tables.map (·.id)) (text : String)
    (records : List RawRecord) :
    (parseLabel spec scope target text records =
        .error (.fail (.invalidCell (FieldType.ref target).name text)) ∧
      ∀ i : Fin records.length, ¬ HasLabel spec scope target text records[i]) ∨
    (∃ i : Fin records.length, parseLabel spec scope target text records = .ok records[i].id ∧
      ∀ j : Fin records.length, HasLabel spec scope target text records[j] ↔ j = i) ∨
    parseLabel spec scope target text records = .error (.fail (.ambiguousReference target text)) ∧
      ∃ i j : Fin records.length, i ≠ j ∧ HasLabel spec scope target text records[i] ∧
        HasLabel spec scope target text records[j] := by
  obtain ⟨table, htable⟩ := exists_table_of_mem htarget
  simp only [← shows_eq_true_iff hspec htable]
  rw [parseLabel, htable, Exec.expect, ok_bind]
  rcases filter_places (RawRecord.shows scope target table.displayField text) records with
    ⟨hfilter, hnone⟩ | ⟨i, hfilter, hone⟩ | ⟨⟨a, b, rest, hfilter⟩, hseveral⟩
  · exact .inl ⟨by rw [hfilter], fun i => Bool.eq_false_iff.1 (hnone i)⟩
  · exact .inr (.inl ⟨i, by rw [hfilter], hone⟩)
  · exact .inr (.inr ⟨by rw [hfilter], hseveral⟩)

theorem parseIdentity_eq_ok_iff {scope : Scope} {target : TableId} {text : String}
    {records : List RawRecord} {id : RecordId} :
    parseIdentity scope target text records = .ok id ↔
      id.text = text ∧ ∃ r ∈ records, r.scope = scope ∧ r.tableId = target ∧ r.id = id := by
  unfold parseIdentity Identity.new
  cases hid : Identity.ofText? .record text with
  | none =>
      simp only [Exec.ofExcept, error_bind, reduceCtorEq, false_iff, not_and]
      rintro rfl
      simp at hid
  | some other =>
      obtain rfl := Identity.ofText?_eq_some.1 hid
      simp only [Exec.ofExcept, ok_bind]
      constructor
      · intro h
        split_ifs at h with hknown
        · obtain rfl := Except.ok.inj h
          exact ⟨rfl, hknown⟩
        · split at h
          · split_ifs at h
          · cases h
      · rintro ⟨htext, hknown⟩
        obtain rfl := Identity.ext_text htext
        rw [if_pos hknown]

/-- A value that the text of a cell of the field can stand for. -/
structure CellValue (scope : Scope) (records : List RawRecord) (field : RawField) (value : Value) :
    Prop where
  type : value.isEmpty = false → matchesType field.fieldType value = true
  short : value.tooLong = false
  reference : ∀ reference, value = .ref reference → reference.scope = scope ∧
    field.fieldType = .ref reference.tableId ∧ ∃ target ∈ records,
      target.scope = scope ∧ target.tableId = reference.tableId ∧ target.id = reference.recordId

/-- The number is read from the text. -/
structure ReadsNumber (name : String) (number : I64 → Value) (text : String)
    (result : Exec Error Value) : Prop where
  accepts : ∀ n, result = .ok (number n) ↔ Decimal text n.val
  only : ∀ v, result = .ok v →
    text = "" ∧ v = .blank ∨ text = "null" ∧ v = .null ∨ ∃ n, v = number n
  overflow : result = .error (.fail (.overflow name)) ↔
    ∃ z, Decimal text z ∧ ¬ I64.InRange z
  invalid : result = .error (.fail (.invalidCell name text)) ↔
    text ≠ "" ∧ text ≠ "null" ∧ ∀ z, ¬ Decimal text z

/-- The label is resolved to the record that has it. -/
structure ReadsLabel (spec : RawAppSpec) (scope : Scope) (target : TableId) (text : String)
    (records : List RawRecord) (result : Exec Error Value) : Prop where
  resolves : ∀ v, result = .ok v ↔ ∃ i : Fin records.length,
    v = .ref ⟨scope, target, records[i].id⟩ ∧
      ∀ j : Fin records.length, HasLabel spec scope target text records[j] ↔ j = i
  ambiguous : result = .error (.fail (.ambiguousReference target text)) ↔
    ∃ i j : Fin records.length, i ≠ j ∧ HasLabel spec scope target text records[i] ∧
      HasLabel spec scope target text records[j]
  invalid : result = .error (.fail (.invalidCell (FieldType.ref target).name text)) ↔
    ∀ i : Fin records.length, ¬ HasLabel spec scope target text records[i]

section Cell

variable {spec : RawAppSpec} {scope : Scope} {table : TableId} {field : RawField} {text : String}
  {records : List RawRecord}

theorem parseCell_of_field (happ : scope.appId = spec.appId)
    (hfield : spec.field table field.id = some field) :
    parseCell spec scope table field.id text records =
      match escaped? field.fieldType text with
      | some literal => do
          rejectIf (literal.utf8ByteSize > maxTextBytes)
            (.fail (.limitExceeded "text bytes" maxTextBytes))
          .ok (.text literal)
      | none =>
          if text = "" then .ok .blank
          else if text = "null" then .ok .null
          else parsePlainCell spec scope field.fieldType text records := by
  rw [parseCell, rejectIf_bind_of_not (by simpa using happ), hfield, okOr, ok_bind]

theorem parseCell_of_ne_text (happ : scope.appId = spec.appId)
    (hfield : spec.field table field.id = some field) (htype : field.fieldType ≠ .text) :
    parseCell spec scope table field.id text records =
      if text = "" then .ok .blank
      else if text = "null" then .ok .null
      else parsePlainCell spec scope field.fieldType text records := by
  rw [parseCell_of_field happ hfield, escaped?, if_neg htype]

theorem cellValue_of_isEmpty {value : Value} (h : value.isEmpty = true) :
    CellValue scope records field value := by
  refine ⟨fun hne => by simp [h] at hne, tooLong_of_isEmpty h, fun r hr => ?_⟩
  exact absurd hr (ne_ref_of_isEmpty h r)

theorem cellValue_of_not_ref {value : Value} (htype : matchesType field.fieldType value = true)
    (hshort : value.tooLong = false) (href : ∀ r, value ≠ .ref r) :
    CellValue scope records field value :=
  ⟨fun _ => htype, hshort, fun r hr => absurd hr (href r)⟩

theorem mem_of_parseLabel (hspec : WellFormed spec) {target : TableId}
    (htarget : target ∈ spec.tables.map (·.id)) {id : RecordId}
    (h : parseLabel spec scope target text records = .ok id) :
    ∃ r ∈ records, r.scope = scope ∧ r.tableId = target ∧ r.id = id := by
  rcases parseLabel_cases hspec scope htarget text records with
    ⟨herror, -⟩ | ⟨i, hok, hone⟩ | ⟨herror, -⟩
  · rw [herror] at h
    cases h
  · obtain rfl := Except.ok.inj (hok.symm.trans h)
    obtain ⟨hscope, htable, -⟩ := (hone i).2 rfl
    exact ⟨records[i], List.getElem_mem i.isLt, hscope, htable, rfl⟩
  · rw [herror] at h
    cases h

theorem cellValue_of_parsePlainCell (hspec : WellFormed spec)
    (hfield : spec.field table field.id = some field) {value : Value}
    (h : parsePlainCell spec scope field.fieldType text records = .ok value) :
    CellValue scope records field value := by
  cases htype : field.fieldType with
  | text =>
      simp only [htype, parsePlainCell, bind_eq_ok, rejectIf_eq_ok, Except.ok.injEq] at h
      obtain ⟨-, hshort, rfl⟩ := h
      exact cellValue_of_not_ref (by simp [htype, matchesType])
        (by simpa [Value.tooLong] using hshort) (by simp)
  | integer =>
      simp only [htype, parsePlainCell, bind_eq_ok, Except.ok.injEq] at h
      obtain ⟨n, -, rfl⟩ := h
      exact cellValue_of_not_ref (by simp [htype, matchesType]) rfl (by simp)
  | money =>
      simp only [htype, parsePlainCell, bind_eq_ok, Except.ok.injEq] at h
      obtain ⟨n, -, rfl⟩ := h
      exact cellValue_of_not_ref (by simp [htype, matchesType]) rfl (by simp)
  | bool =>
      simp only [htype, parsePlainCell] at h
      obtain ⟨b, rfl⟩ : ∃ b, value = .bool b := by
        split_ifs at h
        · exact ⟨true, (Except.ok.inj h).symm⟩
        · exact ⟨false, (Except.ok.inj h).symm⟩
      exact cellValue_of_not_ref (by simp [htype, matchesType]) rfl (by simp)
  | ref target =>
      simp only [htype, parsePlainCell, bind_eq_ok, rejectIf_eq_ok, Except.ok.injEq] at h
      obtain ⟨-, -, id, hid, rfl⟩ := h
      obtain ⟨t, ht, hmem, -⟩ := RawAppSpec.field_some hfield
      have htarget := hspec.references t (RawAppSpec.table_some ht).1 field hmem target htype
      have hknown : ∃ r ∈ records, r.scope = scope ∧ r.tableId = target ∧ r.id = id := by
        unfold parseReference at hid
        split_ifs at hid
        · exact (parseIdentity_eq_ok_iff.1 hid).2
        · exact mem_of_parseLabel hspec htarget hid
      refine ⟨fun _ => by simp [htype, matchesType], rfl, ?_⟩
      rintro r hr
      obtain rfl := Value.ref.inj hr
      exact ⟨rfl, htype, hknown⟩

theorem cellValue_of_parseCell (hspec : WellFormed spec) (happ : scope.appId = spec.appId)
    (hfield : spec.field table field.id = some field) {value : Value}
    (h : parseCell spec scope table field.id text records = .ok value) :
    CellValue scope records field value := by
  rw [parseCell_of_field happ hfield] at h
  split at h
  · next literal hescaped =>
      simp only [bind_eq_ok, rejectIf_eq_ok, Except.ok.injEq] at h
      obtain ⟨-, hshort, rfl⟩ := h
      have htype : field.fieldType = .text := by
        unfold escaped? at hescaped
        split_ifs at hescaped with htype
        exact htype
      exact cellValue_of_not_ref (by simp [htype, matchesType])
        (by simpa [Value.tooLong] using hshort) (by simp)
  · split_ifs at h
    · obtain rfl := Except.ok.inj h
      exact cellValue_of_isEmpty rfl
    · obtain rfl := Except.ok.inj h
      exact cellValue_of_isEmpty rfl
    · exact cellValue_of_parsePlainCell hspec hfield h

/-- A number is read the same way for both types of number. -/
theorem readsNumber {number : I64 → Value} (hinjective : Function.Injective number)
    (hnonempty : ∀ n, (number n).isEmpty = false) (fieldType : FieldType) (text : String) :
    ReadsNumber fieldType.name number text
      (if text = "" then .ok .blank
      else if text = "null" then .ok .null
      else (do let n ← parseCellInteger fieldType text; .ok (number n))) := by
  generalize hresult : (if text = "" then (.ok .blank : Exec Error Value)
    else if text = "null" then .ok .null
    else (do let n ← parseCellInteger fieldType text; .ok (number n))) = result
  have hdecimal : ∀ z, Decimal text z → result =
      (do let n ← okOr (.fail (.overflow fieldType.name)) (Bounded.ofInt? z); .ok (number n)) := by
    intro z hz
    obtain ⟨hempty, hnull⟩ := decimal_ne_reserved hz
    rw [← hresult, if_neg hempty, if_neg hnull, parseCellInteger_of_decimal hz]
  have hother : (∀ z, ¬ Decimal text z) → text = "" ∧ result = .ok .blank ∨
      text = "null" ∧ result = .ok .null ∨ text ≠ "" ∧ text ≠ "null" ∧
        result = .error (.fail (.invalidCell fieldType.name text)) := by
    intro hnone
    rw [← hresult]
    split_ifs with hempty hnull
    · exact .inl ⟨hempty, rfl⟩
    · exact .inr (.inl ⟨hnull, rfl⟩)
    · refine .inr (.inr ⟨hempty, hnull, ?_⟩)
      rw [parseCellInteger_of_not_decimal hnone]
      rfl
  have hblank : ∀ n, number n ≠ .blank := fun n h => by simpa [h, Value.isEmpty] using hnonempty n
  have hnull : ∀ n, number n ≠ .null := fun n h => by simpa [h, Value.isEmpty] using hnonempty n
  by_cases hform : ∃ z, Decimal text z
  · obtain ⟨z, hz⟩ := hform
    obtain ⟨htextEmpty, htextNull⟩ := decimal_ne_reserved hz
    have hread := hdecimal z hz
    cases hn : (Bounded.ofInt? z : Option I64) with
    | some n =>
        have hval := Bounded.ofInt?_eq_some.1 hn
        rw [hn] at hread
        obtain rfl : result = .ok (number n) := hread
        refine ⟨fun m => ⟨fun h => ?_, fun hm => ?_⟩, fun v hv => ?_, ⟨fun h => absurd h (by simp), ?_⟩,
          ⟨fun h => absurd h (by simp), fun h => absurd hz (h.2.2 z)⟩⟩
        · obtain rfl := hinjective (Except.ok.inj h)
          rwa [hval]
        · rw [hdecimal m.val hm, Bounded.ofInt?_val]
          rfl
        · exact .inr (.inr ⟨n, (Except.ok.inj hv).symm⟩)
        · rintro ⟨w, hw, hout⟩
          have hread := hdecimal w hw
          rw [Bounded.ofInt?_eq_none.2 hout] at hread
          cases hread
    | none =>
        rw [hn] at hread
        obtain rfl : result = .error (.fail (.overflow fieldType.name)) := hread
        refine ⟨fun m => ⟨fun h => absurd h (by simp), fun hm => ?_⟩, fun v hv => absurd hv (by simp),
          ⟨fun _ => ⟨z, hz, Bounded.ofInt?_eq_none.1 hn⟩, fun _ => rfl⟩,
          ⟨fun h => absurd h (by simp), fun h => absurd hz (h.2.2 z)⟩⟩
        rw [hdecimal m.val hm, Bounded.ofInt?_val]
        rfl
  · have hnone : ∀ z, ¬ Decimal text z := fun z hz => hform ⟨z, hz⟩
    have hnumber : ∀ n : I64, ¬ Decimal text n.val := fun n => hnone n.val
    have hrange : ¬ ∃ z, Decimal text z ∧ ¬ I64.InRange z := fun h => hform ⟨h.choose, h.choose_spec.1⟩
    rcases hother hnone with ⟨htext, rfl⟩ | ⟨htext, rfl⟩ | ⟨hempty, htext, rfl⟩
    · refine ⟨fun n => ⟨fun h => absurd (Except.ok.inj h).symm (hblank n), fun h => absurd h (hnumber n)⟩,
        fun v hv => .inl ⟨htext, (Except.ok.inj hv).symm⟩, ⟨fun h => absurd h (by simp), fun h => absurd h hrange⟩,
        ⟨fun h => absurd h (by simp), fun h => absurd htext h.1⟩⟩
    · refine ⟨fun n => ⟨fun h => absurd (Except.ok.inj h).symm (hnull n), fun h => absurd h (hnumber n)⟩,
        fun v hv => .inr (.inl ⟨htext, (Except.ok.inj hv).symm⟩),
        ⟨fun h => absurd h (by simp), fun h => absurd h hrange⟩,
        ⟨fun h => absurd h (by simp), fun h => absurd htext h.2.1⟩⟩
    · exact ⟨fun n => ⟨fun h => absurd h (by simp), fun h => absurd h (hnumber n)⟩,
        fun v hv => absurd hv (by simp),
        ⟨fun h => absurd h (by simp), fun h => absurd h hrange⟩, ⟨fun _ => ⟨hempty, htext, hnone⟩, fun _ => rfl⟩⟩

theorem readsLabel (hspec : WellFormed spec) {target : TableId}
    (htarget : target ∈ spec.tables.map (·.id)) :
    ReadsLabel spec scope target text records
      (do let id ← parseLabel spec scope target text records; .ok (.ref ⟨scope, target, id⟩)) := by
  rcases parseLabel_cases hspec scope htarget text records with
    ⟨hread, hnone⟩ | ⟨i, hread, hone⟩ | ⟨hread, i, j, hne, hi, hj⟩
  · rw [hread]
    refine ⟨fun v => ⟨nofun, ?_⟩, ⟨nofun, ?_⟩, ⟨fun _ => hnone, fun _ => rfl⟩⟩
    · rintro ⟨i, -, hi⟩
      exact absurd ((hi i).2 rfl) (hnone i)
    · rintro ⟨i, -, -, hi, -⟩
      exact absurd hi (hnone i)
  · rw [hread]
    refine ⟨fun v => ⟨fun h => ⟨i, (Except.ok.inj h).symm, hone⟩, ?_⟩, ⟨nofun, ?_⟩,
      ⟨nofun, fun h => absurd ((hone i).2 rfl) (h i)⟩⟩
    · rintro ⟨j, rfl, hj⟩
      obtain rfl := (hj i).1 ((hone i).2 rfl)
      rfl
    · rintro ⟨j, k, hne, hj, hk⟩
      exact absurd (((hone j).1 hj).trans ((hone k).1 hk).symm) hne
  · rw [hread]
    refine ⟨fun v => ⟨nofun, ?_⟩, ⟨fun _ => ⟨i, j, hne, hi, hj⟩, fun _ => rfl⟩,
      ⟨nofun, fun h => absurd hi (h i)⟩⟩
    rintro ⟨k, -, hk⟩
    exact absurd (((hk i).1 hi).trans ((hk j).1 hj).symm) hne

end Cell

/-- A cell of a declared field holds a value of the field. A number is read from the decimal texts
of the numbers in range, and a label from the texts that exactly one record of the target table
shows. -/
theorem parseCell_exact (spec : CheckedAppSpec) (scope : Scope)
    (happ : scope.appId = spec.definition.appId) (table : TableId) (field : RawField)
    (hfield : spec.definition.field table field.id = some field) (text : String)
    (records : List RawRecord) (hcount : records.length ≤ maxRecords) :
    (∀ value, parseCell spec.definition scope table field.id text records = .ok value →
      CellValue scope records field value) ∧
    (field.fieldType = .integer → ReadsNumber "integer" .integer text
      (parseCell spec.definition scope table field.id text records)) ∧
    (field.fieldType = .money → ReadsNumber "money" .money text
      (parseCell spec.definition scope table field.id text records)) ∧
    ∀ target, field.fieldType = .ref target → text ≠ "" → text ≠ "null" →
      startsWith text "rec_" = false → ReadsLabel spec.definition scope target text records
        (parseCell spec.definition scope table field.id text records) := by
  have hspec := wellFormed spec
  refine ⟨fun value => cellValue_of_parseCell hspec happ hfield, fun htype => ?_, fun htype => ?_,
    fun target htype hempty hnull hlabel => ?_⟩
  · rw [parseCell_of_ne_text happ hfield (by simp [htype]), htype]
    exact readsNumber (fun a b => Value.integer.inj) (fun _ => rfl) .integer text
  · rw [parseCell_of_ne_text happ hfield (by simp [htype]), htype]
    exact readsNumber (fun a b => Value.money.inj) (fun _ => rfl) .money text
  · obtain ⟨t, ht, hmem, -⟩ := RawAppSpec.field_some hfield
    have htarget := hspec.references t (RawAppSpec.table_some ht).1 field hmem target htype
    rw [parseCell_of_ne_text happ hfield (by simp [htype]), if_neg hempty, if_neg hnull, htype,
      parsePlainCell, rejectIf_bind_of_not (by simpa using hcount), parseReference,
      if_neg (by simp [IdKind.stem, hlabel])]
    exact readsLabel hspec htarget

/-- An order with its notes. -/
def notedOrder (id : RecordId) (notes : String) : RawRecord :=
  { draftOrder id "u" with
    values := .ofList (shopDefinition.submitRules.map fun rule => (rule.notesField, .text notes)) }

def notedOrders : List RawRecord :=
  [shopProduct recP shopPrice, notedOrder recB "spare", notedOrder recA "gift", draftOrder recO "u"]

theorem parseCell_exact_shop :
    ReadsNumber "integer" .integer "-7"
      (parseCell shopSpec.definition shopScope tblL fldLq "-7" notedOrders) ∧
    ReadsLabel shopSpec.definition shopScope tblO "gift" notedOrders
      (parseCell shopSpec.definition shopScope tblL fldLo "gift" notedOrders) :=
  ⟨(parseCell_exact shopSpec shopScope rfl tblL ⟨fldLq, "Q", false, .integer⟩ (by decide +kernel)
      "-7" notedOrders (by decide)).2.1 rfl,
    (parseCell_exact shopSpec shopScope rfl tblL ⟨fldLo, "O", false, .ref tblO⟩ (by decide +kernel)
      "gift" notedOrders (by decide)).2.2.2 tblO rfl (by decide) (by decide) (by decide +kernel)⟩

example : parseCell shopSpec.definition shopScope tblL fldLo "gift" notedOrders =
    .ok (.ref ⟨shopScope, tblO, recA⟩) := by
  decide +kernel

end Evobase
