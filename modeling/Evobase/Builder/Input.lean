import Evobase.AppSpec.Cell
import Evobase.AppSpec.Transition

/-!
# The text that edits a value

`valueInput` is the text that the Builder puts into a cell for the value that is stored there. A
text that would be read as something else is escaped, so an author who changes nothing stores the
value that was there.
-/

namespace Evobase.Builder

open Foundation

def isReserved (text : String) : Bool := text = "" || text = "null" || startsWith text "text:"

def valueInput : Option Value → String
  | none | some .blank => ""
  | some .null => "null"
  | some (.text s) => if isReserved s = true then "text:" ++ s else s
  | some (.integer n) | some (.money n) => toString n.val
  | some (.bool b) => if b then "true" else "false"
  | some (.ref r) => r.recordId.text

section Read

variable {spec : RawAppSpec} {scope : Scope} {table : TableId} {field : RawField}
  {records : List RawRecord}

theorem escaped?_eq_none {s : String} (h : startsWith s "text:" = false) (fieldType : FieldType) :
    escaped? fieldType s = none := by
  have hstrip : stripPrefix? "text:" s = none := by simp [stripPrefix?, h]
  rw [escaped?, hstrip, ite_self]

theorem parseCell_text (happ : scope.appId = spec.appId)
    (hfield : spec.field table field.id = some field) (htype : field.fieldType = .text) {s : String}
    (hshort : s.utf8ByteSize ≤ maxTextBytes) :
    parseCell spec scope table field.id (valueInput (some (.text s))) records = .ok (.text s) := by
  rw [parseCell_of_field happ hfield, htype, valueInput]
  by_cases hreserved : isReserved s = true
  · have hescaped : escaped? .text ("text:" ++ s) = some s := by
      rw [escaped?, if_pos rfl, stripPrefix?_eq_some.2 rfl]
    rw [if_pos hreserved, hescaped]
    simp only [rejectIf_bind_of_not (not_lt.2 hshort)]
  · have hplain : isReserved s = false := by simpa using hreserved
    simp only [isReserved, Bool.or_eq_false_iff, decide_eq_false_iff_not] at hplain
    rw [if_neg hreserved, escaped?_eq_none hplain.2]
    simp only [if_neg hplain.1.1, if_neg hplain.1.2, parsePlainCell,
      rejectIf_bind_of_not (not_lt.2 hshort)]

theorem parseCellInteger_toString (fieldType : FieldType) (n : I64) :
    parseCellInteger fieldType (toString n.val) = .ok n := by
  rw [parseCellInteger_of_decimal (decimal_toString n.val), Bounded.ofInt?_val]
  rfl

theorem parseCell_identity (happ : scope.appId = spec.appId)
    (hfield : spec.field table field.id = some field) (hcount : records.length ≤ maxRecords)
    {target : TableId} (htype : field.fieldType = .ref target) {row : RawRecord}
    (hrow : row ∈ records) (hscope : row.scope = scope) (htable : row.tableId = target) :
    parseCell spec scope table field.id row.id.text records = .ok (.ref ⟨scope, target, row.id⟩) := by
  have hstem : startsWith row.id.text IdKind.record.stem = true := by
    have h := row.id.wellFormed
    simp only [IdKind.accepts, Bool.and_eq_true] at h
    exact h.1.1.2
  obtain ⟨rest, hrest⟩ : ∃ rest, row.id.text.toList = 'r' :: 'e' :: rest := by
    obtain ⟨l, hl⟩ := List.isPrefixOf_iff_prefix.1 hstem
    exact ⟨'c' :: '_' :: l, hl.symm⟩
  have hempty : row.id.text ≠ "" := fun h => by simp [h] at hrest
  have hnull : row.id.text ≠ "null" := fun h => by simp [h] at hrest
  rw [parseCell_of_ne_text happ hfield (by simp [htype]), if_neg hempty, if_neg hnull, htype,
    parsePlainCell, rejectIf_bind_of_not (not_lt.2 hcount), parseReference, if_pos hstem,
    parseIdentity_eq_ok_iff.2 ⟨rfl, row, hrow, hscope, htable, rfl⟩]
  rfl

theorem toString_ne_reserved (z : Int) : toString z ≠ "" ∧ toString z ≠ "null" :=
  decimal_ne_reserved (decimal_toString z)

/-- The text of a valid value is read as the value. -/
theorem parseCell_of_validValue (happ : scope.appId = spec.appId)
    (hfield : spec.field table field.id = some field) (hcount : records.length ≤ maxRecords)
    (hscope : ∀ row ∈ records, row.scope = scope) {value : Value}
    (hvalid : ValidValue scope records field value) :
    parseCell spec scope table field.id (valueInput (some value)) records = .ok value := by
  have htype := hvalid.type
  cases value with
  | blank =>
      rw [parseCell_of_field happ hfield, valueInput, escaped?_eq_none (by decide)]
      rfl
  | null =>
      rw [parseCell_of_field happ hfield, valueInput, escaped?_eq_none (by decide)]
      rfl
  | text s =>
      have hfieldType : field.fieldType = .text := by
        have h := htype rfl
        cases hf : field.fieldType <;> simp [hf, matchesType] at h ⊢
      exact parseCell_text happ hfield hfieldType (by simpa [Value.tooLong] using hvalid.short)
  | integer n =>
      have hfieldType : field.fieldType = .integer := by
        have h := htype rfl
        cases hf : field.fieldType <;> simp [hf, matchesType] at h ⊢
      obtain ⟨hempty, hnull⟩ := toString_ne_reserved n.val
      rw [parseCell_of_ne_text happ hfield (by simp [hfieldType]), valueInput, if_neg hempty,
        if_neg hnull, hfieldType, parsePlainCell, parseCellInteger_toString]
      rfl
  | money n =>
      have hfieldType : field.fieldType = .money := by
        have h := htype rfl
        cases hf : field.fieldType <;> simp [hf, matchesType] at h ⊢
      obtain ⟨hempty, hnull⟩ := toString_ne_reserved n.val
      rw [parseCell_of_ne_text happ hfield (by simp [hfieldType]), valueInput, if_neg hempty,
        if_neg hnull, hfieldType, parsePlainCell, parseCellInteger_toString]
      rfl
  | bool b =>
      have hfieldType : field.fieldType = .bool := by
        have h := htype rfl
        cases hf : field.fieldType <;> simp [hf, matchesType] at h ⊢
      rw [parseCell_of_ne_text happ hfield (by simp [hfieldType]), hfieldType]
      cases b <;> rfl
  | ref reference =>
      obtain ⟨hrefScope, hfieldType, row, hrow, htable, hid⟩ := hvalid.reference reference rfl
      have hread := parseCell_identity happ hfield hcount hfieldType hrow (hscope row hrow) htable
      rw [hid, ← hrefScope] at hread
      rw [← hrefScope]
      exact hread

end Read

/-- Every stored value is read back from its text: a blank or null cell, a text with whatever it
starts with, a number, a truth value and a reference. -/
theorem parseCell_valueInput (spec : CheckedAppSpec) (facts : CheckedRecords)
    (hfacts : facts.ValidFor spec.definition) (record : RawRecord) (hrecord : record ∈ facts.records)
    (field : RawField) (hfield : spec.definition.field record.tableId field.id = some field) :
    ∃ value, record.values.get? field.id = some value ∧
      parseCell spec.definition facts.scope record.tableId field.id (valueInput (some value))
        facts.records = .ok value := by
  have hspec := wellFormed spec
  obtain ⟨hvalid, hnormal⟩ := (validFor_iff hspec).1 hfacts
  obtain ⟨table, htable, hvalues⟩ := (hvalid.each record hrecord).table
  obtain ⟨t, ht, hmem, -⟩ := RawAppSpec.field_some hfield
  obtain rfl := Option.some.inj (htable.symm.trans ht)
  have hget : record.values.get? field.id = some (record.value field.id) := by
    rw [← hnormal] at hrecord
    obtain ⟨row, -, rfl⟩ := mem_normalized_iff.1 hrecord
    have hdeclared : spec.definition.field row.tableId field.id = some field := hfield
    rw [RawRecord.value, get?_normalize hspec, if_pos (by simp [hdeclared])]
    rfl
  exact ⟨_, hget, parseCell_of_validValue hvalid.app hfield hvalid.count
    (fun row hrow => (hvalid.each row hrow).inScope) (hvalues field hmem)⟩

theorem parseCell_valueInput_owner :
    ∃ value, (openTicket ⟨"rec_a", by decide⟩ "null").values.get? ⟨"fld_o", by decide⟩ = some value ∧
      parseCell ticketSpec.definition ticketScope ⟨"tbl_t", by decide⟩ ⟨"fld_o", by decide⟩
        (valueInput (some value)) [openTicket ⟨"rec_a", by decide⟩ "null"] = .ok value :=
  parseCell_valueInput ticketSpec ⟨ticketScope, [openTicket ⟨"rec_a", by decide⟩ "null"]⟩
    ⟨[openTicket ⟨"rec_a", by decide⟩ "null"], by decide +kernel⟩ _ List.mem_cons_self
    ⟨⟨"fld_o", by decide⟩, "O", true, .text⟩ (by decide +kernel)

end Evobase.Builder
