import Evobase.AppSpec.SerdeDefinition
import Evobase.Foundation.JsonTokens

/-!
# The transfer objects of the host

What the host and its clients exchange: a command request, a list of records, the
metadata of an app, a receipt and an error. Scopes never travel: a reference names a
table and a record of the app the route selects. A data revision travels as a decimal
text. Every object is written with all of its fields in the order of their declaration
and is read back from what is written.

Each object has its encoding, its reader and its own check. Tags are read as the derived readers
do, by name or from an object with that one member.
-/

namespace Evobase

open Foundation

/-- A data revision. -/
structure RevisionDto where
  revision : U64
deriving DecidableEq, Repr

namespace RevisionDto

def text (r : RevisionDto) : String := Nat.repr r.revision.val.toNat

/-- The revision of a canonical decimal text. -/
def ofText? (text : String) : Option RevisionDto :=
  let bytes := Json.utf8 text.toList
  if bytes = [] ∨ bytes.length > 20 ∨ (∃ b ∈ bytes, Json.isDigitByte b = false) ∨
      (bytes.length > 1 ∧ bytes.head? = some 48) then none
  else (Bounded.ofInt? (Json.digitsValue bytes)).map .mk

def toJson (r : RevisionDto) : Json := .str r.text

def ofJson (j : Json) : Option RevisionDto := j.str?.bind ofText?

theorem digitBytes_length_le {n : Nat} (h : n ≤ 18446744073709551615) :
    (Json.digitBytes n).length ≤ 20 := by
  rw [Json.digitBytes_eq_map, List.length_map, Nat.length_toDigits_le_iff (by decide) (by decide)]
  exact h.trans_lt (by decide)

theorem digitBytes_head (n : Nat) (h : 1 < (Json.digitBytes n).length) :
    (Json.digitBytes n).head? ≠ some 48 := by
  induction n using Nat.strong_induction_on with
  | _ n ih =>
      have leading : ∀ d, d < 10 → 0 < d → (Json.digitBytes d).head? ≠ some 48 := by decide
      rw [Json.digitBytes_eq_map, Nat.toDigits_eq_if (by decide)] at h ⊢
      split_ifs at h ⊢ with hn
      · simp at h
      · have hpos : 0 < n / 10 := by omega
        have hne := Json.digitBytes_ne_nil (n / 10)
        have hhead : (Json.digitBytes (n / 10)).head? ≠ some 48 := by
          by_cases hsmall : n / 10 < 10
          · exact leading _ hsmall hpos
          · refine ih (n / 10) (by omega) ?_
            rw [Json.digitBytes_eq_map, List.length_map]
            by_contra hshort
            rw [not_lt, Nat.length_toDigits_le_iff (by decide) (by decide)] at hshort
            omega
        rw [Json.digitBytes_eq_map] at hne hhead
        rwa [List.map_append, List.head?_append_of_ne_nil _ hne]

@[simp] theorem ofText?_text (r : RevisionDto) : ofText? r.text = some r := by
  obtain ⟨⟨val, lower, upper⟩⟩ := r
  obtain ⟨n, rfl⟩ := Int.eq_ofNat_of_zero_le lower
  have hbytes : Json.utf8 (text ⟨⟨n, lower, upper⟩⟩).toList = Json.digitBytes n := by
    rw [text, Json.digitBytes, ← Nat.toList_repr]
    rfl
  have hcanonical : ¬ (Json.digitBytes n = [] ∨ (Json.digitBytes n).length > 20 ∨
      (∃ b ∈ Json.digitBytes n, Json.isDigitByte b = false) ∨
      ((Json.digitBytes n).length > 1 ∧ (Json.digitBytes n).head? = some 48)) := by
    rintro (hnil | hlong | ⟨b, hb, hdigit⟩ | ⟨hlength, hzero⟩)
    · exact Json.digitBytes_ne_nil n hnil
    · exact absurd (digitBytes_length_le (by exact_mod_cast upper)) (by omega)
    · simp [Json.isDigitByte_of_mem hb] at hdigit
    · exact digitBytes_head n hlength hzero
  have hvalue : (Bounded.ofInt? (n : Int) : Option U64) = some ⟨n, lower, upper⟩ :=
    Bounded.ofInt?_eq_some.2 rfl
  simp only [ofText?, hbytes, if_neg hcanonical, Json.digitsValue_digitBytes, hvalue,
    Option.map_some]

@[simp] theorem ofJson_toJson (r : RevisionDto) : ofJson r.toJson = some r := ofText?_text r

@[simp] theorem exact_toJson (r : RevisionDto) : r.toJson.Exact := trivial

@[simp] theorem uniqueKeys_toJson (r : RevisionDto) : r.toJson.UniqueKeys := trivial

end RevisionDto

@[simp] theorem Identity.uniqueKeys_toJson {kind : IdKind} (a : Identity kind) :
    a.toJson.UniqueKeys := trivial

/-- A record of a table of the selected app. -/
structure RefDto where
  tableId : TableId
  recordId : RecordId
deriving DecidableEq, Repr

def RefDto.toJson (r : RefDto) : Json :=
  .ofFields [("table_id", some r.tableId.toJson), ("record_id", some r.recordId.toJson)]

def RefDto.ofJson (j : Json) : Option RefDto :=
  match j.allFields? ["table_id", "record_id"] with
  | some [tableId, recordId] => do
      let tableId ← tableId.bind Identity.ofJson
      let recordId ← recordId.bind Identity.ofJson
      some ⟨tableId, recordId⟩
  | _ => none

@[simp] theorem RefDto.ofJson_toJson (r : RefDto) : ofJson r.toJson = some r := by
  simp [ofJson, toJson, Json.allFields?_ofFields]

@[simp] theorem RefDto.exact_toJson (r : RefDto) : r.toJson.Exact :=
  Json.exact_ofFields (by simp)

@[simp] theorem RefDto.uniqueKeys_toJson (r : RefDto) : r.toJson.UniqueKeys :=
  Json.uniqueKeys_ofFields (by simp) (by simp)

/-- A cell as it travels. -/
inductive ValueDto where
  | blank
  | null
  | text (text : String)
  | integer (value : I64)
  | bool (value : Bool)
  | money (value : I64)
  | ref (reference : RefDto)
deriving DecidableEq, Repr

namespace ValueDto

/-- The cell, read in the scope of the host. -/
def toDomain (v : ValueDto) (scope : Scope) : Value :=
  match v with
  | .blank => .blank
  | .null => .null
  | .text s => .text s
  | .integer n => .integer n
  | .bool b => .bool b
  | .money n => .money n
  | .ref r => .ref ⟨scope, r.tableId, r.recordId⟩

/-- The tag of a value. -/
def tag : ValueDto → String
  | .blank => "blank"
  | .null => "null"
  | .text _ => "text"
  | .integer _ => "integer"
  | .bool _ => "bool"
  | .money _ => "money"
  | .ref _ => "ref"

/-- The content of a value; blank and null have none. -/
def content : ValueDto → Option Json
  | .blank | .null => none
  | .text s => some (.str s)
  | .integer n | .money n => some (.ofI64 n)
  | .bool b => some (.bool b)
  | .ref r => some r.toJson

def toJson (v : ValueDto) : Json :=
  .ofFields [("type", some (.str v.tag)), ("value", v.content)]

def unit? (v : ValueDto) : Option Json → Option ValueDto
  | none | some .null => some v
  | _ => none

def ofTagged (tag : String) (content : Option Json) : Option ValueDto :=
  if tag = "blank" then unit? .blank content
  else if tag = "null" then unit? .null content
  else if tag = "text" then (content.bind Json.str?).map .text
  else if tag = "integer" then (content.bind Json.int?).map .integer
  else if tag = "bool" then (content.bind Json.bool?).map .bool
  else if tag = "money" then (content.bind Json.int?).map .money
  else if tag = "ref" then (content.bind RefDto.ofJson).map .ref
  else none

def ofJson (j : Json) : Option ValueDto :=
  (j.adjacent? "type" "value").bind fun t => ofTagged t.1 t.2

@[simp] theorem ofJson_toJson (v : ValueDto) : ofJson v.toJson = some v := by
  rw [ofJson, toJson, Json.adjacent?_ofFields (by decide)]
  cases v <;> simp [ofTagged, tag, content, unit?]

@[simp] theorem exact_toJson (v : ValueDto) : v.toJson.Exact :=
  Json.exact_ofFields (by cases v <;> simp [content])

@[simp] theorem uniqueKeys_toJson (v : ValueDto) : v.toJson.UniqueKeys :=
  Json.uniqueKeys_ofFields (by simp) (by cases v <;> simp [content])

end ValueDto

abbrev ValuesDto := OrdMap FieldId ValueDto

namespace ValuesDto

def toJson (values : ValuesDto) : Json := .ofMap Identity.text ValueDto.toJson values

/-- The values of an object with different fields, at most `maxFieldsPerTable` of them. -/
def ofJson (j : Json) : Option ValuesDto :=
  j.map? maxFieldsPerTable (Identity.ofText? .field) ValueDto.ofJson

theorem ofJson_toJson {values : ValuesDto} (h : values.entries.length ≤ maxFieldsPerTable) :
    ofJson (toJson values) = some values :=
  Json.map?_ofMap Identity.ofText?_text ValueDto.ofJson_toJson h

@[simp] theorem exact_toJson (values : ValuesDto) : (toJson values).Exact :=
  Json.exact_ofMap ValueDto.exact_toJson

@[simp] theorem uniqueKeys_toJson (values : ValuesDto) : (toJson values).UniqueKeys :=
  Json.uniqueKeys_ofMap Identity.text_injective ValueDto.uniqueKeys_toJson

end ValuesDto

/-- A request to run a command at a revision and a release. -/
structure CommandRequestDto where
  apiVersion : U32
  commandId : String
  recordId : RecordId
  params : ValuesDto
  requestKey : String
  expectedRevision : RevisionDto
  releaseId : String
deriving DecidableEq

namespace CommandRequestDto

def toJson (x : CommandRequestDto) : Json :=
  .ofFields [("api_version", some (.ofU32 x.apiVersion)), ("command_id", some (.str x.commandId)),
    ("record_id", some x.recordId.toJson), ("params", some x.params.toJson),
    ("request_key", some (.str x.requestKey)),
    ("expected_revision", some x.expectedRevision.toJson),
    ("release_id", some (.str x.releaseId))]

def ofJson (j : Json) : Option CommandRequestDto :=
  match j.allFields? ["api_version", "command_id", "record_id", "params", "request_key",
    "expected_revision", "release_id"] with
  | some [apiVersion, commandId, recordId, params, requestKey, expectedRevision, releaseId] => do
      let apiVersion ← apiVersion.bind Json.int?
      let commandId ← commandId.bind Json.str?
      let recordId ← recordId.bind Identity.ofJson
      let params ← params.bind ValuesDto.ofJson
      let requestKey ← requestKey.bind Json.str?
      let expectedRevision ← expectedRevision.bind RevisionDto.ofJson
      let releaseId ← releaseId.bind Json.str?
      some ⟨apiVersion, commandId, recordId, params, requestKey, expectedRevision, releaseId⟩
  | _ => none

theorem ofJson_toJson {x : CommandRequestDto}
    (h : x.params.entries.length ≤ maxFieldsPerTable) : ofJson x.toJson = some x := by
  simp [ofJson, toJson, Json.allFields?_ofFields, ValuesDto.ofJson_toJson h]

@[simp] theorem exact_toJson (x : CommandRequestDto) : x.toJson.Exact :=
  Json.exact_ofFields (by simp)

@[simp] theorem uniqueKeys_toJson (x : CommandRequestDto) : x.toJson.UniqueKeys :=
  Json.uniqueKeys_ofFields (by simp) (by simp)

end CommandRequestDto

/-- The receipt of a committed command; `replayed` when it was committed before. -/
structure ReceiptResponseDto where
  apiVersion : U32
  appId : AppId
  commandId : String
  recordId : RecordId
  releaseId : String
  requestKey : String
  revision : RevisionDto
  replayed : Bool
deriving DecidableEq

namespace ReceiptResponseDto

def toJson (x : ReceiptResponseDto) : Json :=
  .ofFields [("api_version", some (.ofU32 x.apiVersion)), ("app_id", some x.appId.toJson),
    ("command_id", some (.str x.commandId)), ("record_id", some x.recordId.toJson),
    ("release_id", some (.str x.releaseId)), ("request_key", some (.str x.requestKey)),
    ("revision", some x.revision.toJson), ("replayed", some (.bool x.replayed))]

def ofJson (j : Json) : Option ReceiptResponseDto :=
  match j.allFields? ["api_version", "app_id", "command_id", "record_id", "release_id",
    "request_key", "revision", "replayed"] with
  | some [apiVersion, appId, commandId, recordId, releaseId, requestKey, revision, replayed] => do
      let apiVersion ← apiVersion.bind Json.int?
      let appId ← appId.bind Identity.ofJson
      let commandId ← commandId.bind Json.str?
      let recordId ← recordId.bind Identity.ofJson
      let releaseId ← releaseId.bind Json.str?
      let requestKey ← requestKey.bind Json.str?
      let revision ← revision.bind RevisionDto.ofJson
      let replayed ← replayed.bind Json.bool?
      some ⟨apiVersion, appId, commandId, recordId, releaseId, requestKey, revision, replayed⟩
  | _ => none

@[simp] theorem ofJson_toJson (x : ReceiptResponseDto) : ofJson x.toJson = some x := by
  simp [ofJson, toJson, Json.allFields?_ofFields]

@[simp] theorem exact_toJson (x : ReceiptResponseDto) : x.toJson.Exact :=
  Json.exact_ofFields (by simp)

@[simp] theorem uniqueKeys_toJson (x : ReceiptResponseDto) : x.toJson.UniqueKeys :=
  Json.uniqueKeys_ofFields (by simp) (by simp)

end ReceiptResponseDto

@[simp] theorem FieldType.uniqueKeys_toJson (t : FieldType) : t.toJson.UniqueKeys := by
  cases t <;> exact Json.uniqueKeys_ofFields (by simp) (by simp)

structure FieldMetadataDto where
  fieldId : FieldId
  name : String
  fieldType : FieldType
  required : Bool
deriving DecidableEq

namespace FieldMetadataDto

def toJson (x : FieldMetadataDto) : Json :=
  .ofFields [("field_id", some x.fieldId.toJson), ("name", some (.str x.name)),
    ("field_type", some x.fieldType.toJson), ("required", some (.bool x.required))]

def ofJson (j : Json) : Option FieldMetadataDto :=
  match j.allFields? ["field_id", "name", "field_type", "required"] with
  | some [fieldId, name, fieldType, required] => do
      let fieldId ← fieldId.bind Identity.ofJson
      let name ← name.bind Json.str?
      let fieldType ← fieldType.bind FieldType.ofJson
      let required ← required.bind Json.bool?
      some ⟨fieldId, name, fieldType, required⟩
  | _ => none

@[simp] theorem ofJson_toJson (x : FieldMetadataDto) : ofJson x.toJson = some x := by
  simp [ofJson, toJson, Json.allFields?_ofFields]

@[simp] theorem exact_toJson (x : FieldMetadataDto) : x.toJson.Exact :=
  Json.exact_ofFields (by simp)

@[simp] theorem uniqueKeys_toJson (x : FieldMetadataDto) : x.toJson.UniqueKeys :=
  Json.uniqueKeys_ofFields (by simp) (by simp)

end FieldMetadataDto

structure TableMetadataDto where
  tableId : TableId
  name : String
  fields : List FieldMetadataDto
deriving DecidableEq

namespace TableMetadataDto

def toJson (x : TableMetadataDto) : Json :=
  .ofFields [("table_id", some x.tableId.toJson), ("name", some (.str x.name)),
    ("fields", some (.ofList FieldMetadataDto.toJson x.fields))]

def ofJson (j : Json) : Option TableMetadataDto :=
  match j.allFields? ["table_id", "name", "fields"] with
  | some [tableId, name, fields] => do
      let tableId ← tableId.bind Identity.ofJson
      let name ← name.bind Json.str?
      let fields ← fields.bind (Json.list? FieldMetadataDto.ofJson)
      some ⟨tableId, name, fields⟩
  | _ => none

@[simp] theorem ofJson_toJson (x : TableMetadataDto) : ofJson x.toJson = some x := by
  simp [ofJson, toJson, Json.allFields?_ofFields, Json.list?_ofList]

@[simp] theorem exact_toJson (x : TableMetadataDto) : x.toJson.Exact :=
  Json.exact_ofFields (by simp [Json.exact_ofList])

@[simp] theorem uniqueKeys_toJson (x : TableMetadataDto) : x.toJson.UniqueKeys :=
  Json.uniqueKeys_ofFields (by simp) (by simp [Json.uniqueKeys_ofList])

end TableMetadataDto

/-- A command, and the records it is offered for. -/
structure CommandMetadataDto where
  commandId : String
  name : String
  tableId : TableId
  inputFields : List FieldMetadataDto
  eligibleRecordIds : List RecordId
deriving DecidableEq

namespace CommandMetadataDto

def toJson (x : CommandMetadataDto) : Json :=
  .ofFields [("command_id", some (.str x.commandId)), ("name", some (.str x.name)),
    ("table_id", some x.tableId.toJson),
    ("input_fields", some (.ofList FieldMetadataDto.toJson x.inputFields)),
    ("eligible_record_ids", some (.ofList Identity.toJson x.eligibleRecordIds))]

def ofJson (j : Json) : Option CommandMetadataDto :=
  match j.allFields? ["command_id", "name", "table_id", "input_fields",
    "eligible_record_ids"] with
  | some [commandId, name, tableId, inputFields, eligibleRecordIds] => do
      let commandId ← commandId.bind Json.str?
      let name ← name.bind Json.str?
      let tableId ← tableId.bind Identity.ofJson
      let inputFields ← inputFields.bind (Json.list? FieldMetadataDto.ofJson)
      let eligibleRecordIds ← eligibleRecordIds.bind (Json.list? Identity.ofJson)
      some ⟨commandId, name, tableId, inputFields, eligibleRecordIds⟩
  | _ => none

@[simp] theorem ofJson_toJson (x : CommandMetadataDto) : ofJson x.toJson = some x := by
  simp [ofJson, toJson, Json.allFields?_ofFields, Json.list?_ofList]

@[simp] theorem exact_toJson (x : CommandMetadataDto) : x.toJson.Exact :=
  Json.exact_ofFields (by simp [Json.exact_ofList])

@[simp] theorem uniqueKeys_toJson (x : CommandMetadataDto) : x.toJson.UniqueKeys :=
  Json.uniqueKeys_ofFields (by simp) (by simp [Json.uniqueKeys_ofList])

end CommandMetadataDto

/-- What a caller may see of an app. The canonical definition is present for design only. -/
structure MetadataResponseDto where
  apiVersion : U32
  appId : AppId
  releaseId : String
  revision : RevisionDto
  canonicalAppspec : Option String
  supported : List String
  tables : List TableMetadataDto
  commands : List CommandMetadataDto
deriving DecidableEq

namespace MetadataResponseDto

def toJson (x : MetadataResponseDto) : Json :=
  .ofFields [("api_version", some (.ofU32 x.apiVersion)), ("app_id", some x.appId.toJson),
    ("release_id", some (.str x.releaseId)), ("revision", some x.revision.toJson),
    ("canonical_appspec", some (Json.orNull .str x.canonicalAppspec)),
    ("supported", some (.ofList .str x.supported)),
    ("tables", some (.ofList TableMetadataDto.toJson x.tables)),
    ("commands", some (.ofList CommandMetadataDto.toJson x.commands))]

def ofJson (j : Json) : Option MetadataResponseDto :=
  match j.allFields? ["api_version", "app_id", "release_id", "revision", "canonical_appspec",
    "supported", "tables", "commands"] with
  | some [apiVersion, appId, releaseId, revision, canonicalAppspec,
      supported, tables, commands] => do
      let apiVersion ← apiVersion.bind Json.int?
      let appId ← appId.bind Identity.ofJson
      let releaseId ← releaseId.bind Json.str?
      let revision ← revision.bind RevisionDto.ofJson
      let canonicalAppspec ← Json.optional? Json.str? canonicalAppspec
      let supported ← supported.bind (Json.list? Json.str?)
      let tables ← tables.bind (Json.list? TableMetadataDto.ofJson)
      let commands ← commands.bind (Json.list? CommandMetadataDto.ofJson)
      some ⟨apiVersion, appId, releaseId, revision, canonicalAppspec, supported, tables, commands⟩
  | _ => none

@[simp] theorem ofJson_toJson (x : MetadataResponseDto) : ofJson x.toJson = some x := by
  have hsupported : Json.list? Json.str? (.ofList .str x.supported) = some x.supported :=
    Json.list?_ofList fun s _ => Json.str?_str s
  simp [ofJson, toJson, Json.allFields?_ofFields, Json.list?_ofList, hsupported]

@[simp] theorem exact_toJson (x : MetadataResponseDto) : x.toJson.Exact :=
  Json.exact_ofFields (by simp [Json.exact_ofList])

@[simp] theorem uniqueKeys_toJson (x : MetadataResponseDto) : x.toJson.UniqueKeys :=
  Json.uniqueKeys_ofFields (by simp) (by simp [Json.uniqueKeys_ofList])

end MetadataResponseDto

structure RecordDto where
  recordId : RecordId
  values : ValuesDto
deriving DecidableEq

namespace RecordDto

def toJson (x : RecordDto) : Json :=
  .ofFields [("record_id", some x.recordId.toJson), ("values", some x.values.toJson)]

def ofJson (j : Json) : Option RecordDto :=
  match j.allFields? ["record_id", "values"] with
  | some [recordId, values] => do
      let recordId ← recordId.bind Identity.ofJson
      let values ← values.bind ValuesDto.ofJson
      some ⟨recordId, values⟩
  | _ => none

theorem ofJson_toJson {x : RecordDto} (h : x.values.entries.length ≤ maxFieldsPerTable) :
    ofJson x.toJson = some x := by
  simp [ofJson, toJson, Json.allFields?_ofFields, ValuesDto.ofJson_toJson h]

@[simp] theorem exact_toJson (x : RecordDto) : x.toJson.Exact :=
  Json.exact_ofFields (by simp)

@[simp] theorem uniqueKeys_toJson (x : RecordDto) : x.toJson.UniqueKeys :=
  Json.uniqueKeys_ofFields (by simp) (by simp)

end RecordDto

/-- The first records of a table; `hasMore` when there are others. -/
structure ListResponseDto where
  apiVersion : U32
  appId : AppId
  tableId : TableId
  releaseId : String
  revision : RevisionDto
  records : List RecordDto
  hasMore : Bool
deriving DecidableEq

namespace ListResponseDto

def toJson (x : ListResponseDto) : Json :=
  .ofFields [("api_version", some (.ofU32 x.apiVersion)), ("app_id", some x.appId.toJson),
    ("table_id", some x.tableId.toJson), ("release_id", some (.str x.releaseId)),
    ("revision", some x.revision.toJson), ("records", some (.ofList RecordDto.toJson x.records)),
    ("has_more", some (.bool x.hasMore))]

def ofJson (j : Json) : Option ListResponseDto :=
  match j.allFields? ["api_version", "app_id", "table_id", "release_id", "revision", "records",
    "has_more"] with
  | some [apiVersion, appId, tableId, releaseId, revision, records, hasMore] => do
      let apiVersion ← apiVersion.bind Json.int?
      let appId ← appId.bind Identity.ofJson
      let tableId ← tableId.bind Identity.ofJson
      let releaseId ← releaseId.bind Json.str?
      let revision ← revision.bind RevisionDto.ofJson
      let records ← records.bind (Json.list? RecordDto.ofJson)
      let hasMore ← hasMore.bind Json.bool?
      some ⟨apiVersion, appId, tableId, releaseId, revision, records, hasMore⟩
  | _ => none

theorem ofJson_toJson {x : ListResponseDto}
    (h : ∀ record ∈ x.records, record.values.entries.length ≤ maxFieldsPerTable) :
    ofJson x.toJson = some x := by
  have hrecords : Json.list? RecordDto.ofJson (.ofList RecordDto.toJson x.records) =
      some x.records :=
    Json.list?_ofList fun record hrecord => RecordDto.ofJson_toJson (h record hrecord)
  simp [ofJson, toJson, Json.allFields?_ofFields, hrecords]

@[simp] theorem exact_toJson (x : ListResponseDto) : x.toJson.Exact :=
  Json.exact_ofFields (by simp [Json.exact_ofList])

@[simp] theorem uniqueKeys_toJson (x : ListResponseDto) : x.toJson.UniqueKeys :=
  Json.uniqueKeys_ofFields (by simp) (by simp [Json.uniqueKeys_ofList])

end ListResponseDto

/-- The kinds of errors the host reports. -/
inductive ErrorCodeDto where
  | denied
  | unsupported
  | conflict
  | validation
  | notFound
  | internal
deriving DecidableEq, Repr

namespace ErrorCodeDto

def all : List ErrorCodeDto := [.denied, .unsupported, .conflict, .validation, .notFound, .internal]

def name : ErrorCodeDto → String
  | .denied => "denied"
  | .unsupported => "unsupported"
  | .conflict => "conflict"
  | .validation => "validation"
  | .notFound => "not_found"
  | .internal => "internal"

def ofName? (name : String) : Option ErrorCodeDto := all.find? fun code => code.name = name

def toJson (code : ErrorCodeDto) : Json := .str code.name

def ofJson (j : Json) : Option ErrorCodeDto := j.variantName?.bind ofName?

@[simp] theorem ofJson_toJson (code : ErrorCodeDto) : ofJson code.toJson = some code := by
  cases code <;> decide

@[simp] theorem exact_toJson (code : ErrorCodeDto) : code.toJson.Exact := trivial

@[simp] theorem uniqueKeys_toJson (code : ErrorCodeDto) : code.toJson.UniqueKeys := trivial

end ErrorCodeDto

structure ApiErrorDto where
  apiVersion : U32
  code : ErrorCodeDto
  message : String
  field : Option String
deriving DecidableEq

namespace ApiErrorDto

def toJson (x : ApiErrorDto) : Json :=
  .ofFields [("api_version", some (.ofU32 x.apiVersion)), ("code", some x.code.toJson),
    ("message", some (.str x.message)), ("field", some (Json.orNull .str x.field))]

def ofJson (j : Json) : Option ApiErrorDto :=
  match j.allFields? ["api_version", "code", "message", "field"] with
  | some [apiVersion, code, message, field] => do
      let apiVersion ← apiVersion.bind Json.int?
      let code ← code.bind ErrorCodeDto.ofJson
      let message ← message.bind Json.str?
      let field ← Json.optional? Json.str? field
      some ⟨apiVersion, code, message, field⟩
  | _ => none

@[simp] theorem ofJson_toJson (x : ApiErrorDto) : ofJson x.toJson = some x := by
  simp [ofJson, toJson, Json.allFields?_ofFields]

@[simp] theorem exact_toJson (x : ApiErrorDto) : x.toJson.Exact :=
  Json.exact_ofFields (by simp)

@[simp] theorem uniqueKeys_toJson (x : ApiErrorDto) : x.toJson.UniqueKeys :=
  Json.uniqueKeys_ofFields (by simp) (by simp)

end ApiErrorDto

end Evobase
