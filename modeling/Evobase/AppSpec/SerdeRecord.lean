import Evobase.AppSpec.Model
import Evobase.Foundation.JsonFields

/-!
# Records as JSON

The derived encodings of values, records and requests, and their readers. A value is
tagged by its type beside its content; a reader accepts the tag and the content in
either order, an array of the two, and for the tag an object whose one member has the
type for its name and is null. Records and requests hold at most `maxFieldsPerTable`
values when they are read.
-/

namespace Evobase

open Foundation

namespace Identity

variable {kind : IdKind}

def toJson (a : Identity kind) : Json := .str a.text

def ofJson (j : Json) : Option (Identity kind) := j.str?.bind (ofText? kind)

@[simp] theorem ofJson_toJson (a : Identity kind) : ofJson a.toJson = some a :=
  ofText?_text a

@[simp] theorem exact_toJson (a : Identity kind) : a.toJson.Exact := trivial

end Identity

def Scope.toJson (s : Scope) : Json :=
  .ofFields [("tenant_id", some (.str s.tenantId)), ("app_id", some s.appId.toJson)]

def Scope.ofJson (j : Json) : Option Scope :=
  match j.fields? ["tenant_id", "app_id"] with
  | some [tenantId, appId] => do
      let tenantId ← tenantId.bind Json.str?
      let appId ← appId.bind Identity.ofJson
      Scope.ofParts? tenantId appId
  | _ => none

@[simp] theorem Scope.ofJson_toJson (s : Scope) : ofJson s.toJson = some s := by
  simp [ofJson, toJson, Json.fields?_ofFields]

@[simp] theorem Scope.exact_toJson (s : Scope) : s.toJson.Exact :=
  Json.exact_ofFields (by simp)

def RecordRef.toJson (r : RecordRef) : Json :=
  .ofFields [("scope", some r.scope.toJson), ("table_id", some r.tableId.toJson),
    ("record_id", some r.recordId.toJson)]

def RecordRef.ofJson (j : Json) : Option RecordRef :=
  match j.fields? ["scope", "table_id", "record_id"] with
  | some [scope, tableId, recordId] => do
      let scope ← scope.bind Scope.ofJson
      let tableId ← tableId.bind Identity.ofJson
      let recordId ← recordId.bind Identity.ofJson
      some ⟨scope, tableId, recordId⟩
  | _ => none

@[simp] theorem RecordRef.ofJson_toJson (r : RecordRef) : ofJson r.toJson = some r := by
  simp [ofJson, toJson, Json.fields?_ofFields]

@[simp] theorem RecordRef.exact_toJson (r : RecordRef) : r.toJson.Exact :=
  Json.exact_ofFields (by simp)

namespace Value

/-- The tag of a value. -/
def tag : Value → String
  | .blank => "blank"
  | .null => "null"
  | .text _ => "text"
  | .integer _ => "integer"
  | .bool _ => "bool"
  | .money _ => "money"
  | .ref _ => "ref"

/-- The content of a value; blank and null have none. -/
def content : Value → Option Json
  | .blank | .null => none
  | .text s => some (.str s)
  | .integer n | .money n => some (.ofI64 n)
  | .bool b => some (.bool b)
  | .ref r => some r.toJson

def toJson (v : Value) : Json :=
  .ofFields [("type", some (.str v.tag)), ("value", v.content)]

def unit? (v : Value) : Option Json → Option Value
  | none | some .null => some v
  | _ => none

def ofTagged (tag : String) (content : Option Json) : Option Value :=
  if tag = "blank" then unit? .blank content
  else if tag = "null" then unit? .null content
  else if tag = "text" then (content.bind Json.str?).map .text
  else if tag = "integer" then (content.bind Json.int?).map .integer
  else if tag = "bool" then (content.bind Json.bool?).map .bool
  else if tag = "money" then (content.bind Json.int?).map .money
  else if tag = "ref" then (content.bind RecordRef.ofJson).map .ref
  else none

def ofJson (j : Json) : Option Value :=
  (j.adjacent? "type" "value").bind fun t => ofTagged t.1 t.2

@[simp] theorem ofJson_toJson (v : Value) : ofJson v.toJson = some v := by
  rw [ofJson, toJson, Json.adjacent?_ofFields (by decide)]
  cases v <;> simp [ofTagged, tag, content, unit?]

example : ofJson (.obj [("type", .obj [("text", .null)]), ("value", .str "x")]) =
    some (.text "x") := rfl

@[simp] theorem exact_toJson (v : Value) : v.toJson.Exact :=
  Json.exact_ofFields (by cases v <;> simp [content])

end Value

def valuesToJson (values : OrdMap FieldId Value) : Json :=
  .ofMap Identity.text Value.toJson values

def valuesOfJson (j : Json) : Option (OrdMap FieldId Value) :=
  j.map? maxFieldsPerTable (Identity.ofText? .field) Value.ofJson

theorem valuesOfJson_valuesToJson {values : OrdMap FieldId Value}
    (h : values.entries.length ≤ maxFieldsPerTable) :
    valuesOfJson (valuesToJson values) = some values :=
  Json.map?_ofMap Identity.ofText?_text Value.ofJson_toJson h

@[simp] theorem exact_valuesToJson (values : OrdMap FieldId Value) :
    (valuesToJson values).Exact :=
  Json.exact_ofMap Value.exact_toJson

def RawRecord.toJson (row : RawRecord) : Json :=
  .ofFields [("scope", some row.scope.toJson), ("id", some row.id.toJson),
    ("table_id", some row.tableId.toJson), ("values", some (valuesToJson row.values))]

def RawRecord.ofJson (j : Json) : Option RawRecord :=
  match j.fields? ["scope", "id", "table_id", "values"] with
  | some [scope, id, tableId, values] => do
      let scope ← scope.bind Scope.ofJson
      let id ← id.bind Identity.ofJson
      let tableId ← tableId.bind Identity.ofJson
      let values ← values.bind valuesOfJson
      some ⟨scope, id, tableId, values⟩
  | _ => none

theorem RawRecord.ofJson_toJson {row : RawRecord}
    (h : row.values.entries.length ≤ maxFieldsPerTable) : ofJson row.toJson = some row := by
  simp [ofJson, toJson, Json.fields?_ofFields, valuesOfJson_valuesToJson h]

@[simp] theorem RawRecord.exact_toJson (row : RawRecord) : row.toJson.Exact :=
  Json.exact_ofFields (by simp)

def recordsToJson (records : List RawRecord) : Json := .ofList RawRecord.toJson records

@[simp] theorem exact_recordsToJson (records : List RawRecord) :
    (recordsToJson records).Exact :=
  Json.exact_ofList fun row _ => row.exact_toJson

def RawCommandRequest.toJson (r : RawCommandRequest) : Json :=
  .ofFields [("command_id", some r.commandId.toJson), ("record_id", some r.recordId.toJson),
    ("idempotency_key", some (.str r.idempotencyKey)), ("inputs", some (valuesToJson r.inputs))]

def RawCommandRequest.ofJson (j : Json) : Option RawCommandRequest :=
  match j.fields? ["command_id", "record_id", "idempotency_key", "inputs"] with
  | some [commandId, recordId, idempotencyKey, inputs] => do
      let commandId ← commandId.bind Identity.ofJson
      let recordId ← recordId.bind Identity.ofJson
      let idempotencyKey ← idempotencyKey.bind Json.str?
      let inputs ← inputs.bind valuesOfJson
      some ⟨commandId, recordId, idempotencyKey, inputs⟩
  | _ => none

theorem RawCommandRequest.ofJson_toJson {r : RawCommandRequest}
    (h : r.inputs.entries.length ≤ maxFieldsPerTable) : ofJson r.toJson = some r := by
  simp [ofJson, toJson, Json.fields?_ofFields, valuesOfJson_valuesToJson h]

@[simp] theorem RawCommandRequest.exact_toJson (r : RawCommandRequest) : r.toJson.Exact :=
  Json.exact_ofFields (by simp)

end Evobase
