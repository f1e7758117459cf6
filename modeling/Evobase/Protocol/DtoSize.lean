import Evobase.AppSpec.DefinitionSize
import Evobase.Protocol.Wire

/-!
# How deep and how large responses are

Lists and metadata are nested at most six deep, whatever they hold. A cell takes no more nodes
as it travels than as it is stored, and a record takes eight nodes less: its scope and its table
stay behind.
-/

namespace Evobase

open Foundation

@[simp] theorem RevisionDto.neat_toJson (d : Nat) (r : RevisionDto) : r.toJson.Neat d :=
  Json.neat_str d r.text

theorem RefDto.neat_toJson (r : RefDto) : r.toJson.Neat 1 :=
  Json.neat_ofFields (by simp) (by simp)

theorem ValueDto.neat_toJson (v : ValueDto) : v.toJson.Neat 2 := by
  have hcontent : ∀ j ∈ v.content, j.Neat 1 := by
    cases v <;> simp [content, RefDto.neat_toJson]
  exact Json.neat_ofFields (by simp) (by simpa using hcontent)

theorem ValuesDto.neat_toJson (values : ValuesDto) : (ValuesDto.toJson values).Neat 3 :=
  Json.neat_ofMap Identity.text_injective ValueDto.neat_toJson

theorem RecordDto.neat_toJson (x : RecordDto) : x.toJson.Neat 4 :=
  Json.neat_ofFields (by simp) (by simp [x.values.neat_toJson])

theorem ListResponseDto.neat_toJson (x : ListResponseDto) : x.toJson.Neat 6 := by
  have hrecords : (Json.ofList RecordDto.toJson x.records).Neat 5 :=
    Json.neat_ofList fun record _ => record.neat_toJson
  exact Json.neat_ofFields (by simp) (by simpa using hrecords)

theorem FieldMetadataDto.neat_toJson (x : FieldMetadataDto) : x.toJson.Neat 2 :=
  Json.neat_ofFields (by simp) (by simp [x.fieldType.neat_toJson])

theorem TableMetadataDto.neat_toJson (x : TableMetadataDto) : x.toJson.Neat 4 := by
  have hfields : (Json.ofList FieldMetadataDto.toJson x.fields).Neat 3 :=
    Json.neat_ofList fun field _ => field.neat_toJson
  exact Json.neat_ofFields (by simp) (by simpa using hfields)

theorem CommandMetadataDto.neat_toJson (x : CommandMetadataDto) : x.toJson.Neat 4 := by
  have hfields : (Json.ofList FieldMetadataDto.toJson x.inputFields).Neat 3 :=
    Json.neat_ofList fun field _ => field.neat_toJson
  have hrecords : (Json.ofList Identity.toJson x.eligibleRecordIds).Neat 3 :=
    Json.neat_ofList fun record _ => record.neat_toJson 2
  exact Json.neat_ofFields (by simp) (by simp [hfields, hrecords])

theorem MetadataResponseDto.neat_toJson (x : MetadataResponseDto) : x.toJson.Neat 6 := by
  have hsupported : (Json.ofList .str x.supported).Neat 5 :=
    Json.neat_ofList fun capability _ => Json.neat_str 4 capability
  have htables : (Json.ofList TableMetadataDto.toJson x.tables).Neat 5 :=
    Json.neat_ofList fun table _ => table.neat_toJson
  have hcommands : (Json.ofList CommandMetadataDto.toJson x.commands).Neat 5 :=
    Json.neat_ofList fun command _ => command.neat_toJson
  exact Json.neat_ofFields (by simp) (by simp [hsupported, htables, hcommands])

theorem ValueDto.nodes_of_fromDomain {v : Value} {scope : Scope} {dto : ValueDto}
    (h : ValueDto.fromDomain v scope = .ok dto) :
    dto.toJson.nodes ≤ v.toJson.nodes ∧ dto.toJson.nodes ≤ 9 := by
  cases v with
  | ref r =>
      simp only [fromDomain, bind_eq_ok, Except.ok.injEq] at h
      obtain ⟨-, -, rfl⟩ := h
      simp [toJson, Value.toJson, content, Value.content, RefDto.toJson, RecordRef.toJson,
        Scope.toJson, Identity.toJson, Json.ofFields, Json.present, Json.nodes, Json.nodesMembers]
  | blank | null | text _ | integer _ | bool _ | money _ =>
      obtain rfl := Except.ok.inj h
      simp [toJson, Value.toJson, content, Value.content, Json.ofFields, Json.present, Json.nodes,
        Json.nodesMembers, Json.ofI64]

theorem ValuesDto.nodes_toJson (values : ValuesDto) :
    (ValuesDto.toJson values).nodes =
      1 + (values.entries.map fun entry => 1 + entry.2.toJson.nodes).sum := by
  rw [toJson, Json.ofMap, Json.nodes, Json.nodesMembers_eq_sum, List.map_map]
  rfl

theorem nodes_valuesToJson (values : OrdMap FieldId Value) :
    (valuesToJson values).nodes =
      1 + (values.entries.map fun entry => 1 + entry.2.toJson.nodes).sum := by
  rw [valuesToJson, Json.ofMap, Json.nodes, Json.nodesMembers_eq_sum, List.map_map]
  rfl

theorem RecordDto.nodes_toJson (x : RecordDto) :
    x.toJson.nodes = 4 + (ValuesDto.toJson x.values).nodes := by
  simp only [toJson, Json.ofFields, Json.present, Json.nodes, Json.nodesMembers, Identity.toJson]
  omega

theorem RawRecord.nodes_toJson (row : RawRecord) :
    row.toJson.nodes = 12 + (valuesToJson row.values).nodes := by
  simp only [toJson, Scope.toJson, Json.ofFields, Json.present, Json.nodes, Json.nodesMembers,
    Identity.toJson]
  omega

theorem ListResponseDto.nodes_toJson (x : ListResponseDto) :
    x.toJson.nodes = 15 + (x.records.map fun record => record.toJson.nodes).sum := by
  simp only [toJson, RevisionDto.toJson, Json.ofFields, Json.present, Json.nodes, Json.nodesMembers,
    Identity.toJson, Json.ofU32, Json.ofList, Json.nodesElements_eq_sum, List.map_map,
    Function.comp_def]
  omega

end Evobase
