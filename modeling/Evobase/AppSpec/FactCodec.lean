import Evobase.AppSpec.Canonical
import Evobase.AppSpec.Validate

/-!
# Reading facts back

Validated facts fit the bounds of the encoder, and their text decodes to the same facts:
putting the records in order and filling in the absent fields is done once, and the text
of the result is a fixed point of decoding and encoding (`facts_codec`).
-/

namespace Evobase

open Foundation

def CheckedRecords.toRaw (facts : CheckedRecords) : List RawRecord := facts.records

/-- The facts in a text. -/
def decodeRecords (reader : JsonReader) (spec : RawAppSpec) (scope : Scope)
    (bytes : List UInt8) : Exec Error CheckedRecords := do
  Exec.ofExcept id (preflight bytes)
  let raw ← okOr (.fail (.invalidJson (reader.message bytes)))
    ((reader.parse bytes).bind (Json.list? RawRecord.ofJson))
  validateRecords spec scope raw

section Codec

variable {spec : RawAppSpec} {scope : Scope} {facts : CheckedRecords}

theorem validated_of_decodeRecords {reader : JsonReader} {bytes : List UInt8}
    (h : decodeRecords reader spec scope bytes = .ok facts) :
    ∃ records, validateRecords spec scope records = .ok facts := by
  rw [decodeRecords] at h
  obtain ⟨⟨⟩, -, h⟩ := bind_eq_ok.1 h
  obtain ⟨records, -, h⟩ := bind_eq_ok.1 h
  exact ⟨records, h⟩

theorem length_entries_normalize (hspec : WellFormed spec) (row : RawRecord) :
    (row.normalize spec).values.entries.length ≤ maxFieldsPerTable := by
  rw [entries_normalize hspec, List.length_map, RawAppSpec.fieldsOf]
  cases htable : spec.table row.tableId with
  | none => exact Nat.zero_le _
  | some table => exact hspec.fields_le table (RawAppSpec.table_some htable).1

theorem parse_recordsToJson (reader : JsonReader) {records : List RawRecord}
    (hfits : Fits (recordsToJson records))
    (hlength : ∀ row ∈ records, row.values.entries.length ≤ maxFieldsPerTable) :
    (reader.parse (recordsToJson records).print).bind (Json.list? RawRecord.ofJson) =
      some records := by
  have hdepth : (recordsToJson records).depth ≤ 127 := hfits.depth.trans (by decide)
  rw [reader.parse_print _ (exact_recordsToJson records) hdepth, Option.bind_some]
  exact Json.list?_ofList fun row hrow => RawRecord.ofJson_toJson (hlength row hrow)

theorem parse_facts (reader : JsonReader) (hspec : WellFormed spec) {records : List RawRecord}
    (h : validateRecords spec scope records = .ok facts) :
    Fits (recordsToJson facts.records) ∧
      (reader.parse (recordsToJson facts.records).print).bind (Json.list? RawRecord.ofJson) =
        some facts.records := by
  obtain ⟨hvalid, rfl⟩ := (validateRecords_eq_ok_iff hspec).1 h
  have hfits := hvalid.fits_normalized
  have hlength : ∀ row ∈ normalized spec records,
      row.values.entries.length ≤ maxFieldsPerTable := by
    intro row hrow
    obtain ⟨base, -, rfl⟩ := mem_normalized_iff.1 hrow
    exact length_entries_normalize hspec base
  exact ⟨hfits, parse_recordsToJson reader hfits hlength⟩

theorem facts_eq_of_text (reader : JsonReader) {spec' : RawAppSpec} {facts' : CheckedRecords}
    (hspec : WellFormed spec) (hspec' : WellFormed spec') {records records' : List RawRecord}
    (h : validateRecords spec scope records = .ok facts)
    (h' : validateRecords spec' scope records' = .ok facts')
    (htext : (recordsToJson facts.records).print = (recordsToJson facts'.records).print) :
    facts = facts' := by
  have hparse := (parse_facts reader hspec h).2
  rw [htext, (parse_facts reader hspec' h').2] at hparse
  have hscope : facts.scope = facts'.scope := by
    rw [((validateRecords_eq_ok_iff hspec).1 h).2, ((validateRecords_eq_ok_iff hspec').1 h').2]
  cases facts
  cases facts'
  exact congrArg₂ CheckedRecords.mk hscope (Option.some.inj hparse).symm

theorem decodeRecords_encode (reader : JsonReader) (hspec : WellFormed spec)
    {records : List RawRecord} (h : validateRecords spec scope records = .ok facts) :
    ∃ bytes, facts.encode = .ok bytes ∧ decodeRecords reader spec scope bytes = .ok facts := by
  have hagain := validateRecords_records hspec h
  have hscope : facts.scope = scope := by rw [((validateRecords_eq_ok_iff hspec).1 h).2]
  have hexact := exact_recordsToJson facts.records
  obtain ⟨hfits, hparse⟩ := parse_facts reader hspec h
  refine ⟨_, (boundedEncode_eq_ok_iff hexact).2 ⟨hfits, rfl⟩, ?_⟩
  rw [decodeRecords, (preflight_print_iff hexact).2 hfits, Exec.ofExcept, ok_bind, hparse]
  exact hscope ▸ hagain

end Codec

/-- Validation and the codec of facts have a common fixed point: the facts that validation
or decoding returns are encoded, validate to themselves and are decoded from their text,
and what an accepted text decodes to is written and read back without change. -/
theorem facts_codec (reader : JsonReader) (spec : CheckedAppSpec) (scope : Scope) :
    (∀ facts, (∃ records, validateRecords spec.definition scope records = .ok facts) ∨
        (∃ bytes, decodeRecords reader spec.definition scope bytes = .ok facts) →
      validateRecords spec.definition scope facts.toRaw = .ok facts ∧
        ∃ bytes, facts.encode = .ok bytes ∧
          decodeRecords reader spec.definition scope bytes = .ok facts) ∧
    ∀ bytes facts, decodeRecords reader spec.definition scope bytes = .ok facts →
      ∃ bytes' facts', facts.encode = .ok bytes' ∧
        decodeRecords reader spec.definition scope bytes' = .ok facts' ∧
        facts' = facts ∧ facts'.encode = .ok bytes' := by
  have hspec := wellFormed spec
  refine ⟨fun facts h => ?_, fun bytes facts h => ?_⟩
  · obtain ⟨records, hvalid⟩ : ∃ records,
        validateRecords spec.definition scope records = .ok facts :=
      h.elim (fun h => h) fun ⟨_, h⟩ => validated_of_decodeRecords h
    obtain ⟨-, hfacts⟩ := (validateRecords_eq_ok_iff hspec).1 hvalid
    have hscope : facts.scope = scope := congrArg CheckedRecords.scope hfacts
    exact ⟨hscope ▸ validateRecords_records hspec hvalid,
      decodeRecords_encode reader hspec hvalid⟩
  · obtain ⟨records, hvalid⟩ := validated_of_decodeRecords h
    obtain ⟨bytes', hencode, hdecode⟩ := decodeRecords_encode reader hspec hvalid
    exact ⟨bytes', facts, hencode, hdecode, rfl, hencode⟩

theorem facts_codec_tickets :
    ∃ facts bytes, validateRecords ticketDefinition ticketScope
        [openTicket ⟨"rec_b", by decide⟩ "b", openTicket ⟨"rec_a", by decide⟩ "a"] = .ok facts ∧
      facts.encode = .ok bytes ∧
        decodeRecords compactReader ticketDefinition ticketScope bytes = .ok facts := by
  obtain ⟨facts, hfacts⟩ := exists_eq_ok (x := validateRecords ticketDefinition ticketScope
    [openTicket ⟨"rec_b", by decide⟩ "b", openTicket ⟨"rec_a", by decide⟩ "a"]) (by decide +kernel)
  obtain ⟨-, bytes, hencode, hdecode⟩ :=
    (facts_codec compactReader ticketSpec ticketScope).1 facts (.inl ⟨_, hfacts⟩)
  exact ⟨facts, bytes, hfacts, hencode, hdecode⟩

end Evobase
