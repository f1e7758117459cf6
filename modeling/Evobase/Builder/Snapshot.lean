import Evobase.AppSpec.FactCodec
import Evobase.Foundation.JsonSize
import Evobase.Foundation.ParseInt

/-!
# The saved snapshot of the Builder

The Builder keeps its definition and its records in one text: an envelope whose strings are the
canonical texts of the two. What is saved is loaded as the canonical form of what was there, and
two snapshots have one text exactly when their revisions and their contents are the same, so a
comparison of texts is a comparison of snapshots.

`HasContent` is what a snapshot stands for, and `storedOf` its envelope. Saving fails when a
snapshot has no content or when its envelope is larger than `maxBytes` (`encodeSaved_eq_ok_iff`).
-/

namespace Evobase.Builder

open Foundation

structure Snapshot where
  revision : U64
  spec : RawAppSpec
  records : List RawRecord

/-- A message of the Builder, or an error of the kernel, whose text is shown. -/
inductive SnapshotError where
  | message (text : String)
  | kernel (error : Error)
deriving DecidableEq

def scopeFor (spec : RawAppSpec) : Scope := ⟨"tenant_local_fixture", spec.appId, by decide⟩

structure StoredSnapshot where
  format : U32
  revision : String
  definitionJson : String
  recordsJson : String
deriving DecidableEq

namespace StoredSnapshot

def toJson (x : StoredSnapshot) : Json :=
  .ofFields [("format", some (.ofU32 x.format)), ("revision", some (.str x.revision)),
    ("definition_json", some (.str x.definitionJson)), ("records_json", some (.str x.recordsJson))]

def ofJson (j : Json) : Option StoredSnapshot :=
  match j.allFields? ["format", "revision", "definition_json", "records_json"] with
  | some [format, revision, definitionJson, recordsJson] => do
      let format ← format.bind Json.int?
      let revision ← revision.bind Json.str?
      let definitionJson ← definitionJson.bind Json.str?
      let recordsJson ← recordsJson.bind Json.str?
      some ⟨format, revision, definitionJson, recordsJson⟩
  | _ => none

@[simp] theorem ofJson_toJson (x : StoredSnapshot) : ofJson x.toJson = some x := by
  simp [ofJson, toJson, Json.allFields?_ofFields]

@[simp] theorem exact_toJson (x : StoredSnapshot) : x.toJson.Exact :=
  Json.exact_ofFields (by simp)

theorem depth_toJson (x : StoredSnapshot) : x.toJson.depth ≤ 127 := by
  simp [toJson, Json.ofFields, Json.present, Json.depth, Json.depthMembers, Json.ofU32]

theorem text_toJson_injective {x y : StoredSnapshot} (h : x.toJson.text = y.toJson.text) :
    x = y := by
  have hjson := Json.text_injective x.exact_toJson y.exact_toJson h
  have hread := ofJson_toJson x
  rw [hjson, ofJson_toJson] at hread
  exact (Option.some.inj hread).symm

end StoredSnapshot

def decodeSaved (reader : JsonReader) (raw : String) : Exec SnapshotError Snapshot := do
  rejectIf (raw.utf8ByteSize > maxBytes) (.fail (.message "local snapshot exceeds limit"))
  let stored ← okOr (.fail (.message "local snapshot is invalid"))
    ((reader.parse (Json.utf8 raw.toList)).bind StoredSnapshot.ofJson)
  rejectIf (stored.format.val ≠ 1) (.fail (.message "unsupported local snapshot"))
  let spec ← Exec.ofExcept .kernel (decode reader (Json.utf8 stored.definitionJson.toList))
  rejectIf (spec.tables = []) (.fail (.message "local Builder needs a table"))
  let records ← Exec.lift .kernel
    (decodeRecords reader spec (scopeFor spec) (Json.utf8 stored.recordsJson.toList))
  let revision ← okOr (.fail (.message "invalid local revision"))
    (U64.parse stored.revision).toOption
  .ok ⟨revision, spec, records.toRaw⟩

def encodeSaved (snapshot : Snapshot) : Exec SnapshotError String := do
  let checked ← Exec.ofExcept .kernel (compile snapshot.spec)
  let rows ← Exec.lift .kernel
    (validateRecords checked (scopeFor snapshot.spec) snapshot.records)
  let definition ← Exec.ofExcept .kernel (boundedEncode checked.toJson)
  let definitionJson ← okOr (.fail (.message "definition encoding")) (Json.stringOfBytes definition)
  let records ← Exec.ofExcept .kernel rows.encode
  let recordsJson ← okOr (.fail (.message "record encoding")) (Json.stringOfBytes records)
  let stored : StoredSnapshot :=
    ⟨U32.one, toString snapshot.revision.val, definitionJson, recordsJson⟩
  let raw ← okOr (.fail (.message "snapshot encoding")) (Json.stringOfBytes stored.toJson.print)
  rejectIf (raw.utf8ByteSize > maxBytes) (.fail (.message "snapshot exceeds limit"))
  .ok raw

/-- The canonical texts of the definition and of the records. -/
def canonicalTexts (snapshot : Snapshot) : Exec Error (List UInt8 × List UInt8) := do
  let definition ← Exec.ofExcept id (compile snapshot.spec)
  let records ← validateRecords definition (scopeFor snapshot.spec) snapshot.records
  let definitionText ← Exec.ofExcept id (boundedEncode definition.toJson)
  let recordsText ← Exec.ofExcept id records.encode
  .ok (definitionText, recordsText)

def sameContent (a b : Snapshot) : Bool :=
  match canonicalTexts a, canonicalTexts b with
  | .ok x, .ok y => x = y
  | _, _ => false

/-- The canonical form of what a snapshot holds. -/
structure HasContent (snapshot : Snapshot) (definition : CheckedAppSpec) (facts : CheckedRecords) :
    Prop where
  compiled : compile snapshot.spec = .ok definition.definition
  validated : validateRecords definition.definition (scopeFor snapshot.spec) snapshot.records =
    .ok facts

/-- The envelope of a content. -/
def storedOf (revision : U64) (definition : CheckedAppSpec) (facts : CheckedRecords) :
    StoredSnapshot :=
  ⟨U32.one, toString revision.val, definition.definition.toJson.text,
    (recordsToJson facts.records).text⟩

section Content

variable {snapshot : Snapshot} {definition : CheckedAppSpec} {facts : CheckedRecords}

theorem boundedEncode_definition (definition : CheckedAppSpec) :
    boundedEncode definition.definition.toJson = .ok definition.definition.toJson.print :=
  (boundedEncode_eq_ok_iff definition.definition.exact_toJson).2 ⟨(wellFormed definition).fits, rfl⟩

theorem HasContent.encode (h : HasContent snapshot definition facts) :
    facts.encode = .ok (recordsToJson facts.records).print :=
  (boundedEncode_eq_ok_iff (exact_recordsToJson facts.records)).2
    ⟨(parse_facts compactReader (wellFormed definition) h.validated).1, rfl⟩

/-- A snapshot is saved as the envelope of its content, when that is within the limit. -/
theorem encodeSaved_eq_ok_iff {raw : String} :
    encodeSaved snapshot = .ok raw ↔ ∃ definition facts, HasContent snapshot definition facts ∧
      raw = (storedOf snapshot.revision definition facts).toJson.text ∧
        raw.utf8ByteSize ≤ maxBytes := by
  constructor
  · intro h
    rw [encodeSaved] at h
    obtain ⟨spec, hspec, h⟩ := bind_eq_ok.1 h
    obtain ⟨facts, hfacts, h⟩ := bind_eq_ok.1 h
    rw [Exec.ofExcept_eq_ok] at hspec
    rw [Exec.lift_eq_ok] at hfacts
    have hcontent : HasContent snapshot ⟨spec, snapshot.spec, hspec⟩ facts := ⟨hspec, hfacts⟩
    have hdefinition := boundedEncode_definition ⟨spec, snapshot.spec, hspec⟩
    simp only at hdefinition
    rw [hdefinition, hcontent.encode, Exec.ofExcept, ok_bind, Json.stringOfBytes_print, okOr,
      ok_bind, Exec.ofExcept, ok_bind, Json.stringOfBytes_print, okOr, ok_bind] at h
    simp only [Json.stringOfBytes_print, okOr, ok_bind, bind_eq_ok, rejectIf_eq_ok, not_lt,
      Except.ok.injEq] at h
    obtain ⟨-, hsize, rfl⟩ := h
    exact ⟨_, facts, hcontent, rfl, hsize⟩
  · rintro ⟨definition, facts, hcontent, rfl, hsize⟩
    rw [encodeSaved, hcontent.compiled, Exec.ofExcept, ok_bind, hcontent.validated]
    simp only [Exec.lift, ok_bind, boundedEncode_definition, hcontent.encode, Exec.ofExcept, okOr,
      Json.stringOfBytes_print]
    rw [storedOf] at hsize ⊢
    rw [rejectIf_bind_of_not (not_lt.2 hsize)]

theorem HasContent.canonicalTexts (h : HasContent snapshot definition facts) :
    canonicalTexts snapshot =
      .ok (definition.definition.toJson.print, (recordsToJson facts.records).print) := by
  rw [Builder.canonicalTexts, h.compiled, Exec.ofExcept, ok_bind, h.validated, ok_bind,
    boundedEncode_definition, Exec.ofExcept, ok_bind, h.encode]
  rfl

theorem HasContent.scope (h : HasContent snapshot definition facts) :
    scopeFor definition.definition = scopeFor snapshot.spec := by
  obtain ⟨-, -, heq⟩ := compile_eq_ok_iff.1 h.compiled
  rw [heq]
  rfl

/-- Two snapshots with a content have the same content when their definitions and their records
have one canonical form. -/
theorem sameContent_iff {other : Snapshot} {definition' : CheckedAppSpec} {facts' : CheckedRecords}
    (h : HasContent snapshot definition facts) (h' : HasContent other definition' facts') :
    sameContent snapshot other = true ↔
      definition.definition = definition'.definition ∧ facts = facts' := by
  rw [sameContent, h.canonicalTexts, h'.canonicalTexts, decide_eq_true_iff, Prod.mk.injEq]
  constructor
  · rintro ⟨hdefinition, hrecords⟩
    have hspec : definition.definition = definition'.definition := by
      have hjson := Json.print_injective definition.definition.exact_toJson
        definition'.definition.exact_toJson hdefinition
      have hread := RawAppSpec.ofJson_toJson definition.definition
      rw [hjson, RawAppSpec.ofJson_toJson] at hread
      exact (Option.some.inj hread).symm
    have hscope : scopeFor other.spec = scopeFor snapshot.spec := by rw [← h.scope, ← h'.scope, hspec]
    exact ⟨hspec, facts_eq_of_text compactReader (wellFormed definition) (wellFormed definition')
      h.validated (hscope ▸ h'.validated) hrecords⟩
  · rintro ⟨hdefinition, rfl⟩
    exact ⟨by rw [hdefinition], rfl⟩

theorem HasContent.tables (h : HasContent snapshot definition facts)
    (htables : snapshot.spec.tables ≠ []) : definition.definition.tables ≠ [] := by
  obtain ⟨-, -, heq⟩ := compile_eq_ok_iff.1 h.compiled
  rw [heq]
  intro hempty
  have hsorted : sortBy (·.id) snapshot.spec.tables = [] := List.map_eq_nil_iff.1 hempty
  refine htables (List.length_eq_zero_iff.1 ?_)
  rw [← length_sortBy (·.id), hsorted]
  rfl

theorem HasContent.loaded (h : HasContent snapshot definition facts) (revision : U64) :
    HasContent ⟨revision, definition.definition, facts.toRaw⟩ definition facts := by
  refine ⟨compile_definition definition, ?_⟩
  have hagain := validateRecords_records (wellFormed definition) h.validated
  have hscope : facts.scope = scopeFor snapshot.spec := by
    rw [((validateRecords_eq_ok_iff (wellFormed definition)).1 h.validated).2]
  rw [hscope, ← h.scope] at hagain
  exact hagain

theorem decodeSaved_storedOf (reader : JsonReader) (h : HasContent snapshot definition facts)
    (htables : snapshot.spec.tables ≠ []) {revision : U64}
    (hsize : (storedOf revision definition facts).toJson.text.utf8ByteSize ≤ maxBytes) :
    decodeSaved reader (storedOf revision definition facts).toJson.text =
      .ok ⟨revision, definition.definition, facts.toRaw⟩ := by
  obtain ⟨bytes, hencode, hdecode⟩ := decode_encode reader definition
  obtain rfl := Except.ok.inj ((boundedEncode_definition definition).symm.trans hencode)
  obtain ⟨bytes, hencode, hrecords⟩ := decodeRecords_encode reader (wellFormed definition) h.validated
  obtain rfl := Except.ok.inj (h.encode.symm.trans hencode)
  rw [← h.scope] at hrecords
  rw [decodeSaved, rejectIf_bind_of_not (not_lt.2 hsize), Json.utf8_text,
    reader.parse_print _ (StoredSnapshot.exact_toJson _) (StoredSnapshot.depth_toJson _),
    Option.bind_some, StoredSnapshot.ofJson_toJson, okOr, ok_bind, rejectIf_bind_of_not (by simp [storedOf])]
  simp only [storedOf, Json.utf8_text, hdecode, Exec.ofExcept, ok_bind]
  rw [rejectIf_bind_of_not (h.tables htables), hrecords, Exec.lift, ok_bind, U64.parse_toString]
  rfl

end Content

/-- What is saved is loaded: the revision, and the canonical forms of the definition and of the
records, which is the same content and is saved as the same text. Two snapshots are saved as one
text exactly when they have the same revision and the same content. -/
theorem snapshot_codec (reader : JsonReader) :
    (∀ snapshot raw, snapshot.spec.tables ≠ [] → encodeSaved snapshot = .ok raw →
      ∃ loaded, decodeSaved reader raw = .ok loaded ∧ loaded.revision = snapshot.revision ∧
        sameContent loaded snapshot = true ∧ compile snapshot.spec = .ok loaded.spec ∧
        (∃ facts, validateRecords loaded.spec (scopeFor snapshot.spec) snapshot.records = .ok facts ∧
          loaded.records = facts.toRaw) ∧
        encodeSaved loaded = .ok raw) ∧
    ∀ a b raw raw', encodeSaved a = .ok raw → encodeSaved b = .ok raw' →
      (raw = raw' ↔ a.revision = b.revision ∧ sameContent a b = true) := by
  constructor
  · intro snapshot raw htables hencode
    obtain ⟨definition, facts, hcontent, rfl, hsize⟩ := encodeSaved_eq_ok_iff.1 hencode
    have hloaded := hcontent.loaded snapshot.revision
    exact ⟨⟨snapshot.revision, definition.definition, facts.toRaw⟩,
      decodeSaved_storedOf reader hcontent htables hsize, rfl,
      (sameContent_iff hloaded hcontent).2 ⟨rfl, rfl⟩, hcontent.compiled,
      ⟨facts, hcontent.validated, rfl⟩,
      encodeSaved_eq_ok_iff.2 ⟨definition, facts, hloaded, rfl, hsize⟩⟩
  · intro a b raw raw' ha hb
    obtain ⟨definition, facts, hcontent, rfl, -⟩ := encodeSaved_eq_ok_iff.1 ha
    obtain ⟨definition', facts', hcontent', rfl, -⟩ := encodeSaved_eq_ok_iff.1 hb
    rw [sameContent_iff hcontent hcontent']
    constructor
    · intro htext
      have hstored := StoredSnapshot.text_toJson_injective htext
      simp only [storedOf, StoredSnapshot.mk.injEq, true_and] at hstored
      obtain ⟨hrevision, hdefinition, hrecords⟩ := hstored
      have hsame : a.revision = b.revision := by
        have hread := U64.parse_toString a.revision
        rw [hrevision, U64.parse_toString] at hread
        exact (Except.ok.inj hread).symm
      refine ⟨hsame, (sameContent_iff hcontent hcontent').1 ?_⟩
      rw [sameContent, hcontent.canonicalTexts, hcontent'.canonicalTexts, decide_eq_true_iff,
        ← Json.utf8_text, ← Json.utf8_text, ← Json.utf8_text, ← Json.utf8_text, hdefinition,
        hrecords]
    · rintro ⟨hrevision, hdefinition, rfl⟩
      rw [storedOf, storedOf, hrevision, hdefinition]

def ticketSnapshot : Snapshot := ⟨U64.one, ticketDefinition, []⟩

theorem ticketSnapshot_content :
    HasContent ticketSnapshot ticketSpec ⟨scopeFor ticketDefinition, []⟩ :=
  ⟨by decide +kernel, by decide +kernel⟩

theorem length_storedOf_le (revision : U64) (definition : CheckedAppSpec) (facts : CheckedRecords) :
    (storedOf revision definition facts).toJson.print.length ≤
      6 * (Json.utf8 (toString revision.val).toList).length +
        6 * (definition.definition.toJson.print.length + (recordsToJson facts.records).print.length) +
          100 := by
  have hrevision := Json.length_printString_le (toString revision.val)
  have hdefinition := Json.length_printString_le definition.definition.toJson.text
  have hrecords := Json.length_printString_le (recordsToJson facts.records).text
  rw [Json.utf8_text] at hdefinition hrecords
  have hformat : (Json.ofU32 U32.one).print.length = 1 := by decide
  have hnames : (Json.printString "format").length + (Json.printString "revision").length +
      (Json.printString "definition_json").length + (Json.printString "records_json").length = 49 := by
    decide
  simp only [StoredSnapshot.toJson, storedOf, Json.ofFields, Json.present, Json.length_print_obj,
    List.map_cons, List.map_nil, List.sum_cons, List.sum_nil, List.length_cons, List.length_nil,
    hformat]
  simp only [Json.print]
  omega

def savedTicket (id : RecordId) : RawRecord :=
  { openTicket id "u" with scope := scopeFor ticketDefinition }

/-- Two tickets, which are saved in the order of their identities. -/
def filledSnapshot : Snapshot := { ticketSnapshot with records := [savedTicket recB, savedTicket recA] }

def savedTickets : CheckedRecords :=
  ⟨scopeFor ticketDefinition, [savedTicket recA, savedTicket recB]⟩

theorem snapshot_codec_tickets :
    ∃ raw loaded, encodeSaved filledSnapshot = .ok raw ∧
      decodeSaved compactReader raw = .ok loaded ∧ loaded.records = savedTickets.toRaw ∧
        sameContent loaded filledSnapshot = true ∧ encodeSaved loaded = .ok raw := by
  have hcontent : HasContent filledSnapshot ticketSpec savedTickets :=
    ⟨ticketSnapshot_content.compiled, by decide +kernel⟩
  have hsize : (storedOf filledSnapshot.revision ticketSpec
      savedTickets).toJson.text.utf8ByteSize ≤ maxBytes := by
    rw [Json.utf8ByteSize_text]
    refine (length_storedOf_le _ _ _).trans ?_
    decide +kernel
  obtain ⟨loaded, hload, -, hsame, hcompiled, ⟨facts, hfacts, hrecords⟩, hencode⟩ :=
    (snapshot_codec compactReader).1 filledSnapshot _ (by decide)
      (encodeSaved_eq_ok_iff.2 ⟨_, _, hcontent, rfl, hsize⟩)
  refine ⟨_, loaded, encodeSaved_eq_ok_iff.2 ⟨_, _, hcontent, rfl, hsize⟩, hload, ?_, hsame,
    hencode⟩
  have hspec : loaded.spec = ticketDefinition :=
    Except.ok.inj (hcompiled.symm.trans hcontent.compiled)
  rw [hspec] at hfacts
  obtain rfl : facts = savedTickets := Except.ok.inj (hfacts.symm.trans hcontent.validated)
  exact hrecords

end Evobase.Builder
