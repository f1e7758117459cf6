import Evobase.AppSpec.Compile
import Evobase.AppSpec.Constraint
import Evobase.Protocol.Dto

/-!
# The bounded codec of the transfer objects

A message is encoded when it has the version of the interface, passes its own checks and
fits the bounds. It is decoded in three passes over the same text: the lexical bound, a
reader that stops at a repeated member name, and the typed reader. The text is cut into tokens
by the JSON library, of which only this is assumed: it finds the tokens of a compact text.

Both directions agree (`wire_codec`): what is encoded is decoded to the same message, and what is
decoded can be encoded unless it exceeds a bound, which the error names. A repeated member name
is reported exactly where an object repeats one.
-/

namespace Evobase

open Foundation

def apiVersionNumber : U32 := U32.one

def maxWireBytes : Nat := 1048576
def maxWireDepth : Nat := 16
def maxWireNodes : Nat := 20000
def maxRequestKeyBytes : Nat := 96
def maxReleaseIdBytes : Nat := 128
def maxListLimit : Nat := 256

/-- The errors of the codec. -/
inductive WireError where
  | unsupportedVersion (found : U32)
  | limitExceeded (resource : String) (limit : Nat)
  | duplicateKey (key : String)
  | invalidJson (message : String)
  | validation (field : String) (message : String)
deriving DecidableEq, Repr

namespace WireError

def ofLexical : Error → WireError
  | .limitExceeded resource limit => .limitExceeded resource limit
  | _ => .invalidJson ""

/-- The error names a bound that the encoding of a message exceeds. -/
inductive Exceeds (j : Json) : WireError → Prop where
  | bytes : maxBytes < j.print.length → Exceeds j (.limitExceeded "bytes" maxBytes)
  | depth : maxDepth < j.depth → Exceeds j (.limitExceeded "depth" maxDepth)
  | nodes : maxNodes < j.nodes → Exceeds j (.limitExceeded "nodes" maxNodes)

def isCheck : WireError → Bool
  | .limitExceeded _ _ | .validation _ _ => true
  | _ => false

end WireError

namespace Wire

def limit (length max : Nat) (resource : String) : Except WireError Unit :=
  rejectIf (length > max) (.limitExceeded resource max)

def isWordChar (others : List Char) (c : Char) : Bool := c.isAlphanum || others.contains c

def commandId (value : String) : Except WireError Unit :=
  rejectIf (value.utf8ByteSize ≤ 4 ∨ value.utf8ByteSize > 80 ∨ startsWith value "cmd_" = false ∨
    value.toList.all (isWordChar ['_', '-']) = false)
    (.validation "command_id" "expected a stable cmd_ identity")

def requestKey (value : String) : Except WireError Unit :=
  rejectIf (value = "" ∨ value.utf8ByteSize > maxRequestKeyBytes ∨
    value.toList.all (isWordChar ['_', '-']) = false)
    (.validation "request_key" "expected 1..96 ASCII letters, digits, '_' or '-'")

def releaseId (value : String) : Except WireError Unit :=
  rejectIf (value = "" ∨ value.utf8ByteSize > maxReleaseIdBytes ∨
    value.toList.all (isWordChar ['_', '-', ':']) = false)
    (.validation "release_id" "invalid release identity")

def name (value : String) : Except WireError Unit := do
  rejectIf (value = "" ∨ value.toList.any isControl = true)
    (.validation "name" "invalid display name")
  limit value.utf8ByteSize maxNameBytes "name bytes"

def value : ValueDto → Except WireError Unit
  | .text s => limit s.utf8ByteSize maxTextBytes "text bytes"
  | _ => .ok ()

def values (values : ValuesDto) : Except WireError Unit := do
  limit values.entries.length maxFieldsPerTable "field values"
  each (fun entry => value entry.2) values.entries

/-- The fields of a table or of a command. -/
def metadataFields (fields : List FieldMetadataDto) : Except WireError Unit := do
  limit fields.length maxFieldsPerTable "fields per table"
  eachAfter (fun earlier field => do
    rejectIf (field.fieldId ∈ earlier.map (·.fieldId))
      (.validation "fields" "duplicate field identity")
    name field.name) [] fields

/-- A table, after the tables listed before it: no field is a field of another table. -/
def table (earlier : List TableMetadataDto) (table : TableMetadataDto) :
    Except WireError Unit := do
  rejectIf (table.tableId ∈ earlier.map (·.tableId))
    (.validation "tables" "duplicate table identity")
  name table.name
  metadataFields table.fields
  eachAfter (fun seen field =>
    rejectIf (field.fieldId ∈ (earlier.flatMap (·.fields) ++ seen).map (·.fieldId))
      (.validation "fields" "duplicate field identity")) [] table.fields

/-- A command, after the commands listed before it. -/
def command (earlier : List CommandMetadataDto) (command : CommandMetadataDto) :
    Except WireError Unit := do
  rejectIf (command.commandId ∈ earlier.map (·.commandId))
    (.validation "commands" "duplicate command identity")
  commandId command.commandId
  name command.name
  metadataFields command.inputFields
  limit command.eligibleRecordIds.length maxRecords "eligible records"
  eachAfter (fun seen record => rejectIf (record ∈ seen)
    (.validation "eligible_record_ids" "duplicate record identity")) [] command.eligibleRecordIds

end Wire

/-- The cell as it travels; a reference travels in its own scope only. -/
def ValueDto.fromDomain (value : Value) (scope : Scope) : Except WireError ValueDto :=
  match value with
  | .blank => .ok .blank
  | .null => .ok .null
  | .text s => .ok (.text s)
  | .integer n => .ok (.integer n)
  | .bool b => .ok (.bool b)
  | .money n => .ok (.money n)
  | .ref r => do
      rejectIf (r.scope ≠ scope) (.validation "value" "cross-scope Ref")
      .ok (.ref ⟨r.tableId, r.recordId⟩)

namespace CommandRequestDto

def validate (x : CommandRequestDto) : Except WireError Unit := do
  Wire.commandId x.commandId
  Wire.requestKey x.requestKey
  Wire.releaseId x.releaseId
  Wire.values x.params

end CommandRequestDto

namespace MetadataResponseDto

def validate (x : MetadataResponseDto) : Except WireError Unit := do
  Wire.releaseId x.releaseId
  Wire.limit x.tables.length maxTables "tables"
  Wire.limit x.commands.length 64 "commands"
  Wire.limit x.supported.length 64 "supported capabilities"
  each (fun capability => Wire.limit capability.utf8ByteSize 256 "capability bytes") x.supported
  eachAfter Wire.table [] x.tables
  Wire.limit (x.tables.map fun table => table.fields.length).sum maxFields "fields"
  eachAfter Wire.command [] x.commands

end MetadataResponseDto

namespace ListResponseDto

def validate (x : ListResponseDto) : Except WireError Unit := do
  Wire.releaseId x.releaseId
  Wire.limit x.records.length maxListLimit "records"
  eachAfter (fun earlier record => do
    rejectIf (record.recordId ∈ earlier.map (·.recordId))
      (.validation "records" "duplicate record identity")
    Wire.values record.values) [] x.records

end ListResponseDto

namespace ReceiptResponseDto

def validate (x : ReceiptResponseDto) : Except WireError Unit := do
  Wire.commandId x.commandId
  Wire.requestKey x.requestKey
  Wire.releaseId x.releaseId

end ReceiptResponseDto

namespace ApiErrorDto

def validate (x : ApiErrorDto) : Except WireError Unit := do
  Wire.limit x.message.utf8ByteSize 1024 "error message bytes"
  match x.field with
  | none => .ok ()
  | some field => Wire.limit field.utf8ByteSize 256 "error field bytes"

end ApiErrorDto

abbrev IsCheck (x : Except WireError Unit) : Prop :=
  Yields (fun _ => True) (fun e => e.isCheck = true) x

namespace IsCheck

theorem rejectIf {bad : Prop} [Decidable bad] {e : WireError} (h : e.isCheck = true) :
    IsCheck (rejectIf bad e) := by
  by_cases hbad : bad <;> simp [IsCheck, Foundation.rejectIf, hbad, h]

theorem bind {x y : Except WireError Unit} (hx : IsCheck x) (hy : IsCheck y) :
    IsCheck (x >>= fun _ => y) :=
  Yields.bind hx fun _ _ => hy

theorem eachAfter {α : Type} {visit : List α → α → Except WireError Unit} {l : List α}
    (h : ∀ before a, IsCheck (visit before a)) (before : List α) :
    IsCheck (eachAfter visit before l) := by
  induction l generalizing before with
  | nil => trivial
  | cons a rest ih => exact (h before a).bind (ih _)

theorem each {α : Type} {visit : α → Except WireError Unit} {l : List α}
    (h : ∀ a, IsCheck (visit a)) : IsCheck (each visit l) :=
  eachAfter (fun _ => h) []

end IsCheck

namespace Wire

theorem isCheck_limit (length max : Nat) (resource : String) :
    IsCheck (limit length max resource) :=
  .rejectIf rfl

theorem isCheck_commandId (value : String) : IsCheck (commandId value) := .rejectIf rfl

theorem isCheck_requestKey (value : String) : IsCheck (requestKey value) := .rejectIf rfl

theorem isCheck_releaseId (value : String) : IsCheck (releaseId value) := .rejectIf rfl

theorem isCheck_name (value : String) : IsCheck (name value) :=
  .bind (.rejectIf rfl) (isCheck_limit _ _ _)

theorem isCheck_values (vs : ValuesDto) : IsCheck (values vs) := by
  refine .bind (isCheck_limit _ _ _) (.each fun entry => ?_)
  cases h : entry.2 with
  | text s => exact isCheck_limit _ _ _
  | _ => trivial

theorem isCheck_metadataFields (fields : List FieldMetadataDto) :
    IsCheck (metadataFields fields) :=
  .bind (isCheck_limit _ _ _)
    (.eachAfter (fun _ _ => .bind (.rejectIf rfl) (isCheck_name _)) [])

theorem isCheck_table (earlier : List TableMetadataDto) (t : TableMetadataDto) :
    IsCheck (table earlier t) :=
  .bind (.rejectIf rfl) (.bind (isCheck_name _) (.bind (isCheck_metadataFields _)
    (.eachAfter (fun _ _ => .rejectIf rfl) [])))

theorem isCheck_command (earlier : List CommandMetadataDto) (c : CommandMetadataDto) :
    IsCheck (command earlier c) :=
  .bind (.rejectIf rfl) (.bind (isCheck_commandId _) (.bind (isCheck_name _)
    (.bind (isCheck_metadataFields _) (.bind (isCheck_limit _ _ _)
      (.eachAfter (fun _ _ => .rejectIf rfl) [])))))

theorem length_le_of_values {vs : ValuesDto} {u : Unit} (h : values vs = .ok u) :
    vs.entries.length ≤ maxFieldsPerTable := by
  simp only [values, limit, bind_eq_ok, rejectIf_eq_ok, gt_iff_lt, not_lt] at h
  obtain ⟨-, hlength, -⟩ := h
  exact hlength

end Wire

/-- A message with its checks, its encoding and the typed reader of the encoding. A
message that passes its checks is read back from an object without repeated names. -/
class WireMessage (α : Type) where
  typeName : String
  apiVersion : α → U32
  validate : α → Except WireError Unit
  write : α → Json
  read : Json → Option α
  isCheck_validate : ∀ x, IsCheck (validate x)
  read_write : ∀ x, validate x = .ok () → read (write x) = some x
  exact_write : ∀ x, (write x).Exact
  uniqueKeys_write : ∀ x, (write x).UniqueKeys

instance : WireMessage CommandRequestDto where
  typeName := "CommandRequestDto"
  apiVersion := (·.apiVersion)
  validate := CommandRequestDto.validate
  write := CommandRequestDto.toJson
  read := CommandRequestDto.ofJson
  isCheck_validate _ := .bind (Wire.isCheck_commandId _) (.bind (Wire.isCheck_requestKey _)
    (.bind (Wire.isCheck_releaseId _) (Wire.isCheck_values _)))
  read_write x h := by
    simp only [CommandRequestDto.validate, bind_eq_ok] at h
    obtain ⟨-, -, -, -, -, -, hvalues⟩ := h
    exact CommandRequestDto.ofJson_toJson (Wire.length_le_of_values hvalues)
  exact_write := CommandRequestDto.exact_toJson
  uniqueKeys_write := CommandRequestDto.uniqueKeys_toJson

instance : WireMessage MetadataResponseDto where
  typeName := "MetadataResponseDto"
  apiVersion := (·.apiVersion)
  validate := MetadataResponseDto.validate
  write := MetadataResponseDto.toJson
  read := MetadataResponseDto.ofJson
  isCheck_validate _ := .bind (Wire.isCheck_releaseId _) (.bind (Wire.isCheck_limit _ _ _)
    (.bind (Wire.isCheck_limit _ _ _) (.bind (Wire.isCheck_limit _ _ _)
      (.bind (.each fun _ => Wire.isCheck_limit _ _ _) (.bind (.eachAfter Wire.isCheck_table [])
        (.bind (Wire.isCheck_limit _ _ _) (.eachAfter Wire.isCheck_command [])))))))
  read_write x _ := x.ofJson_toJson
  exact_write := MetadataResponseDto.exact_toJson
  uniqueKeys_write := MetadataResponseDto.uniqueKeys_toJson

instance : WireMessage ListResponseDto where
  typeName := "ListResponseDto"
  apiVersion := (·.apiVersion)
  validate := ListResponseDto.validate
  write := ListResponseDto.toJson
  read := ListResponseDto.ofJson
  isCheck_validate _ := .bind (Wire.isCheck_releaseId _) (.bind (Wire.isCheck_limit _ _ _)
    (.eachAfter (fun _ _ => .bind (.rejectIf rfl) (Wire.isCheck_values _)) []))
  read_write x h := by
    simp only [ListResponseDto.validate, bind_eq_ok] at h
    obtain ⟨-, -, -, -, hrecords⟩ := h
    refine x.ofJson_toJson fun record hrecord => ?_
    obtain ⟨earlier, hrecord⟩ := visit_of_eachAfter hrecords hrecord
    obtain ⟨-, -, hvalues⟩ := bind_eq_ok.1 hrecord
    exact Wire.length_le_of_values hvalues
  exact_write := ListResponseDto.exact_toJson
  uniqueKeys_write := ListResponseDto.uniqueKeys_toJson

instance : WireMessage ReceiptResponseDto where
  typeName := "ReceiptResponseDto"
  apiVersion := (·.apiVersion)
  validate := ReceiptResponseDto.validate
  write := ReceiptResponseDto.toJson
  read := ReceiptResponseDto.ofJson
  isCheck_validate _ := .bind (Wire.isCheck_commandId _) (.bind (Wire.isCheck_requestKey _)
    (Wire.isCheck_releaseId _))
  read_write x _ := x.ofJson_toJson
  exact_write := ReceiptResponseDto.exact_toJson
  uniqueKeys_write := ReceiptResponseDto.uniqueKeys_toJson

instance : WireMessage ApiErrorDto where
  typeName := "ApiErrorDto"
  apiVersion := (·.apiVersion)
  validate := ApiErrorDto.validate
  write := ApiErrorDto.toJson
  read := ApiErrorDto.ofJson
  isCheck_validate x := by
    refine .bind (Wire.isCheck_limit _ _ _) ?_
    cases x.field with
    | none => trivial
    | some field => exact Wire.isCheck_limit _ _ _
  read_write x _ := x.ofJson_toJson
  exact_write := ApiErrorDto.exact_toJson
  uniqueKeys_write := ApiErrorDto.uniqueKeys_toJson

namespace Wire

variable {α : Type} [WireMessage α]

/-- The scanner of messages after one byte outside a string, before the node bound is checked. -/
def scanOutside (s : Scan) (byte : UInt8) : Except WireError Scan :=
  if byte = 34 then .ok { s with string := true, atom := false, nodes := s.nodes + 1 }
  else if byte = 123 ∨ byte = 91 then do
    limit (s.depth + 1) maxWireDepth "depth"
    .ok { s with depth := s.depth + 1, nodes := s.nodes + 1, atom := false }
  else if byte = 125 ∨ byte = 93 then .ok { s with depth := s.depth - 1, atom := false }
  else if byte ∈ [58, 44, 32, 10, 13, 9] then .ok { s with atom := false }
  else if s.atom = false then .ok { s with nodes := s.nodes + 1, atom := true }
  else .ok s

/-- The scanner of messages after one byte. -/
def scanByte (s : Scan) (byte : UInt8) : Except WireError Scan :=
  if s.string then
    if s.escape then .ok { s with escape := false }
    else if byte = 92 then .ok { s with escape := true }
    else if byte = 34 then .ok { s with string := false }
    else .ok s
  else do
    let next ← scanOutside s byte
    limit next.nodes maxWireNodes "nodes"
    .ok next

/-- The lexical check of a message: a second copy of the check of definitions. -/
def preflight (bytes : List UInt8) : Except WireError Unit := do
  limit bytes.length maxWireBytes "bytes"
  let _ ← bytes.foldlM scanByte .start
  .ok ()

theorem scanOutside_eq (s : Scan) (byte : UInt8) :
    scanOutside s byte = renameError .ofLexical (Evobase.scanOutside s byte) := by
  unfold scanOutside Evobase.scanOutside
  split_ifs with hquote hopen hclose hblank hfree hatom hatom
  · rfl
  · unfold limit rejectIf
    by_cases hdepth : s.depth + 1 > maxDepth
    · rw [if_pos (show s.depth + 1 > maxWireDepth from hdepth), if_pos hdepth]
      rfl
    · rw [if_neg (show ¬ s.depth + 1 > maxWireDepth from hdepth), if_neg hdepth]
      rfl
  · rfl
  · rfl
  · simp [hfree] at hatom
  · rfl
  · rfl
  · simp [hfree] at hatom

theorem scanByte_eq (s : Scan) (byte : UInt8) :
    scanByte s byte = renameError .ofLexical (Evobase.scanByte s byte) := by
  unfold scanByte Evobase.scanByte
  split_ifs
  · rfl
  · rfl
  · rfl
  · rfl
  · rw [scanOutside_eq, renameError_bind]
    refine bind_congr fun next => ?_
    unfold limit rejectIf
    by_cases hnodes : next.nodes > maxNodes
    · rw [if_pos (show next.nodes > maxWireNodes from hnodes), if_pos hnodes]
      rfl
    · rw [if_neg (show ¬ next.nodes > maxWireNodes from hnodes), if_neg hnodes]
      rfl

/-- The two copies of the lexical check are one check. -/
theorem preflight_eq (bytes : List UInt8) :
    preflight bytes = renameError .ofLexical (Evobase.preflight bytes) := by
  have hscan : ∀ s, bytes.foldlM scanByte s = renameError .ofLexical (scan s bytes) := by
    intro s
    rw [scan, renameError_foldlM]
    congr 1
    funext s byte
    exact scanByte_eq s byte
  unfold preflight Evobase.preflight
  rw [hscan, renameError_bind, renameError_bind]
  unfold limit rejectIf
  by_cases hbytes : bytes.length > maxBytes
  · rw [if_pos (show bytes.length > maxWireBytes from hbytes), if_pos hbytes]
    rfl
  · rw [if_neg (show ¬ bytes.length > maxWireBytes from hbytes), if_neg hbytes]
    rfl

def version (dto : α) : Except WireError Unit :=
  rejectIf (WireMessage.apiVersion dto ≠ apiVersionNumber)
    (.unsupportedVersion (WireMessage.apiVersion dto))

def fitting : Nat → List Char → List Char
  | _, [] => []
  | room, c :: rest => if c.utf8Size ≤ room then c :: fitting (room - c.utf8Size) rest else []

/-- A text of a bounded length: a longer one is cut and marked. -/
def diagnostic (message : String) (limit : Nat) : String :=
  if message.utf8ByteSize > limit then
    String.ofList (fitting (limit - 3) message.toList) ++ "..."
  else message

/-- The error for what the JSON library says. -/
def jsonError (message : String) : WireError :=
  if startsWith message "too many field values" then
    .limitExceeded "field values" maxFieldsPerTable
  else .invalidJson (diagnostic message 1024)

/-- The second pass: the text is one value, and no object in it repeats a name. Nothing of
the value is kept. -/
def uniqueKeys (tokenizer : JsonTokenizer) (bytes : List UInt8) : Except WireError Unit :=
  match Token.readFront true (tokenizer.tokens bytes) with
  | .error (.duplicateKey key) => .error (.duplicateKey (diagnostic key 256))
  | .error _ => .error (jsonError (tokenizer.message bytes))
  | .ok (_, rest) => rejectIf (rest ≠ []) (jsonError (tokenizer.message bytes))

/-- The third pass: the typed reader, which by itself compares no names. -/
def typed (tokenizer : JsonTokenizer) (bytes : List UInt8) : Option α :=
  match Token.readFront false (tokenizer.tokens bytes) with
  | .ok (j, []) => WireMessage.read j
  | _ => none

def decode (tokenizer : JsonTokenizer) (bytes : List UInt8) : Except WireError α := do
  preflight bytes
  uniqueKeys tokenizer bytes
  let dto ← okOr (jsonError (tokenizer.mismatch (WireMessage.typeName α) bytes))
    (typed tokenizer bytes)
  version dto
  WireMessage.validate dto
  .ok dto

def encode (dto : α) : Except WireError (List UInt8) := do
  version dto
  WireMessage.validate dto
  let bytes := (WireMessage.write dto).print
  -- the writer stops as soon as its buffer would exceed the bound
  rejectIf (bytes.length > maxBytes) (.limitExceeded "bytes" maxBytes)
  preflight bytes
  .ok bytes

theorem preflight_ne_duplicateKey {bytes : List UInt8} {key : String} :
    preflight bytes ≠ .error (.duplicateKey key) := by
  rw [preflight_eq, ne_eq, renameError_eq_error]
  rintro ⟨lexical, -, hlexical⟩
  cases lexical <;> cases hlexical

theorem exceeds_of_preflight {j : Json} (hj : j.Exact) {e : WireError}
    (h : preflight j.print = .error e) : WireError.Exceeds j e := by
  rw [preflight_eq, renameError_eq_error] at h
  obtain ⟨lexical, hpre, rfl⟩ := h
  rcases exceeded_of_preflight hj hpre with ⟨rfl, hbytes⟩ | ⟨rfl, hdepth⟩ | ⟨rfl, hnodes⟩
  · exact .bytes hbytes
  · exact .depth hdepth
  · exact .nodes hnodes

theorem uniqueKeys_eq_ok {tokenizer : JsonTokenizer} {bytes : List UInt8} {u : Unit} :
    uniqueKeys tokenizer bytes = .ok u ↔
      ∃ j : Json, tokenizer.tokens bytes = j.tokensOf ∧ j.UniqueKeys := by
  unfold uniqueKeys
  constructor
  · intro h
    split at h
    · cases h
    · cases h
    · next j rest hread =>
        obtain rfl : rest = [] := by simpa using h
        obtain ⟨htokens, hunique⟩ := Token.readFront_sound hread
        exact ⟨j, by simpa using htokens, hunique rfl⟩
  · rintro ⟨j, htokens, hunique⟩
    have hread : Token.readFront true (j.tokensOf ++ []) = .ok (j, []) :=
      Token.readFront_tokensOf (fun _ => hunique) []
    rw [List.append_nil] at hread
    rw [htokens, hread]
    exact rejectIf_eq_ok.2 (by simp)

theorem typed_eq {tokenizer : JsonTokenizer} {bytes : List UInt8} {j : Json}
    (h : tokenizer.tokens bytes = j.tokensOf) :
    (typed tokenizer bytes : Option α) = WireMessage.read j := by
  have hread : Token.readFront false (j.tokensOf ++ []) = .ok (j, []) :=
    Token.readFront_tokensOf (by simp) []
  rw [List.append_nil] at hread
  simp only [typed, h, hread]

theorem decode_eq_ok {tokenizer : JsonTokenizer} {bytes : List UInt8} {dto : α} :
    decode tokenizer bytes = .ok dto ↔
      preflight bytes = .ok () ∧ (∃ j : Json, tokenizer.tokens bytes = j.tokensOf ∧
        j.UniqueKeys ∧ WireMessage.read j = some dto) ∧
      WireMessage.apiVersion dto = apiVersionNumber ∧ WireMessage.validate dto = .ok () := by
  simp only [decode, bind_eq_ok, uniqueKeys_eq_ok, okOr_eq_ok, version, rejectIf_eq_ok, ne_eq,
    not_not, Except.ok.injEq]
  constructor
  · rintro ⟨_, hpre, _, ⟨j, htokens, hunique⟩, dto', htyped, _, hversion, _, hvalid, rfl⟩
    rw [typed_eq htokens] at htyped
    exact ⟨hpre, ⟨j, htokens, hunique, htyped⟩, hversion, hvalid⟩
  · rintro ⟨hpre, ⟨j, htokens, hunique, hread⟩, hversion, hvalid⟩
    exact ⟨(), hpre, (), ⟨j, htokens, hunique⟩, dto, (typed_eq htokens).trans hread,
      (), hversion, (), hvalid, rfl⟩

/-- What an encoded message and its text satisfy. -/
theorem encode_eq_ok {dto : α} {bytes : List UInt8} :
    encode dto = .ok bytes ↔
      (WireMessage.apiVersion dto = apiVersionNumber ∧ WireMessage.validate dto = .ok ()) ∧
        preflight bytes = .ok () ∧ bytes = (WireMessage.write dto).print := by
  simp only [encode, bind_eq_ok, version, rejectIf_eq_ok, ne_eq, not_not, gt_iff_lt, not_lt,
    Except.ok.injEq]
  constructor
  · rintro ⟨_, hversion, _, hvalid, _, _, _, hpre, rfl⟩
    exact ⟨⟨hversion, hvalid⟩, hpre, rfl⟩
  · rintro ⟨⟨hversion, hvalid⟩, hpre, rfl⟩
    have hbytes : (WireMessage.write dto).print.length ≤ maxBytes := by
      rw [preflight_eq, renameError_eq_ok, Evobase.preflight, bind_eq_ok] at hpre
      obtain ⟨_, hlength, -⟩ := hpre
      simpa using hlength
    exact ⟨(), hversion, (), hvalid, (), hbytes, (), hpre, rfl⟩

/-- A repeated name is reported where an object repeats it, and nowhere else. -/
theorem decode_duplicateKey {tokenizer : JsonTokenizer} {bytes : List UInt8} {key : String}
    (h : (decode tokenizer bytes : Except WireError α) = .error (.duplicateKey key)) :
    ∃ name, Token.RepeatsKey (tokenizer.tokens bytes) name ∧ key = diagnostic name 256 := by
  have hjson : ∀ message, jsonError message ≠ .duplicateKey key := by
    intro message
    rw [jsonError]
    split_ifs <;> simp
  rw [decode, bind_eq_error] at h
  rcases h with hpre | ⟨-, -, h⟩
  · exact absurd hpre preflight_ne_duplicateKey
  rw [bind_eq_error] at h
  rcases h with hunique | ⟨-, -, h⟩
  · unfold uniqueKeys at hunique
    split at hunique
    · next name hread =>
        obtain rfl : diagnostic name 256 = key := by simpa using hunique
        exact ⟨name, Token.readValue_duplicateKey _ _ hread, rfl⟩
    · exact absurd (by simpa using hunique) (hjson _)
    · exact absurd (rejectIf_eq_error.1 hunique).2 (hjson _)
  · rw [bind_eq_error] at h
    rcases h with htyped | ⟨dto, -, h⟩
    · exact absurd (okOr_eq_error.1 htyped).2 (hjson _)
    simp only [bind_eq_error, version, rejectIf_eq_error, reduceCtorEq, and_false, exists_false,
      or_false, false_or] at h
    obtain ⟨-, -, hvalid⟩ := h
    have hcheck := WireMessage.isCheck_validate dto
    rw [hvalid] at hcheck
    exact absurd hcheck (by simp [WireError.isCheck])

end Wire

/-- The two directions of the codec agree, and the decoder reports a repeated member name
exactly for objects that repeat one. What the recursion of the model allows is always enough: it
answers for no text that it has run out. -/
structure WireCodec (tokenizer : JsonTokenizer) (α : Type) [WireMessage α] : Prop where
  decode_encode : ∀ (x : α) (bytes : List UInt8), Wire.encode x = .ok bytes →
    Wire.decode tokenizer bytes = .ok x
  version : ∀ (bytes : List UInt8) (x : α), Wire.decode tokenizer bytes = .ok x →
    (WireMessage.apiVersion x).val = 1
  valid : ∀ (bytes : List UInt8) (x : α), Wire.decode tokenizer bytes = .ok x →
    WireMessage.validate x = .ok ()
  encode_fails : ∀ (bytes : List UInt8) (x : α) (e : WireError),
    Wire.decode tokenizer bytes = .ok x → Wire.encode x = .error e →
      WireError.Exceeds (WireMessage.write x) e
  repeats_not_decoded : ∀ (bytes : List UInt8) (name : String),
    Token.RepeatsKey (tokenizer.tokens bytes) name → ∀ x : α, Wire.decode tokenizer bytes ≠ .ok x
  duplicateKey_repeats : ∀ (bytes : List UInt8) (key : String),
    (Wire.decode tokenizer bytes : Except WireError α) = .error (.duplicateKey key) →
      ∃ name, Token.RepeatsKey (tokenizer.tokens bytes) name ∧ key = Wire.diagnostic name 256
  reads : ∀ (unique : Bool) (bytes : List UInt8),
    Token.readFront unique (tokenizer.tokens bytes) ≠ .error .outOfFuel

theorem wireCodec (tokenizer : JsonTokenizer) (α : Type) [WireMessage α] :
    WireCodec tokenizer α where
  decode_encode x bytes h := by
    obtain ⟨⟨hversion, hvalid⟩, hpre, rfl⟩ := Wire.encode_eq_ok.1 h
    have htokens := tokenizer.tokens_print _ (WireMessage.exact_write x)
    exact Wire.decode_eq_ok.2 ⟨hpre, ⟨_, htokens, WireMessage.uniqueKeys_write x,
      WireMessage.read_write x hvalid⟩, hversion, hvalid⟩
  version bytes x h := by
    obtain ⟨-, -, hversion, -⟩ := Wire.decode_eq_ok.1 h
    rw [hversion]
    rfl
  valid bytes x h := (Wire.decode_eq_ok.1 h).2.2.2
  encode_fails bytes x e h he := by
    obtain ⟨-, -, hversion, hvalid⟩ := Wire.decode_eq_ok.1 h
    simp only [Wire.encode, Wire.version, hvalid, ok_bind,
      rejectIf_bind_of_not (not_not.2 hversion)] at he
    rw [bind_eq_error] at he
    rcases he with hbytes | ⟨-, -, he⟩
    · obtain ⟨hlength, rfl⟩ := rejectIf_eq_error.1 hbytes
      exact .bytes hlength
    · exact Wire.exceeds_of_preflight (WireMessage.exact_write x)
        (by simpa [bind_eq_error] using he)
  repeats_not_decoded bytes name h x hx := by
    obtain ⟨-, ⟨j, htokens, hunique, -⟩, -, -⟩ := Wire.decode_eq_ok.1 hx
    exact Token.not_repeatsKey hunique name (htokens ▸ h)
  duplicateKey_repeats bytes key h := Wire.decode_duplicateKey h
  reads unique bytes := Token.readFront_ne_outOfFuel unique _

/-- The codec of the five messages of the host, over any tokenizer. -/
theorem wire_codec (tokenizer : JsonTokenizer) :
    WireCodec tokenizer CommandRequestDto ∧ WireCodec tokenizer MetadataResponseDto ∧
      WireCodec tokenizer ListResponseDto ∧ WireCodec tokenizer ReceiptResponseDto ∧
      WireCodec tokenizer ApiErrorDto :=
  ⟨wireCodec _ _, wireCodec _ _, wireCodec _ _, wireCodec _ _, wireCodec _ _⟩

def ticketsPage : ListResponseDto where
  apiVersion := apiVersionNumber
  appId := ticketScope.appId
  tableId := (openTicket recA "o").tableId
  releaseId := "release:1"
  revision := ⟨U64.one⟩
  records := [
    ⟨recA, .ofList [(fldN, .text "say \"hi\""), (fldO, .ref ⟨(openTicket recA "o").tableId, recB⟩)]⟩,
    ⟨recB, .ofList [(fldN, .null), (fldO, .money I64.one)]⟩]
  hasMore := false

/-- A page of two records, with a reference and a text that is escaped, is read back. -/
theorem wire_codec_tickets : Wire.encode ticketsPage = .ok ticketsPage.toJson.print ∧
    Wire.decode compactTokenizer ticketsPage.toJson.print = .ok ticketsPage := by
  have hfits : Fits ticketsPage.toJson :=
    ⟨by decide +kernel, by decide +kernel, by decide +kernel⟩
  have hencode : Wire.encode ticketsPage = .ok ticketsPage.toJson.print := by
    refine Wire.encode_eq_ok.2 ⟨⟨rfl, by decide +kernel⟩, ?_, rfl⟩
    rw [Wire.preflight_eq, (preflight_print_iff ticketsPage.exact_toJson).2 hfits]
    rfl
  exact ⟨hencode, (wire_codec compactTokenizer).2.2.1.decode_encode _ _ hencode⟩

end Evobase
