import Evobase.AppSpec.Cell
import Evobase.Host.Read

/-!
# The form of the Runtime page

The Runtime page reads what is typed into the input of a command. It reads a text as the core does,
but for one kind of text: a number after a plus sign is a number to the page and no cell to the
core.
-/

namespace Evobase.Runtime

open Foundation HostState

def parseParam (field : FieldMetadataDto) (input : String) : Option ValueDto :=
  if input = "" then some .blank
  else if input = "null" then some .null
  else
    match field.fieldType with
    | .text => some (.text ((stripPrefix? "text:" input).getD input))
    | .integer => (I64.parse input).toOption.map .integer
    | .money => (I64.parse input).toOption.map .money
    | .bool =>
        if input = "true" then some (.bool true)
        else if input = "false" then some (.bool false)
        else none
    | .ref target => (Identity.ofText? .record input).map fun id => .ref ⟨target, id⟩

/-- The page and the core accept the same text and read the same value from it. -/
structure ReadsAlike (scope : Scope) (page : Option ValueDto) (core : Exec Error Value) : Prop where
  accepts : page.isSome = true ↔ ∃ value, core = .ok value
  value : ∀ dto value, page = some dto → core = .ok value → dto.toDomain scope = value

def IsPlusNumber (text : String) : Prop :=
  ∃ z, PlusDecimal text z ∧ I64.InRange z

section Read

variable {spec : RawAppSpec} {scope : Scope} {table : TableId} {field : RawField} {text : String}
  {records : List RawRecord}

theorem readsAlike_of_eq {page : Option ValueDto} {core : Exec Error Value}
    (h : ∀ value, core = .ok value ↔ ∃ dto, page = some dto ∧ dto.toDomain scope = value) :
    ReadsAlike scope page core := by
  constructor
  · rw [Option.isSome_iff_exists]
    constructor
    · rintro ⟨dto, hdto⟩
      exact ⟨_, (h _).2 ⟨dto, hdto, rfl⟩⟩
    · rintro ⟨value, hvalue⟩
      obtain ⟨dto, hdto, -⟩ := (h value).1 hvalue
      exact ⟨dto, hdto⟩
  · intro dto value hdto hvalue
    obtain ⟨other, hother, hdomain⟩ := (h value).1 hvalue
    obtain rfl := Option.some.inj (hdto.symm.trans hother)
    exact hdomain

/-- A text with an escape is the text after it, for the page and for the core. -/
theorem readsAlike_text (happ : scope.appId = spec.appId)
    (hfield : spec.field table field.id = some field) (htype : field.fieldType = .text)
    (hshort : text.utf8ByteSize ≤ maxTextBytes) :
    ReadsAlike scope (parseParam (fieldMetadata field) text)
      (parseCell spec scope table field.id text records) := by
  rw [parseCell_of_field happ hfield, htype, escaped?, if_pos rfl, parseParam, fieldMetadata, htype]
  refine readsAlike_of_eq fun value => ?_
  cases hstrip : stripPrefix? "text:" text with
  | some literal =>
      obtain rfl := stripPrefix?_eq_some.1 hstrip
      rw [String.utf8ByteSize_append] at hshort
      have hempty : "text:" ++ literal ≠ "" := by
        intro h
        simpa using congrArg String.toList h
      have hnull : "text:" ++ literal ≠ "null" := by
        intro h
        simpa using congrArg String.toList h
      have hliteral : ¬ literal.utf8ByteSize > maxTextBytes := by omega
      simp [hempty, hnull, rejectIf_bind_of_not hliteral, ValueDto.toDomain]
  | none =>
      by_cases hempty : text = ""
      · simp [hempty, ValueDto.toDomain]
      by_cases hnull : text = "null"
      · simp [hnull, ValueDto.toDomain]
      simp [hempty, hnull, parsePlainCell, rejectIf_bind_of_not (not_lt.2 hshort),
        ValueDto.toDomain]

theorem not_plusDecimal_of_decimal {z w : Int} (h : Decimal text z) : ¬ PlusDecimal text w := by
  rintro ⟨plus, -, -, hplus, -⟩
  obtain ⟨digits, -, hdigits, hform⟩ := h
  rcases hform with ⟨htext, -⟩ | ⟨htext, -⟩
  · obtain rfl := htext.symm.trans hplus
    exact absurd (hdigits '+' List.mem_cons_self) (by decide)
  · cases htext.symm.trans hplus

theorem plusDecimal_ne_reserved {z : Int} (h : PlusDecimal text z) : text ≠ "" ∧ text ≠ "null" := by
  obtain ⟨digits, -, -, htext, -⟩ := h
  constructor
  · rintro rfl
    cases htext
  · rintro rfl
    cases htext

theorem parseCellInteger_eq_ok_iff {fieldType : FieldType} {n : I64} :
    parseCellInteger fieldType text = .ok n ↔ Decimal text n.val := by
  constructor
  · intro h
    by_cases hform : ∃ z, Decimal text z
    · obtain ⟨z, hz⟩ := hform
      rw [parseCellInteger_of_decimal hz, okOr_eq_ok, Bounded.ofInt?_eq_some] at h
      rwa [h]
    · rw [parseCellInteger_of_not_decimal fun z hz => hform ⟨z, hz⟩] at h
      cases h
  · intro h
    rw [parseCellInteger_of_decimal h, Bounded.ofInt?_val]
    rfl

/-- The page and the core part at the numbers with a plus sign and nowhere else. -/
theorem readsAlike_number_iff (page : I64 → ValueDto) (core : I64 → Value)
    (hdomain : ∀ n, (page n).toDomain scope = core n)
    (fieldType : FieldType) :
    ReadsAlike scope
      (if text = "" then some .blank else if text = "null" then some .null
        else (I64.parse text).toOption.map page)
      (if text = "" then .ok .blank else if text = "null" then .ok .null
        else (do let n ← parseCellInteger fieldType text; .ok (core n))) ↔ ¬ IsPlusNumber text := by
  constructor
  · rintro halike ⟨z, hplus, hlower, hupper⟩
    obtain ⟨hempty, hnull⟩ := plusDecimal_ne_reserved hplus
    have hparse : I64.parse text = .ok ⟨z, hlower, hupper⟩ := I64.parse_eq_ok_iff.2 (.inr hplus)
    have haccepts := halike.accepts
    rw [if_neg hempty, if_neg hnull, if_neg hempty, if_neg hnull, hparse] at haccepts
    obtain ⟨value, hvalue⟩ := haccepts.1 rfl
    obtain ⟨n, hn, -⟩ := bind_eq_ok.1 hvalue
    exact not_plusDecimal_of_decimal (parseCellInteger_eq_ok_iff.1 hn) hplus
  · intro hnot
    refine readsAlike_of_eq fun value => ?_
    split_ifs with hempty hnull
    · simp [ValueDto.toDomain]
    · simp [ValueDto.toDomain]
    · have hsame : ∀ n, I64.parse text = .ok n ↔ parseCellInteger fieldType text = .ok n := by
        intro n
        rw [I64.parse_eq_ok_iff, parseCellInteger_eq_ok_iff, or_iff_left]
        exact fun hplus => hnot ⟨n.val, hplus, n.inRange_val⟩
      constructor
      · intro h
        obtain ⟨n, hn, hvalue⟩ := bind_eq_ok.1 h
        refine ⟨page n, by rw [(hsame n).2 hn]; rfl, ?_⟩
        rw [hdomain, Except.ok.inj hvalue]
      · rintro ⟨dto, hdto, rfl⟩
        cases hparse : I64.parse text with
        | error e =>
            rw [hparse] at hdto
            cases hdto
        | ok n =>
            rw [hparse] at hdto
            obtain rfl : page n = dto := Option.some.inj hdto
            rw [(hsame n).1 hparse, hdomain]
            rfl

end Read

/-- For every field that is no reference, and every text within the limit, the page reads what the
core reads unless the field is a number and the text is a number with a plus sign. -/
theorem parseParam_alike_iff (spec : CheckedAppSpec) (scope : Scope)
    (happ : scope.appId = spec.definition.appId) (table : TableId) (field : RawField)
    (hfield : spec.definition.field table field.id = some field)
    (hplain : field.fieldType.isRef = false) (text : String)
    (hshort : text.utf8ByteSize ≤ maxTextBytes) (records : List RawRecord) :
    ReadsAlike scope (parseParam (fieldMetadata field) text)
        (parseCell spec.definition scope table field.id text records) ↔
      ¬ ((field.fieldType = .integer ∨ field.fieldType = .money) ∧ IsPlusNumber text) := by
  cases htype : field.fieldType with
  | text =>
      have halike : ReadsAlike scope (parseParam (fieldMetadata field) text)
          (parseCell spec.definition scope table field.id text records) :=
        readsAlike_text happ hfield htype hshort
      simp [halike]
  | integer =>
      rw [parseCell_of_ne_text happ hfield (by simp [htype]), parseParam, fieldMetadata, htype]
      have hiff : ReadsAlike scope _ _ ↔ ¬ IsPlusNumber text :=
        readsAlike_number_iff .integer .integer (fun _ => rfl) .integer
      simpa [parsePlainCell] using hiff
  | money =>
      rw [parseCell_of_ne_text happ hfield (by simp [htype]), parseParam, fieldMetadata, htype]
      have hiff : ReadsAlike scope _ _ ↔ ¬ IsPlusNumber text :=
        readsAlike_number_iff .money .money (fun _ => rfl) .money
      simpa [parsePlainCell] using hiff
  | bool =>
      rw [parseCell_of_ne_text happ hfield (by simp [htype]), parseParam, fieldMetadata, htype]
      simp only [reduceCtorEq, or_self, false_and, not_false_iff, iff_true]
      refine readsAlike_of_eq fun value => ?_
      simp only [parsePlainCell]
      split_ifs <;> simp [ValueDto.toDomain]
  | ref target => simp [htype, FieldType.isRef] at hplain

theorem parseParam_alike_iff_letter :
    ReadsAlike shopScope
        (parseParam (fieldMetadata ⟨⟨"fld_lq", by decide⟩, "Q", false, .integer⟩) "+x")
        (parseCell shopSpec.definition shopScope ⟨"tbl_l", by decide⟩ ⟨"fld_lq", by decide⟩ "+x" []) ↔
      ¬ ((FieldType.integer = .integer ∨ FieldType.integer = .money) ∧ IsPlusNumber "+x") :=
  parseParam_alike_iff shopSpec shopScope rfl ⟨"tbl_l", by decide⟩
    ⟨⟨"fld_lq", by decide⟩, "Q", false, .integer⟩ (by decide +kernel) rfl "+x" (by decide) []

/-- The page reads `+5` as five, which is no cell of a number. -/
theorem parseParam_plus_fails :
    parseParam (fieldMetadata ⟨⟨"fld_lq", by decide⟩, "Q", false, .integer⟩) "+5" =
        some (.integer ⟨5, by decide, by decide⟩) ∧
      parseCell shopSpec.definition shopScope ⟨"tbl_l", by decide⟩ ⟨"fld_lq", by decide⟩ "+5" [] =
        .error (.fail (.invalidCell "integer" "+5")) ∧
      ¬ ReadsAlike shopScope
        (parseParam (fieldMetadata ⟨⟨"fld_lq", by decide⟩, "Q", false, .integer⟩) "+5")
        (parseCell shopSpec.definition shopScope ⟨"tbl_l", by decide⟩ ⟨"fld_lq", by decide⟩ "+5"
          []) := by
  have hpage : parseParam (fieldMetadata ⟨⟨"fld_lq", by decide⟩, "Q", false, .integer⟩) "+5" =
      some (.integer ⟨5, by decide, by decide⟩) := by decide +kernel
  have hcore : parseCell shopSpec.definition shopScope ⟨"tbl_l", by decide⟩ ⟨"fld_lq", by decide⟩
      "+5" [] = .error (.fail (.invalidCell "integer" "+5")) := by decide +kernel
  refine ⟨hpage, hcore, fun halike => ?_⟩
  rw [hpage, hcore] at halike
  obtain ⟨value, hvalue⟩ := halike.accepts.1 rfl
  cases hvalue

end Evobase.Runtime
