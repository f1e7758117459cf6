import Evobase.AppSpec.Cell
import Evobase.Relations.Final

/-!
# Computations that answer

Validation, the reading of a cell and a batch return or report an error. The lookups that the
program takes for granted are of identities that an earlier check has found.
-/

namespace Foundation

variable {ε ε' α β : Type}

/-- The computation returns a result with the property or reports an error: it neither aborts nor
runs on. -/
abbrev Answers (post : α → Prop) (x : Exec ε α) : Prop :=
  Yields post (fun halt => ∃ error, halt = .fail error) x

theorem answers_iff {post : α → Prop} {x : Exec ε α} :
    Answers post x ↔ (∃ a, x = .ok a ∧ post a) ∨ ∃ error, x = .error (.fail error) := by
  cases x with
  | ok a => simp
  | error halt => simp

theorem answers_fail {post : α → Prop} (error : ε) :
    Answers post (.error (.fail error) : Exec ε α) := ⟨error, rfl⟩

theorem answers_rejectIf {bad : Prop} [Decidable bad] (error : ε) :
    Answers (fun _ => ¬ bad) (rejectIf bad (.fail error : Halt ε)) := yields_rejectIf ⟨error, rfl⟩

theorem answers_okOr (error : ε) (o : Option α) :
    Answers (fun a => o = some a) (okOr (.fail error : Halt ε) o) := yields_okOr ⟨error, rfl⟩

theorem answers_expect {site : String} {o : Option α} (h : ∃ a, o = some a) :
    Answers (fun a => o = some a) (Exec.expect site o : Exec ε α) := by
  obtain ⟨a, rfl⟩ := h
  exact rfl

theorem answers_ofExcept (wrap : ε → ε') (x : Except ε α) :
    Answers (fun a => x = .ok a) (Exec.ofExcept wrap x) := by
  cases x with
  | ok a => exact rfl
  | error e => exact ⟨_, rfl⟩

theorem Answers.lift {post : α → Prop} {x : Exec ε α} (wrap : ε → ε') (h : Answers post x) :
    Answers post (Exec.lift wrap x) := by
  cases x with
  | ok a => exact h
  | error halt =>
      obtain ⟨e, rfl⟩ := h
      exact ⟨_, rfl⟩

theorem answers_each {visit : α → Exec ε Unit} {l : List α}
    (h : ∀ a ∈ l, Answers (fun _ => True) (visit a)) : Answers (fun _ => True) (each visit l) := by
  cases hrun : each visit l with
  | ok u => trivial
  | error halt =>
      obtain ⟨a, ha, hvisit⟩ := exists_of_each_eq_error hrun
      have hanswer := h a ha
      rw [hvisit] at hanswer
      exact hanswer

theorem answers_eachAfter {visit : List α → α → Exec ε Unit} {l : List α}
    (h : ∀ before, ∀ a ∈ l, Answers (fun _ => True) (visit before a)) :
    Answers (fun _ => eachAfter visit [] l = .ok ()) (eachAfter visit [] l) := by
  cases hrun : eachAfter visit [] l with
  | ok u => exact rfl
  | error halt =>
      obtain ⟨pre, a, post, rfl, -, hvisit⟩ := eachAfter_eq_error_iff.1 hrun
      have hanswer := h ([] ++ pre) a (by simp)
      rw [hvisit] at hanswer
      exact hanswer

theorem answers_rejectAny {l : List α} {bad : α → Prop} [DecidablePred bad] (err : α → ε) :
    Answers (fun _ => ∀ a ∈ l, ¬ bad a) (rejectAny l bad fun a => (.fail (err a) : Halt ε)) := by
  cases hrun : rejectAny l bad fun a => (.fail (err a) : Halt ε) with
  | ok u => exact rejectAny_eq_ok.1 hrun
  | error halt =>
      obtain ⟨a, -, -, rfl⟩ := exists_of_rejectAny_eq_error hrun
      exact ⟨_, rfl⟩

end Foundation

namespace Evobase

open Foundation

section Records

variable {spec : RawAppSpec} {scope : Scope}

theorem answers_checkReference (records : List RawRecord) (identities : List RecordKey)
    {fieldType : FieldType} {value : Value} (htype : matchesType fieldType value = true) :
    Answers (fun _ => True) (checkReference scope records identities fieldType value) := by
  cases value with
  | ref reference =>
      cases fieldType with
      | ref target =>
          refine (answers_rejectIf _).bind fun _ _ => (answers_rejectIf _).bind fun _ _ => ?_
          split
          · trivial
          · split <;> exact answers_fail _
      | text => simp [matchesType] at htype
      | integer => simp [matchesType] at htype
      | bool => simp [matchesType] at htype
      | money => simp [matchesType] at htype
  | _ => trivial

theorem answers_checkField (records : List RawRecord) (identities : List RecordKey)
    (record : RawRecord) (field : RawField) :
    Answers (fun _ => True) (checkField spec scope records identities record field) := by
  have hvalue : Answers (fun _ => True)
      (checkValue scope records identities record field (record.value field.id)) := by
    unfold checkValue
    split_ifs
    · exact (answers_rejectIf _).mono (fun _ _ => trivial) fun _ h => h
    · refine (answers_rejectIf _).bind fun _ htype => (answers_rejectIf _).bind fun _ _ => ?_
      exact answers_checkReference records identities (by simpa using htype)
  refine hvalue.bind fun _ _ => (answers_rejectAny _).bind fun _ _ => ?_
  exact (answers_rejectAny _).mono (fun _ _ => trivial) fun _ h => h

theorem answers_validateRecords (records : List RawRecord) :
    Answers (fun facts => validateRecords spec scope records = .ok facts)
      (validateRecords spec scope records) := by
  suffices h : Answers (fun _ => True) (validateRecords spec scope records) by
    cases hrun : validateRecords spec scope records with
    | ok facts => exact rfl
    | error halt =>
        rw [hrun] at h
        exact h
  have hidentity : ∀ before, ∀ record ∈ sortBy RawRecord.key records,
      Answers (fun _ => True) (checkIdentity spec scope before record) := by
    intro before record _
    refine (answers_rejectIf _).bind fun _ _ => (answers_rejectIf _).bind fun _ _ => ?_
    exact (answers_rejectIf _).mono (fun _ _ => trivial) fun _ h => h
  refine (answers_rejectIf _).bind fun _ _ => (answers_rejectIf _).bind fun _ _ =>
    (answers_ofExcept _ _).bind fun _ _ => (answers_eachAfter hidentity).bind fun _ hall => ?_
  refine (answers_each fun record hrecord => ?_).bind fun _ _ =>
    (answers_ofExcept _ _).bind fun _ _ => trivial
  have htable : ∃ table, spec.table record.tableId = some table :=
    Option.ne_none_iff_exists'.1 ((eachAfter_checkIdentity_eq_ok_iff.1 hall).2 record hrecord).2
  refine (answers_expect htable).bind fun table _ => (answers_rejectAny _).bind fun _ _ => ?_
  exact answers_each fun field _ => answers_checkField _ _ record field

end Records

section Cells

variable {spec : RawAppSpec} {scope : Scope}

/-- The text of a cell is read as a value or reported. -/
theorem answers_parseCell (hspec : WellFormed spec) (table : TableId) (field : FieldId)
    (text : String) (records : List RawRecord) :
    Answers (fun _ => True) (parseCell spec scope table field text records) := by
  have hnumber : ∀ fieldType, Answers (fun _ => True) (parseCellInteger fieldType text) := by
    intro fieldType
    refine (answers_rejectIf _).bind fun _ _ => ?_
    split
    · trivial
    · exact answers_fail _
    · exact answers_fail _
    · exact answers_fail _
  refine (answers_rejectIf _).bind fun _ _ => (answers_okOr _ _).bind fun definition hfield => ?_
  split
  · exact (answers_rejectIf _).bind fun _ _ => trivial
  split_ifs
  · trivial
  · trivial
  unfold parsePlainCell
  split
  · exact (answers_rejectIf _).bind fun _ _ => trivial
  · exact (hnumber _).bind fun _ _ => trivial
  · exact (hnumber _).bind fun _ _ => trivial
  · split_ifs
    · trivial
    · trivial
    · exact answers_fail _
  · rename_i target htype
    obtain ⟨t, ht, hmem, -⟩ := RawAppSpec.field_some hfield
    have htarget := hspec.references t (RawAppSpec.table_some ht).1 definition hmem target htype
    refine (answers_rejectIf _).bind fun _ _ => ?_
    have hread : Answers (fun _ => True) (parseReference spec scope target text records) := by
      unfold parseReference
      split_ifs
      · refine (answers_ofExcept _ _).bind fun _ _ => ?_
        split_ifs
        · trivial
        · split
          · split_ifs <;> exact answers_fail _
          · exact answers_fail _
      · rcases parseLabel_cases hspec scope htarget text records with
          ⟨h, -⟩ | ⟨i, h, -⟩ | ⟨h, -⟩ <;> rw [h]
        · exact answers_fail _
        · trivial
        · exact answers_fail _
    exact hread.bind fun _ _ => trivial

end Cells

section Batches

variable {spec : RawAppSpec} {scope : Scope} {rows : Rows}

theorem answers_checkIncoming (changes : List BatchChange) :
    Answers (fun _ => True) (checkIncoming changes) := by
  refine (answers_rejectIf _).bind fun _ _ => (answers_ofExcept _ _).bind fun _ _ => ?_
  refine answers_each fun row _ => ?_
  exact (answers_rejectAny _).mono (fun _ _ => trivial) fun _ h => h

theorem answers_apply (candidate : Candidate) (change : BatchChange) :
    Answers (fun _ => True) (candidate.apply spec change) := by
  refine (answers_rejectIf _).bind fun _ _ => ?_
  cases change with
  | insert row =>
      refine (answers_rejectIf _).bind fun _ _ => (answers_each fun rule _ => ?_).bind fun _ _ =>
        trivial
      exact (answers_rejectIf _).mono (fun _ _ => trivial) fun _ h => h
  | replace row =>
      refine (answers_okOr _ _).bind fun old _ => (answers_each fun rule _ => ?_).bind fun _ _ =>
        trivial
      refine (answers_rejectIf _).bind fun _ _ => ?_
      exact (answers_rejectIf _).mono (fun _ _ => trivial) fun _ h => h
  | delete tableId recordId => exact (answers_rejectIf _).bind fun _ _ => trivial

theorem answers_capturePrice (hspec : WellFormed spec) {row : RawRecord} {rule : CaptureRule}
    (hrule : rule ∈ spec.rulesOf row.tableId) :
    Answers (fun _ => True) (capturePrice spec scope rows row rule) := by
  obtain ⟨hmem, htable⟩ := mem_rulesOf.1 hrule
  obtain ⟨product, haccepted⟩ := hspec.captures rule hmem
  obtain ⟨field, hfield, htype⟩ := Option.map_eq_some_iff.1 (htable ▸ haccepted.reference)
  unfold capturePrice
  dsimp only
  -- the last step is the same in every branch: the source has a price, or it has none
  split
  · split_ifs
    · rw [hfield, Exec.expect, ok_bind, htype]
      refine (answers_rejectIf _).bind fun _ _ => ?_
      rw [ok_bind]
      split
      · trivial
      · exact answers_fail _
    · rw [ok_bind]
      split
      · trivial
      · exact answers_fail _
  · rw [ok_bind]
    split
    · trivial
    · exact answers_fail _

theorem answers_captureRow (hspec : WellFormed spec) (rows : Rows) (row : RawRecord) :
    Answers (fun _ => True) (captureRow spec scope rows row) := by
  have hfold : Answers (fun line : RawRecord => line.tableId = row.tableId)
      (captureRow spec scope rows row) := by
    refine Yields.foldlM (I := fun _ (line : RawRecord) => line.tableId = row.tableId) rfl ?_
    intro pre rule post heq line hline
    have hrule : rule ∈ spec.rulesOf line.tableId := by
      rw [hline, heq]
      simp
    exact (answers_capturePrice hspec hrule).bind fun price _ => hline
  exact hfold.mono (fun _ _ => trivial) fun _ h => h

theorem answers_updateRows {update : Rows → RawRecord → Exec RelationError RawRecord}
    (hupdate : ∀ rows row, Answers (fun _ => True) (update rows row)) {keys : List RecordKey}
    (hkeys : ∀ key ∈ keys, ∃ row, rows.get? key = some row) :
    Answers (fun _ => True) (updateRows update keys rows) := by
  have hfold : Answers (fun out : Rows => ∀ key ∈ keys, ∃ row, out.get? key = some row)
      (updateRows update keys rows) := by
    refine Yields.foldlM (I := fun _ (out : Rows) => ∀ key ∈ keys, ∃ row, out.get? key = some row) hkeys ?_
    intro pre key post heq out hout
    have hpresent := hout key (by simp [heq])
    refine (answers_expect hpresent).bind fun row _ => (hupdate out row).bind fun next _ => ?_
    intro other hother
    rw [OrdMap.get?_insert]
    split_ifs
    · exact ⟨next, rfl⟩
    · exact hout other hother
  exact hfold.mono (fun _ _ => trivial) fun _ h => h

/-- A batch is accepted or reported. -/
theorem RelationStore.answers_finalRecords (store : RelationStore) (changes : List BatchChange) :
    Answers (fun records => store.finalRecords changes = .ok records)
      (store.finalRecords changes) := by
  suffices h : Answers (fun _ => True) (store.finalRecords changes) by
    cases hrun : store.finalRecords changes with
    | ok records => exact rfl
    | error halt =>
        rw [hrun] at h
        exact h
  have hfold : Answers (fun candidate => WellShaped store.spec.definition store.records.rows changes ∧
      candidate = candidateOf store.records.rows changes)
      (changes.foldlM (Candidate.apply store.spec.definition) ⟨store.records.rows, [], [], []⟩) := by
    have hanswers : Answers (fun _ => True)
        (changes.foldlM (Candidate.apply store.spec.definition) ⟨store.records.rows, [], [], []⟩) :=
      Yields.foldlM (I := fun _ _ => True) trivial fun _ change _ _ candidate _ =>
        answers_apply candidate change
    cases hrun : changes.foldlM (Candidate.apply store.spec.definition)
        ⟨store.records.rows, [], [], []⟩ with
    | ok candidate => exact foldlM_apply_eq_ok_iff.1 hrun
    | error halt =>
        rw [hrun] at hanswers
        exact hanswers
  refine (answers_checkIncoming changes).bind fun _ _ => hfold.bind fun candidate hcandidate => ?_
  obtain ⟨hshaped, rfl⟩ := hcandidate
  have hinserted : ∀ key ∈ insertedKeys changes,
      ∃ row, (store.appliedRows changes).get? key = some row := by
    intro key hkey
    obtain ⟨row, hmem, rfl⟩ := mem_insertedKeys.1 hkey
    exact ⟨row, get?_appliedRows_insert hshaped.keys hmem⟩
  rw [(candidate_graphRows_eq_ok_iff hshaped.keys).2 rfl, ok_bind]
  refine (answers_each fun key _ => ?_).bind fun _ _ =>
    ((answers_validateRecords _).lift _).bind fun _ _ => ?_
  · refine answers_each fun row _ => ?_
    exact (answers_rejectAny _).mono (fun _ _ => trivial) fun _ h => h
  · refine (answers_updateRows (fun rows row => answers_captureRow (wellFormed store.spec) rows row)
      hinserted).bind fun rows _ => ?_
    exact ((answers_validateRecords _).lift _).mono (fun _ _ => trivial) fun _ h => h

end Batches

end Evobase
