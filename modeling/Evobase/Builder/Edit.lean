import Evobase.Builder.Draft

/-!
# Edited cells

The texts of the edited cells replace the values of their rows. All of them are read first, and a
text that does not stand for a value is shown at its cell instead of changing anything.
-/

namespace Evobase.Builder

open Foundation

/-- Compilation, with the proof that the result is one of it. -/
def compileChecked (raw : RawAppSpec) : Except Error CheckedAppSpec :=
  match h : compile raw with
  | .ok definition => .ok ⟨definition, raw, h⟩
  | .error error => .error error

theorem compileChecked_of_compile {raw : RawAppSpec} {checked : CheckedAppSpec}
    (h : compile raw = .ok checked.definition) : compileChecked raw = .ok checked := by
  unfold compileChecked
  split
  · rename_i definition hcompile
    obtain rfl := Except.ok.inj (hcompile.symm.trans h)
    rfl
  · rename_i error hcompile
    rw [h] at hcompile
    cases hcompile

section Edit

variable (checked : CheckedAppSpec) (scope : Scope) (records : List RawRecord) (buffers : Buffers)
  (vi : Bool)

/-- A cell with a text has the value of the text, or an error. -/
def editCell (state : RawRecord × Buffers) (field : RawField) :
    Exec Buffers (RawRecord × Buffers) :=
  let (row, errors) := state
  let key := cellKey row.tableId row.id field.id
  match buffers.get? key with
  | none => .ok (row, errors)
  | some text => do
      let result ← (parseCell checked.definition scope row.tableId field.id text records).attempt
      match result with
      | .ok value => .ok ({ row with values := row.values.insert field.id value }, errors)
      | .error error => .ok (row, errors.insert key (diagnostic error vi))

/-- The row with its cells edited. A row of an unknown table is left as it is. -/
def editRow (spec : RawAppSpec) (state : List RawRecord × Buffers) (row : RawRecord) :
    Exec Buffers (List RawRecord × Buffers) := do
  let (output, errors) := state
  match spec.table row.tableId with
  | none => .ok (output ++ [row], errors)
  | some table => do
      let (row, errors) ← table.fields.foldlM (editCell checked scope records buffers vi) (row, errors)
      .ok (output ++ [row], errors)

end Edit

/-- The cell that shows an error of the draft. -/
def candidateKey (records : List RawRecord) (buffers : Buffers) (error : RelationError) : String :=
  match error with
  | .kernel (.required record field) | .kernel (.wrongType record field _)
  | .kernel (.constraintViolation record field _) =>
      ((records.find? fun r => r.id = record).map fun r => cellKey r.tableId record field).getD
        "dataset"
  | .capturedValueImmutable field | .capturedReferenceImmutable field =>
      (buffers.keys.find? fun key => endsWith key ("/" ++ field.text)).getD "dataset"
  | _ => "dataset"

/-- The records with the texts of the cells in them. -/
def candidate (spec : RawAppSpec) (records : List RawRecord) (buffers : Buffers) (vi : Bool) :
    Exec Buffers (List RawRecord) := do
  let checked ← Exec.ofExcept
    (fun error => OrdMap.empty.insert "definition" (diagnostic error vi)) (compileChecked spec)
  let scope := scopeFor spec
  let (output, errors) ← records.foldlM (editRow checked scope records buffers vi spec)
    ([], OrdMap.empty)
  rejectIf (errors.entries ≠ []) (.fail errors)
  Exec.lift (fun error => OrdMap.empty.insert (candidateKey records buffers error)
    (relationDiagnostic error vi)) (applyDraftChanges checked scope records output)

section Meaning

variable {spec : RawAppSpec} {checked : CheckedAppSpec} {scope : Scope} {records : List RawRecord}
  {buffers : Buffers} {vi : Bool}

/-- Among some fields of a row, those with a text have the value that the text stands for. Every
other field keeps its value. -/
structure EditedOn (checked : CheckedAppSpec) (scope : Scope) (records : List RawRecord)
    (buffers : Buffers) (fields : List FieldId) (row next : RawRecord) : Prop where
  scope_eq : next.scope = row.scope
  key : next.key = row.key
  edited : ∀ field ∈ fields, ∀ text, buffers.get? (cellKey row.tableId row.id field) = some text →
    ∃ value, parseCell checked.definition scope row.tableId field text records = .ok value ∧
      next.values.get? field = some value
  kept : ∀ field, field ∉ fields ∨ buffers.get? (cellKey row.tableId row.id field) = none →
    next.values.get? field = row.values.get? field

def EditedRow (spec : RawAppSpec) (checked : CheckedAppSpec) (scope : Scope)
    (records : List RawRecord) (buffers : Buffers) : RawRecord → RawRecord → Prop :=
  fun row next => EditedOn checked scope records buffers ((spec.fieldsOf row.tableId).map (·.id)) row next

theorem insert_ne_nil {m : Buffers} {key text : String} : (m.insert key text).entries ≠ [] := by
  intro h
  have hget := OrdMap.get?_insert_self m key text
  rw [OrdMap.get?, h] at hget
  cases hget

theorem EditedOn.editCell (hspec : WellFormed checked.definition) {fields : List FieldId}
    {row next : RawRecord} {errors errors' : Buffers} (field : RawField)
    (h : errors'.entries = [] →
      errors.entries = [] ∧ EditedOn checked scope records buffers fields row next)
    (hkey : next.key = row.key) :
    Answers (fun state => state.1.key = row.key ∧ (state.2.entries = [] → errors.entries = [] ∧
        EditedOn checked scope records buffers (fields ++ [field.id]) row state.1))
      (editCell checked scope records buffers vi (next, errors') field) := by
  obtain ⟨htable, hid⟩ := key_eq_key_iff.1 hkey
  simp only [Builder.editCell, htable, hid]
  split
  · rename_i hnone
    refine ⟨hkey, fun hempty => ?_⟩
    obtain ⟨herrors, hedited⟩ := h hempty
    refine ⟨herrors, hedited.scope_eq, hedited.key, fun other hother text htext => ?_, fun other hother => ?_⟩
    · rcases List.mem_append.1 hother with hmem | hlast
      · exact hedited.edited other hmem text htext
      · rw [List.mem_singleton.1 hlast, hnone] at htext
        cases htext
    · refine hedited.kept other (hother.imp_left fun hfresh hmem => hfresh (List.mem_append_left _ hmem))
  · rename_i text htext
    have hparse : Answers (fun _ => True)
        (parseCell checked.definition scope row.tableId field.id text records) :=
      answers_parseCell hspec row.tableId field.id text records
    refine (answers_attempt hparse).bind fun result hresult => ?_
    cases result with
    | error error => exact ⟨hkey, fun hempty => absurd hempty insert_ne_nil⟩
    | ok value =>
        refine ⟨rfl, fun hempty => ?_⟩
        obtain ⟨herrors, hedited⟩ := h hempty
        refine ⟨herrors, hedited.scope_eq, rfl, fun other hother text' htext' => ?_,
          fun other hother => ?_⟩
        · by_cases hsame : other = field.id
          · subst hsame
            obtain rfl := Option.some.inj (htext.symm.trans htext')
            exact ⟨value, hresult value rfl, OrdMap.get?_insert_self _ _ _⟩
          · have hmem : other ∈ fields := by simpa [hsame] using hother
            obtain ⟨found, hfound, hget⟩ := hedited.edited other hmem text' htext'
            exact ⟨found, hfound, (OrdMap.get?_insert_of_ne _ _ hsame).trans hget⟩
        · have hsame : other ≠ field.id := by
            rintro rfl
            rcases hother with hfresh | hnone
            · exact hfresh (by simp)
            · rw [htext] at hnone
              cases hnone
          refine (OrdMap.get?_insert_of_ne _ _ hsame).trans (hedited.kept other ?_)
          exact hother.imp_left fun hfresh hmem => hfresh (List.mem_append_left _ hmem)

theorem editRow_answers (hspec : WellFormed checked.definition) (row : RawRecord)
    {output : List RawRecord} {errors : Buffers} :
    Answers (fun state => state.2.entries = [] → errors.entries = [] ∧
        ∃ next, state.1 = output ++ [next] ∧ EditedRow spec checked scope records buffers row next)
      (editRow checked scope records buffers vi spec (output, errors) row) := by
  unfold editRow
  dsimp only
  split
  · rename_i hnone
    refine fun hempty => ⟨hempty, row, rfl, rfl, rfl, fun field hfield => ?_, fun _ _ => rfl⟩
    simp [RawAppSpec.fieldsOf, hnone] at hfield
  · rename_i table htable
    have hfields : spec.fieldsOf row.tableId = table.fields := by simp [RawAppSpec.fieldsOf, htable]
    have hfold : Answers (fun state : RawRecord × Buffers => state.1.key = row.key ∧
        (state.2.entries = [] → errors.entries = [] ∧
          EditedOn checked scope records buffers (table.fields.map (·.id)) row state.1))
        (table.fields.foldlM (editCell checked scope records buffers vi) (row, errors)) := by
      refine Yields.foldlM (I := fun pre (state : RawRecord × Buffers) => state.1.key = row.key ∧
        (state.2.entries = [] → errors.entries = [] ∧
          EditedOn checked scope records buffers (pre.map fun field : RawField => field.id) row state.1)) ?_ ?_
      · refine ⟨rfl, fun hempty => ⟨hempty, rfl, rfl, fun _ hfield => by simp at hfield, fun _ _ => rfl⟩⟩
      · intro pre field post _ state hstate
        rw [List.map_append, List.map_singleton]
        exact EditedOn.editCell hspec field hstate.2 hstate.1
    refine hfold.bind fun state hstate => fun hempty => ?_
    obtain ⟨herrors, hedited⟩ := hstate.2 hempty
    exact ⟨herrors, state.1, rfl, by rwa [EditedRow, hfields]⟩

theorem EditedRow.eq_of_unedited {row next : RawRecord}
    (h : EditedRow spec checked scope records buffers row next)
    (hkept : ∀ field, buffers.get? (cellKey row.tableId row.id field) = none) : next = row := by
  obtain ⟨htable, hid⟩ := key_eq_key_iff.1 h.key
  have hvalues : next.values = row.values := OrdMap.ext_get? fun field => h.kept field (.inr (hkept field))
  obtain ⟨nextScope, nextId, nextTable, nextValues⟩ := next
  obtain rfl : nextScope = row.scope := h.scope_eq
  subst htable hid hvalues
  rfl

theorem Applied.of_unedited {definition : RawAppSpec} {next rows : List RawRecord}
    (h : Applied definition scope records next rows)
    (hedited : List.Forall₂ (EditedRow spec checked scope records buffers) records next)
    {row : RawRecord} (hrow : row ∈ records)
    (hkept : ∀ field, buffers.get? (cellKey row.tableId row.id field) = none) :
    row.normalize definition ∈ rows := by
  obtain ⟨i, hi, hget⟩ := List.getElem_of_mem hrow
  have hi' : i < next.length := hedited.length_eq ▸ hi
  have hsame := EditedRow.eq_of_unedited (List.forall₂_iff_get.1 hedited |>.2 i hi hi')
    (by simpa [hget] using hkept)
  simp only [List.get_eq_getElem, hget] at hsame
  exact h.known row (hsame ▸ List.getElem_mem hi') (List.mem_map_of_mem hrow)

theorem candidate_answers (hcompile : compile spec = .ok checked.definition)
    {facts : CheckedRecords}
    (hvalid : validateRecords checked.definition (scopeFor spec) records = .ok facts) :
    Answers (fun rows => ∃ next,
        List.Forall₂ (EditedRow spec checked (scopeFor spec) records buffers) records next ∧
          Applied checked.definition (scopeFor spec) records next rows)
      (candidate spec records buffers vi) := by
  have hspec := wellFormed checked
  have hfold : Answers (fun state : List RawRecord × Buffers => state.2.entries = [] →
      List.Forall₂ (EditedRow spec checked (scopeFor spec) records buffers) records state.1)
      (records.foldlM (editRow checked (scopeFor spec) records buffers vi spec) ([], OrdMap.empty)) := by
    refine Yields.foldlM (I := fun pre (state : List RawRecord × Buffers) => state.2.entries = [] →
      List.Forall₂ (EditedRow spec checked (scopeFor spec) records buffers) pre state.1)
      (fun _ => .nil) fun pre row post _ state hstate => ?_
    refine (editRow_answers hspec row).mono (fun after hafter hempty => ?_) fun _ h => h
    obtain ⟨hbefore, next, heq, hedited⟩ := hafter hempty
    rw [heq]
    exact List.rel_append (hstate hbefore) (.cons hedited .nil)
  rw [candidate, compileChecked_of_compile hcompile, Exec.ofExcept, ok_bind]
  refine hfold.bind fun state hstate => (answers_rejectIf _).bind fun _ hempty => ?_
  refine ((answers_applyDraftChanges _ _ _ _).lift _).mono (fun rows hrows => ?_) fun _ h => h
  exact ⟨state.1, hstate (not_not.1 hempty), applied_of_applyDraftChanges hvalid hrows⟩

end Meaning

end Evobase.Builder
