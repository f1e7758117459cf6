import Evobase.Builder.Import

/-!
# Edits of the page

The page keeps the definition and the records of the draft. A commit of its cells, an import and
the draft itself either make every change that is meant or report why not, and the page replaces
its records by an answer only.
-/

namespace Evobase.Builder

open Foundation

inductive Status where
  | clean
  | dirty
  | saving
  | saved
  | invalid
  | conflict
  | expired
  | storageError
  | unsupported
deriving DecidableEq, Repr

/-- The draft on the page, with what is typed and shown beside it. -/
structure Page where
  spec : RawAppSpec
  records : List RawRecord
  buffers : Buffers
  errors : Buffers
  tableId : TableId
  importSource : String
  importErrors : List String
  status : Status
  locale : Bool
  composing : Bool

namespace Page

variable (page : Page)

/-- The commit of the edited cells. An abort leaves the page as it is. -/
def commit : Page × Bool :=
  if page.composing then (page, false)
  else if page.buffers.entries = [] then (page, true)
  else match candidate page.spec page.records page.buffers page.locale with
    | .ok next =>
        ({ page with records := next, buffers := .empty, errors := .empty, status := .dirty }, true)
    | .error (.fail next) => ({ page with errors := next, status := .invalid }, false)
    | .error _ => (page, false)

/-- The import of the lines that are typed. -/
def importRows : Page :=
  match prepareImport page.spec page.records page.tableId page.importSource page.locale with
  | .ok next => { page with records := next, importErrors := [], status := .dirty }
  | .error (.fail diagnostics) => { page with importErrors := diagnostics, status := .invalid }
  | .error _ => page

theorem commit_records :
    page.commit.1.records = page.records ∨
      candidate page.spec page.records page.buffers page.locale = .ok page.commit.1.records := by
  unfold commit
  split_ifs
  · exact .inl rfl
  · exact .inl rfl
  · cases candidate page.spec page.records page.buffers page.locale with
    | ok next => exact .inr rfl
    | error halt => cases halt <;> exact .inl rfl

theorem importRows_records :
    page.importRows.records = page.records ∨
      prepareImport page.spec page.records page.tableId page.importSource page.locale =
        .ok page.importRows.records := by
  unfold importRows
  cases prepareImport page.spec page.records page.tableId page.importSource page.locale with
  | ok next => exact .inr rfl
  | error halt => cases halt <;> exact .inl rfl

end Page

/-- Edited cells, imported lines and any list of rows are made into the records that they mean, or
an error is returned and the page keeps its records. Edited rows are in normal form, a row without
an edit keeps its values, and new rows have fresh identities and the prices of their products. -/
theorem edits_exact (spec : RawAppSpec) (checked : CheckedAppSpec) (records : List RawRecord)
    (facts : CheckedRecords) (hcompile : compile spec = .ok checked.definition)
    (hvalid : validateRecords checked.definition (scopeFor spec) records = .ok facts) :
    (∀ buffers vi,
      (∃ rows, candidate spec records buffers vi = .ok rows ∧
        (∃ next, List.Forall₂ (EditedRow spec checked (scopeFor spec) records buffers) records next ∧
          Applied checked.definition (scopeFor spec) records next rows) ∧
        ∀ row ∈ records, (∀ field, buffers.get? (cellKey row.tableId row.id field) = none) →
          row.normalize checked.definition ∈ rows) ∨
      ∃ errors, candidate spec records buffers vi = .error (.fail errors)) ∧
    (∀ tableId source vi,
      (∃ rows, prepareImport spec records tableId source vi = .ok rows ∧
        ∃ added, Imported spec checked (scopeFor spec) records tableId source added ∧
          Applied checked.definition (scopeFor spec) records (records ++ added) rows) ∨
      ∃ diagnostics, prepareImport spec records tableId source vi = .error (.fail diagnostics)) ∧
    (∀ next,
      (∃ rows, applyDraftChanges checked (scopeFor spec) records next = .ok rows ∧
        Applied checked.definition (scopeFor spec) records next rows) ∨
      ∃ error, applyDraftChanges checked (scopeFor spec) records next = .error (.fail error)) ∧
    ∀ page : Page,
      (page.commit.1.records = page.records ∨
        candidate page.spec page.records page.buffers page.locale = .ok page.commit.1.records) ∧
      (page.importRows.records = page.records ∨
        prepareImport page.spec page.records page.tableId page.importSource page.locale =
          .ok page.importRows.records) := by
  refine ⟨fun buffers vi => ?_, fun tableId source vi => ?_, fun next => ?_, fun page =>
    ⟨page.commit_records, page.importRows_records⟩⟩
  · refine answers_iff.1 ((candidate_answers hcompile hvalid).mono (fun rows hrows => ?_) fun _ h => h)
    obtain ⟨next, hnext, happlied⟩ := hrows
    exact ⟨⟨next, hnext, happlied⟩, fun row hrow hkept => happlied.of_unedited hnext hrow hkept⟩
  · exact answers_iff.1 (answers_prepareImport hcompile hvalid tableId source)
  · refine answers_iff.1 ((answers_applyDraftChanges _ _ _ _).mono (fun rows hrows => ?_) fun _ h => h)
    exact applied_of_applyDraftChanges hvalid hrows

/-- A ticket of the Builder. -/
def localTicket (id : RecordId) (note : Value) : RawRecord where
  scope := scopeFor ticketDefinition
  id := id
  tableId := (openTicket id "").tableId
  values := (openTicket id "u").values.insert fldN note

def localTickets : List RawRecord := [localTicket recA .blank]

def notedTickets : List RawRecord := [localTicket recA (.text "done")]

def noteBuffers : Buffers := .ofList [("tbl_t/rec_a/fld_n", "done")]

def ticketSource : String := "fld_o\tfld_s\nv\topen"

/-- A note is typed into a ticket, and a line is imported below the ticket. -/
theorem edits_exact_tickets :
    (∃ next, List.Forall₂ (EditedRow ticketDefinition ticketSpec (scopeFor ticketDefinition)
          localTickets noteBuffers) localTickets next ∧
        Applied ticketDefinition (scopeFor ticketDefinition) localTickets next notedTickets) ∧
      ∃ rows added, rows.length = 2 ∧
        Imported ticketDefinition ticketSpec (scopeFor ticketDefinition) localTickets
          (localTicket recA .blank).tableId ticketSource added ∧
        Applied ticketDefinition (scopeFor ticketDefinition) localTickets (localTickets ++ added)
          rows := by
  obtain ⟨hcandidate, himport, -, -⟩ := edits_exact ticketDefinition ticketSpec localTickets
    ⟨scopeFor ticketDefinition, localTickets⟩ (by decide +kernel) (by decide +kernel)
  have hnoted : candidate ticketDefinition localTickets noteBuffers false = .ok notedTickets := by
    decide +kernel
  have hcount : (prepareImport ticketDefinition localTickets (localTicket recA .blank).tableId
      ticketSource false >>= fun rows => .ok rows.length) = .ok 2 := by decide +kernel
  obtain ⟨imported, himported, hlength⟩ := bind_eq_ok.1 hcount
  constructor
  · rcases hcandidate noteBuffers false with ⟨rows, hrows, hedited, -⟩ | ⟨errors, herror⟩
    · obtain rfl := Except.ok.inj (hnoted.symm.trans hrows)
      exact hedited
    · cases hnoted.symm.trans herror
  · rcases himport (localTicket recA .blank).tableId ticketSource false with
      ⟨rows, hrows, added, hadded, happlied⟩ | ⟨diagnostics, herror⟩
    · obtain rfl := Except.ok.inj (himported.symm.trans hrows)
      exact ⟨_, added, Except.ok.inj hlength, hadded, happlied⟩
    · cases himported.symm.trans herror

end Evobase.Builder
