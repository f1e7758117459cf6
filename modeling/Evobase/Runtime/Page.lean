import Evobase.Runtime.Param
import Evobase.Host.Command

/-!
# The Runtime page

The page shows the records of an app and submits its commands. What it submits is retained as an
attempt until its outcome is known. Every request of the page is awaited by a task, which goes on
with the reply; a task of an earlier connection finds another generation and does nothing.

A state of the page is what the code keeps between events, with the texts of its inputs. A notice
is kept as its kind; what the page displays besides is left out.
-/

namespace Evobase.Runtime

open Foundation

structure Config where
  base : String
  app : AppId
  credential : String
deriving DecidableEq

inductive Failure where
  | configuration
  | transport
  | protocol
  | api (code : ErrorCodeDto)
deriving DecidableEq

inductive Notice where
  | ready
  | loading
  | live
  | sending
  | unknown
  | noReceipt
  | failure (error : Failure)
deriving DecidableEq

/-- A submitted command. It is uncertain when one of its requests may have been carried out without
an answer. -/
structure Attempt where
  config : Config
  request : CommandRequestDto
  body : String
  uncertain : Bool
deriving DecidableEq

inductive InputIssue where
  | required
  | type (expected : FieldType)
deriving DecidableEq

structure State where
  metadata : Option MetadataResponseDto
  list : Option ListResponseDto
  table : String
  record : String
  command : String
  params : OrdMap FieldId String
  errors : OrdMap FieldId InputIssue
  attempt : Option Attempt
  receipt : Option ReceiptResponseDto
  notice : Notice
  busy : Bool
  generation : U64

namespace State

def start : State where
  metadata := none
  list := none
  table := ""
  record := ""
  command := ""
  params := .empty
  errors := .empty
  attempt := none
  receipt := none
  notice := .ready
  busy := false
  generation := U64.zero

def selectRecord (state : State) (record : String) : State :=
  if state.record ≠ record then
    { state with params := .empty, errors := .empty, command := "", record }
  else state

def showFailure (state : State) (error : Failure) : State :=
  let state := if error = .api .denied then
    { state with metadata := none, list := none, receipt := none } else state
  { state with notice := .failure error, busy := false }

def nextGeneration (generation : U64) : U64 :=
  (generation.checkedAdd U64.one).getD U64.zero

/-- The end of a connection. An attempt without an outcome stays, and is uncertain from then on. -/
def invalidate (state : State) : State :=
  let state := { state with
    generation := nextGeneration state.generation
    metadata := none
    list := none
    receipt := none
    busy := false }
  match state.attempt with
  | some attempt =>
      { state with attempt := some { attempt with uncertain := true }, notice := .unknown }
  | none => { state with notice := .ready }

/-- The command that is offered for the selected record: the selected one, or else the first. -/
def chosenCommand (state : State) : Option CommandMetadataDto := do
  let metadata ← state.metadata
  let offered := metadata.commands.filter fun command =>
    command.tableId.text = state.table ∧
      command.eligibleRecordIds.any fun record => record.text = state.record
  (offered.find? fun command => command.commandId = state.command).or offered.head?

/-- What a request that fails leaves unknown. -/
def unresolved (state : State) (attempt : Attempt) : State :=
  { state with
    attempt := some { attempt with uncertain := true }
    notice := .unknown
    busy := false }

end State

/-- What the page asks of a server. -/
structure Call where
  base : String
  method : Method
  path : List String
  query : Option String
  credential : String
  body : String

/-- What the page reads of a reply, when there is one: its status and its text. A reply without a
body, over the limit or in another encoding cannot be read; the mark of the encoding is dropped. -/
def runtimeHttp (reply : Option HttpReply) : Option (Nat × String) := do
  let reply ← reply
  if reply.status ∈ [204, 205, 304] ∨ reply.payload.length > 1048576 then none
  else
    let bytes := (reply.payload.dropPrefix? [239, 187, 191]).getD reply.payload
    (Json.stringOfBytes bytes).map fun payload => (reply.status, payload)

variable (tokenizer : JsonTokenizer)

def request (reply : Option HttpReply) : Except Failure String := do
  let answer ← okOr .transport (runtimeHttp reply)
  if 200 ≤ answer.1 ∧ answer.1 < 300 then .ok answer.2
  else do
    let error ← renameError (fun _ => .protocol)
      (Wire.decode tokenizer (Json.utf8 answer.2.toList) : Except WireError ApiErrorDto)
    .error (.api error.code)

/-- The message that the text of a reply stands for. -/
def readReply (α : Type) [WireMessage α] (reply : Option HttpReply) : Except Failure α := do
  let raw ← request tokenizer reply
  renameError (fun _ => .protocol) (Wire.decode tokenizer (Json.utf8 raw.toList))

/-- What waits for the reply to a request. -/
inductive Task where
  | loadTable (config : Config) (table : TableId) (generation : U64)
  | loadApplication (config : Config) (generation : U64)
  | dispatch (attempt : Attempt) (credential : String) (recover : Bool) (generation : U64)

namespace Task

def generation : Task → U64
  | .loadTable _ _ generation => generation
  | .loadApplication _ generation => generation
  | .dispatch _ _ _ generation => generation

def call : Task → Call
  | .loadTable config table _ => ⟨config.base, .get,
      ["v1", "apps", config.app.text, "tables", table.text], some "limit=100", config.credential, ""⟩
  | .loadApplication config _ => ⟨config.base, .get,
      ["v1", "apps", config.app.text, "runtime-metadata"], none, config.credential, ""⟩
  | .dispatch attempt credential true _ => ⟨attempt.config.base, .get,
      ["v1", "apps", attempt.config.app.text, "receipts", attempt.request.requestKey], none,
      credential, ""⟩
  | .dispatch attempt credential false _ => ⟨attempt.config.base, .post,
      ["v1", "apps", attempt.config.app.text, "commands"], none, credential, attempt.body⟩

end Task

def loadTable (state : State) (config : Config) (table : TableId) (generation : U64)
    (reply : Option HttpReply) : State :=
  if state.generation ≠ generation ∨ state.table ≠ table.text then state
  else
    let state := match readReply tokenizer ListResponseDto reply with
      | .ok list =>
          if list.appId = config.app ∧ list.tableId = table ∧
              state.metadata.any (fun (shown : MetadataResponseDto) =>
                shown.releaseId = list.releaseId) then
            let state := if list.records.any fun record => record.recordId.text = state.record then
                state
              else state.selectRecord
                ((list.records.head?.map fun (record : RecordDto) => record.recordId.text).getD "")
            { state with list := some list, notice := .live }
          else { state with notice := .failure .protocol }
      | .error error => state.showFailure error
    { state with busy := false }

def loadApplication (state : State) (config : Config) (generation : U64)
    (reply : Option HttpReply) : State × Option Task :=
  if state.generation ≠ generation then (state, none)
  else match readReply tokenizer MetadataResponseDto reply with
    | .ok metadata =>
        if metadata.appId = config.app ∧ metadata.canonicalAppspec = none then
          let table := ((metadata.tables.find? fun table => table.tableId.text = state.table).or
            metadata.tables.head?).map (·.tableId)
          let state := { state with metadata := some metadata }
          match table with
          | some table =>
              ({ state with table := table.text }, some (.loadTable config table generation))
          | none => ({ state with busy := false, notice := .live }, none)
        else ({ state with notice := .failure .protocol, busy := false }, none)
    | .error error => (state.showFailure error, none)

def receiptMatches (receipt : ReceiptResponseDto) (attempt : Attempt) : Prop :=
  receipt.appId = attempt.config.app ∧ receipt.commandId = attempt.request.commandId ∧
    receipt.recordId = attempt.request.recordId ∧ receipt.releaseId = attempt.request.releaseId ∧
      receipt.requestKey = attempt.request.requestKey

instance (receipt : ReceiptResponseDto) (attempt : Attempt) :
    Decidable (receiptMatches receipt attempt) := inferInstanceAs (Decidable (_ ∧ _ ∧ _ ∧ _ ∧ _))

def finishReceipt (state : State) (attempt : Attempt) (receipt : ReceiptResponseDto)
    (generation : U64) (credential : String) : State × Option Task :=
  if receiptMatches receipt attempt then
    ({ state with receipt := some receipt, attempt := none, errors := .empty },
      some (.loadApplication { attempt.config with credential } generation))
  else (state.unresolved attempt, none)

/-- What becomes of an attempt when the reply to its request is there. -/
def dispatch (state : State) (attempt : Attempt) (credential : String) (recover : Bool)
    (generation : U64) (reply : Option HttpReply) : State × Option Task :=
  if state.generation ≠ generation then (state, none)
  else match request tokenizer reply with
    | .ok raw =>
        match Wire.decode tokenizer (Json.utf8 raw.toList) with
        | .ok receipt => finishReceipt state attempt receipt generation credential
        | .error _ => (state.unresolved attempt, none)
    | .error error =>
        if error = .api .notFound ∧ recover then
          ({ state with notice := .noReceipt, busy := false }, none)
        else if error = .transport ∨ error = .protocol ∨ error = .api .internal then
          (state.unresolved attempt, none)
        else
          let state := if recover ∨ attempt.uncertain then state else { state with attempt := none }
          (state.showFailure error, none)

/-- The state when a task goes on, and the task that waits next. -/
def resume (state : State) (reply : Option HttpReply) : Task → State × Option Task
  | .loadTable config table generation =>
      (loadTable tokenizer state config table generation reply, none)
  | .loadApplication config generation => loadApplication tokenizer state config generation reply
  | .dispatch attempt credential recover generation =>
      dispatch tokenizer state attempt credential recover generation reply

/-- The page with what is typed into the connection. -/
structure Page where
  state : State
  base : String
  app : String
  credential : String

/-- What the user does. A submission draws a key, which may fail. -/
inductive Event where
  | base (value : String)
  | app (value : String)
  | credential (value : String)
  | disconnect
  | connect
  | refresh
  | table (value : String)
  | record (value : String)
  | command (value : String)
  | param (field : FieldId) (value : String)
  | submit (key : Option String)
  | recover
  | retry

namespace Page

def start : Page := ⟨.start, "http://127.0.0.1:8080", "", ""⟩

/-- The connection that is typed. `validBase` is the check of the browser for an address. -/
def config (validBase : String → Bool) (page : Page) : Except Failure Config := do
  rejectIf (page.credential = "" ∨ page.credential.utf8ByteSize > 4096 ∨
    page.base.utf8ByteSize > 2048 ∨ validBase page.base = false) .configuration
  let app ← okOr .configuration (Identity.ofText? .app page.app)
  .ok ⟨page.base, app, page.credential⟩

def withState (page : Page) (state : State) : Page := { page with state }

def locked (page : Page) : Bool := page.state.busy || page.state.attempt.isSome

def forget (page : Page) : Page :=
  page.withState (State.invalidate { page.state with
    params := .empty, errors := .empty, table := "", command := "", record := "" })

/-- The values of the inputs of a command, and what is wrong with them. -/
def readParams (fields : List FieldMetadataDto) (buffers : OrdMap FieldId String) :
    ValuesDto × OrdMap FieldId InputIssue :=
  fields.foldl (fun out field =>
    match buffers.get? field.fieldId with
    | none =>
        if field.required then (out.1, out.2.insert field.fieldId .required) else out
    | some input =>
        match parseParam field input with
        | some value =>
            if field.required ∧ (value = .blank ∨ value = .null) then
              (out.1, out.2.insert field.fieldId .required)
            else (out.1.insert field.fieldId value, out.2)
        | none => (out.1, out.2.insert field.fieldId (.type field.fieldType))) (.empty, .empty)

/-- The start of a request for an attempt. -/
def send (page : Page) (attempt : Attempt) (recover : Bool) : Page × Option Task :=
  if page.state.busy then (page, none)
  else (page.withState { page.state with busy := true, notice := .sending },
    some (.dispatch attempt page.credential recover page.state.generation))

/-- The attempt that a submission makes of the page. -/
def attemptFor (config : Config) (metadata : MetadataResponseDto) (list : ListResponseDto)
    (command : CommandMetadataDto) (record : RecordId) (params : ValuesDto) (key : String) :
    Except Failure Attempt := do
  let request : CommandRequestDto := {
    apiVersion := apiVersionNumber
    commandId := command.commandId
    recordId := record
    params
    requestKey := key
    expectedRevision := list.revision
    releaseId := metadata.releaseId }
  let bytes ← renameError (fun _ => .protocol) (Wire.encode request)
  let body ← okOr .protocol (Json.stringOfBytes bytes)
  .ok ⟨{ config with credential := "" }, request, body, false⟩

def submit (validBase : String → Bool) (page : Page) (key : Option String) : Page × Option Task :=
  match page.config validBase, page.state.metadata, page.state.list, page.state.chosenCommand,
      Identity.ofText? .record page.state.record with
  | .ok config, some metadata, some list, some command, some record =>
      if list.records.any fun shown => shown.recordId = record then
        let read := readParams command.inputFields page.state.params
        let page := page.withState { page.state with errors := read.2 }
        if read.2.entries ≠ [] then
          (page.withState { page.state with notice := .failure (.api .validation) }, none)
        else match key with
          | none => (page.withState { page.state with notice := .failure .configuration }, none)
          | some key =>
              match attemptFor config metadata list command record read.1 key with
              | .error error => (page.withState { page.state with notice := .failure error }, none)
              | .ok attempt =>
                  send (page.withState { page.state with receipt := none, attempt := some attempt })
                    attempt false
      else (page, none)
  | _, _, _, _, _ => (page, none)

def connect (validBase : String → Bool) (page : Page) : Page × Option Task :=
  match page.config validBase with
  | .error error => (page.withState { page.state with notice := .failure error }, none)
  | .ok config =>
      if page.state.attempt.any fun attempt =>
          attempt.config.base ≠ config.base ∨ attempt.config.app ≠ config.app then
        (page.withState { page.state with notice := .unknown }, none)
      else
        let state := { page.state.invalidate with busy := true, notice := .loading }
        (page.withState state, some (.loadApplication config state.generation))

def refresh (validBase : String → Bool) (page : Page) : Page × Option Task :=
  match page.config validBase with
  | .error _ => (page, none)
  | .ok config =>
      (page.withState
          { page.state with busy := true, notice := .loading, metadata := none, list := none },
        some (.loadApplication config page.state.generation))

def selectTable (validBase : String → Bool) (page : Page) (value : String) : Page × Option Task :=
  let page := page.withState { page.state with
    table := value, list := none, record := "", command := "", params := .empty, errors := .empty }
  match page.config validBase, Identity.ofText? .table value with
  | .ok config, some table =>
      (page.withState { page.state with busy := true, notice := .loading },
        some (.loadTable config table page.state.generation))
  | _, _ => (page, none)

/-- What an event does, when its control is shown and enabled. -/
def handle (validBase : String → Bool) (page : Page) : Event → Option (Page × Option Task)
  | .base value =>
      if page.state.attempt.isSome then none else some ({ page with base := value }.forget, none)
  | .app value =>
      if page.state.attempt.isSome then none else some ({ page with app := value }.forget, none)
  | .credential value =>
      some ({ page with credential := value }.withState page.state.invalidate, none)
  | .disconnect => some ({ page with credential := "" }.withState page.state.invalidate, none)
  | .connect => if page.state.busy then none else some (page.connect validBase)
  | .refresh =>
      if page.locked ∨ page.state.metadata = none then none else some (page.refresh validBase)
  | .table value =>
      if page.locked ∨ page.state.metadata = none then none
      else some (page.selectTable validBase value)
  | .record value =>
      if page.locked ∨ page.state.metadata = none then none
      else some (page.withState (page.state.selectRecord value), none)
  | .command value =>
      if page.locked ∨ page.state.metadata = none then none
      else some (page.withState
        { page.state with command := value, params := .empty, errors := .empty }, none)
  | .param field value =>
      if page.locked ∨ page.state.metadata = none then none
      else some (page.withState
        { page.state with params := page.state.params.insert field value }, none)
  | .submit key =>
      if page.locked ∨ page.state.metadata = none then none else some (page.submit validBase key)
  | .recover => do
      let attempt ← page.state.attempt
      if page.state.busy then none else some (page.send attempt true)
  | .retry => do
      let attempt ← page.state.attempt
      if page.state.busy then none else some (page.send attempt false)

end Page

end Evobase.Runtime
