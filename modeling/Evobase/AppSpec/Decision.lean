import Evobase.AppSpec.Validate

/-!
# Declared commands

`prepareCommand` authorizes a request and checks its inputs against the declared command;
`decideCommand` checks the state and the guards of the record and builds the one write,
the events and the receipt of the transition. `PreparedFor` says what a prepared command
has been checked for.

The order of the checks is that of the code, since the first one that fails decides the error. The
facts of a prepared command are carried along with it: what is decided is decided about the facts
that the request was prepared for.
-/

namespace Evobase

open Foundation

inductive CommandError where
  | authority (error : AuthorityError)
  | policy (error : PolicyError)
  | kernel (error : Error)
  | unknownCommand (command : CommandId)
  | invalidInput (field : Option FieldId) (reason : String)
  | immutableField (field : FieldId)
  | invalidTransition (source target : String)
  | guardFailed (field : FieldId)
  | revisionRequired
deriving DecidableEq, Repr

/-- The facts are of the scope and valid for the definition of the policy. -/
def OwnerRolePolicy.checkScope (policy : OwnerRolePolicy) (scope : Scope)
    (facts : CheckedRecords) : Exec PolicyError Unit := do
  rejectIf (scope.appId ≠ policy.definition.appId ∨ facts.scope ≠ scope) (.fail .scopeMismatch)
  let _ ← Exec.lift (fun _ => .scopeMismatch)
    (validateRecords policy.definition scope facts.records)
  .ok ()

/-- The grammar of a request key: at most 96 letters, digits, underscores and hyphens. -/
def boundedKey (key : String) : Bool :=
  key ≠ "" && key.utf8ByteSize ≤ 96 && key.toList.all isIdChar

structure PreparedCommand where
  spec : RawAppSpec
  facts : CheckedRecords
  context : TrustedContext
  policy : OwnerRolePolicy
  command : RawCommand
  machine : RawStateMachine
  request : RawCommandRequest
  intentBytes : List UInt8

def intentJson (spec : RawAppSpec) (request : RawCommandRequest) : Json :=
  .ofFields [("definition", some spec.toJson), ("command_id", some request.commandId.toJson),
    ("record_id", some request.recordId.toJson), ("inputs", some (valuesToJson request.inputs))]

@[simp] theorem exact_intentJson (spec : RawAppSpec) (request : RawCommandRequest) :
    (intentJson spec request).Exact :=
  Json.exact_ofFields (by simp)

/-- A value is given for a declared input of the command. -/
def checkRequestInput (spec : RawAppSpec) (command : RawCommand) (machine : RawStateMachine)
    (entry : FieldId × Value) : Exec CommandError Unit := do
  let input ← okOr (.fail (.immutableField entry.1))
    (command.inputs.find? fun input => input.fieldId = entry.1)
  let definition ← Exec.expect "checked input binding" (spec.field machine.tableId entry.1)
  rejectIf (valueMatches definition.fieldType entry.2 = false ∨ entry.2.tooLong = true)
    (.fail (.invalidInput (some entry.1) "wrong type or text limit"))
  rejectIf (input.required = true ∧ entry.2.isEmpty = true)
    (.fail (.invalidInput (some entry.1) "required input is blank"))
  rejectIf (∃ constraint ∈ input.constraints, constraint.accepts entry.2 = false)
    (.fail (.invalidInput (some entry.1) "input constraint failed"))

def prepareCommand (host : SessionVerifier) (caller : Caller) (spec : RawAppSpec)
    (facts : CheckedRecords) (request : RawCommandRequest) :
    Exec CommandError PreparedCommand := do
  let context ← Exec.ofExcept .authority (host.resolve caller .write)
  rejectIf (caller.scope.appId ≠ spec.appId ∨ facts.scope ≠ caller.scope)
    (.fail (.policy .scopeMismatch))
  let command ← okOr (.fail (.unknownCommand request.commandId)) (spec.command request.commandId)
  let machine ← Exec.expect "checked machine binding" (spec.machine command.stateMachineId)
  let rawPolicy ← Exec.expect "checked policy binding" (spec.policy command.policyRuleId)
  let policy ← Exec.ofExcept .policy (OwnerRolePolicy.check spec rawPolicy)
  Exec.lift .policy (policy.checkScope caller.scope facts)
  let row ← okOr (.fail (.policy .denied)) (facts.find machine.tableId request.recordId)
  rejectIf (¬ policy.allows context row .write) (.fail (.policy .denied))
  rejectIf (boundedKey request.idempotencyKey = false)
    (.fail (.invalidInput none "invalid bounded request key"))
  rejectIf (request.inputs.entries.length > maxCommandInputs)
    (.fail (.invalidInput none "too many inputs"))
  let _ ← Exec.ofExcept .kernel (boundedEncode request.toJson)
  each (checkRequestInput spec command machine) request.inputs.entries
  rejectAny command.inputs
    (fun input => input.required = true ∧ request.inputs.get? input.fieldId = none)
    fun input => .fail (.invalidInput (some input.fieldId) "required input is absent")
  let intentBytes ← Exec.ofExcept .kernel (boundedEncode (intentJson spec request))
  .ok { spec, facts, context, policy, command, machine, request, intentBytes }

/-- The part of the preparation that looks at the caller and the record alone. -/
def authorizeCommand (host : SessionVerifier) (caller : Caller) (spec : RawAppSpec)
    (facts : CheckedRecords) (commandId : CommandId) (recordId : RecordId) :
    Exec CommandError (TrustedContext × RawCommand × RawStateMachine × OwnerRolePolicy) := do
  let context ← Exec.ofExcept .authority (host.resolve caller .write)
  rejectIf (caller.scope.appId ≠ spec.appId ∨ facts.scope ≠ caller.scope)
    (.fail (.policy .scopeMismatch))
  let command ← okOr (.fail (.unknownCommand commandId)) (spec.command commandId)
  let machine ← Exec.expect "checked machine binding" (spec.machine command.stateMachineId)
  let rawPolicy ← Exec.expect "checked policy binding" (spec.policy command.policyRuleId)
  let policy ← Exec.ofExcept .policy (OwnerRolePolicy.check spec rawPolicy)
  Exec.lift .policy (policy.checkScope caller.scope facts)
  let row ← okOr (.fail (.policy .denied)) (facts.find machine.tableId recordId)
  rejectIf (¬ policy.allows context row .write) (.fail (.policy .denied))
  .ok (context, command, machine, policy)

/-- The part of the preparation that looks at the key and the inputs of the request. -/
def checkRequest (spec : RawAppSpec) (command : RawCommand) (machine : RawStateMachine)
    (request : RawCommandRequest) : Exec CommandError (List UInt8) := do
  rejectIf (boundedKey request.idempotencyKey = false)
    (.fail (.invalidInput none "invalid bounded request key"))
  rejectIf (request.inputs.entries.length > maxCommandInputs)
    (.fail (.invalidInput none "too many inputs"))
  let _ ← Exec.ofExcept .kernel (boundedEncode request.toJson)
  each (checkRequestInput spec command machine) request.inputs.entries
  rejectAny command.inputs
    (fun input => input.required = true ∧ request.inputs.get? input.fieldId = none)
    fun input => .fail (.invalidInput (some input.fieldId) "required input is absent")
  Exec.ofExcept .kernel (boundedEncode (intentJson spec request))

theorem prepareCommand_eq (host : SessionVerifier) (caller : Caller) (spec : RawAppSpec)
    (facts : CheckedRecords) (request : RawCommandRequest) :
    prepareCommand host caller spec facts request = (do
      let (context, command, machine, policy) ←
        authorizeCommand host caller spec facts request.commandId request.recordId
      let intentBytes ← checkRequest spec command machine request
      .ok { spec, facts, context, policy, command, machine, request, intentBytes }) := by
  simp only [prepareCommand, authorizeCommand, checkRequest, bind_assoc, ok_bind]

/-- What the command declares of a given input value. -/
structure InputAccepted (spec : RawAppSpec) (command : RawCommand) (machine : RawStateMachine)
    (field : FieldId) (value : Value) : Prop where
  declared : ∃ input ∈ command.inputs, input.fieldId = field
  type : ∃ definition, spec.field machine.tableId field = some definition ∧
    valueMatches definition.fieldType value = true
  short : value.tooLong = false

/-- The part of the checks of a request that depends on the definition alone. -/
structure RequestAccepted (spec : RawAppSpec) (command : RawCommand) (machine : RawStateMachine)
    (request : RawCommandRequest) : Prop where
  key : boundedKey request.idempotencyKey = true
  inputs_le : request.inputs.entries.length ≤ maxCommandInputs
  fits : Fits request.toJson
  inputs : each (checkRequestInput spec command machine) request.inputs.entries = .ok ()
  required : ∀ input ∈ command.inputs, input.required = true →
    request.inputs.get? input.fieldId ≠ none
  intent : Fits (intentJson spec request)

/-- What a prepared command has been checked for. -/
structure PreparedFor (host : SessionVerifier) (caller : Caller) (spec : RawAppSpec)
    (facts : CheckedRecords) (request : RawCommandRequest) (prepared : PreparedCommand) :
    Prop where
  resolved : host.resolve caller .write = .ok prepared.context
  app : caller.scope.appId = spec.appId
  inScope : facts.scope = caller.scope
  hasCommand : spec.command request.commandId = some prepared.command
  hasMachine : spec.machine prepared.command.stateMachineId = some prepared.machine
  hasPolicy : spec.policy prepared.command.policyRuleId = some prepared.policy.rule
  checkedFor : prepared.policy.definition = spec
  accepted : OwnerRolePolicy.Accepted spec prepared.policy.rule
  valid : ∃ out, validateRecords spec caller.scope facts.records = .ok out
  row : ∃ row, facts.find prepared.machine.tableId request.recordId = some row ∧
    prepared.policy.allows prepared.context row .write
  requested : RequestAccepted spec prepared.command prepared.machine request
  spec_eq : prepared.spec = spec
  facts_eq : prepared.facts = facts
  request_eq : prepared.request = request
  intent_eq : prepared.intentBytes = (intentJson spec request).print

theorem checkScope_eq_ok_iff {policy : OwnerRolePolicy} {scope : Scope} {facts : CheckedRecords}
    {u : Unit} :
    policy.checkScope scope facts = .ok u ↔ scope.appId = policy.definition.appId ∧
      facts.scope = scope ∧ ∃ out, validateRecords policy.definition scope facts.records = .ok out := by
  simp only [OwnerRolePolicy.checkScope, bind_eq_ok, rejectIf_eq_ok, not_or, not_not,
    Exec.lift_eq_ok]
  constructor
  · rintro ⟨-, ⟨happ, hscope⟩, out, hvalid, -⟩
    exact ⟨happ, hscope, out, hvalid⟩
  · rintro ⟨happ, hscope, out, hvalid⟩
    exact ⟨(), ⟨happ, hscope⟩, out, hvalid, trivial⟩

theorem prepareCommand_eq_ok_iff {host : SessionVerifier} {caller : Caller} {spec : RawAppSpec}
    {facts : CheckedRecords} {request : RawCommandRequest} {prepared : PreparedCommand} :
    prepareCommand host caller spec facts request = .ok prepared ↔
      PreparedFor host caller spec facts request prepared := by
  simp only [prepareCommand, bind_eq_ok, Exec.ofExcept_eq_ok, rejectIf_eq_ok, okOr_eq_ok,
    Exec.expect_eq_ok, Exec.lift_eq_ok, rejectAny_eq_ok, checkScope_eq_ok_iff,
    OwnerRolePolicy.check_eq_ok_iff, boundedEncode_eq_ok_iff (exact_intentJson _ _),
    boundedEncode_eq_ok_iff (RawCommandRequest.exact_toJson _), not_or, not_not, not_and,
    Bool.not_eq_false, gt_iff_lt, not_lt, Except.ok.injEq]
  constructor
  · rintro ⟨context, hresolve, -, ⟨happ, hscope⟩, command, hcommand, machine, hmachine, rawPolicy,
      hpolicy, policy, ⟨haccepted, rfl⟩, -, ⟨-, -, hvalid⟩, row, hrow, -, hallows, -, hkey, -,
      hinputsLe, -, ⟨hfits, -⟩, ⟨⟩, hinputs, ⟨⟩, hrequired, intent, ⟨hintent, rfl⟩, rfl⟩
    exact ⟨hresolve, happ, hscope, hcommand, hmachine, hpolicy, rfl, haccepted, hvalid,
      ⟨row, hrow, hallows⟩, ⟨hkey, hinputsLe, hfits, hinputs, hrequired, hintent⟩,
      rfl, rfl, rfl, rfl⟩
  · rintro ⟨hresolve, happ, hscope, hcommand, hmachine, hpolicy, hdefinition, haccepted, hvalid,
      ⟨row, hrow, hallows⟩, ⟨hkey, hinputsLe, hfits, hinputs, hrequired, hintent⟩, hspec, hfacts,
      hrequest, hbytes⟩
    obtain ⟨pspec, pfacts, context, ⟨definition, rule⟩, command, machine, prequest, bytes⟩ := prepared
    simp only at *
    subst hspec hfacts hrequest hbytes hdefinition
    exact ⟨context, hresolve, (), ⟨happ, hscope⟩, command, hcommand, machine, hmachine, rule, hpolicy,
      _, ⟨haccepted, rfl⟩, (), ⟨happ, hscope, hvalid⟩, row, hrow, (), hallows, (), hkey, (), hinputsLe,
      _, ⟨hfits, rfl⟩, (), hinputs, (), hrequired, _, ⟨hintent, rfl⟩, rfl⟩

theorem RequestAccepted.input {spec : RawAppSpec} {command : RawCommand}
    {machine : RawStateMachine} {request : RawCommandRequest}
    (h : RequestAccepted spec command machine request) {field : FieldId} {value : Value}
    (hvalue : request.inputs.get? field = some value) :
    InputAccepted spec command machine field value := by
  have hvisit := each_eq_ok_iff.1 h.inputs _ (OrdMap.mem_entries_iff.2 hvalue)
  simp only [checkRequestInput, bind_eq_ok, okOr_eq_ok, Exec.expect_eq_ok, rejectIf_eq_ok, not_or,
    Bool.not_eq_false, Bool.not_eq_true] at hvisit
  obtain ⟨input, hinput, definition, hdefinition, -, ⟨htype, hshort⟩, -⟩ := hvisit
  exact ⟨⟨input, List.mem_of_find?_eq_some hinput, by simpa using List.find?_some hinput⟩,
    ⟨definition, hdefinition, htype⟩, hshort⟩

structure CheckedEventIntent where
  eventId : EventId
  payload : OrdMap FieldId Value
deriving DecidableEq

structure TransitionReceipt where
  commandId : CommandId
  recordId : RecordId
  state : String
deriving DecidableEq, Repr

structure CheckedTransitionBatch where
  prepared : PreparedCommand
  expectedRevision : U64
  writes : List RawRecord
  events : List CheckedEventIntent
  receipt : TransitionReceipt

/-- The state of a record, empty when it has none. -/
def RawStateMachine.stateOf (machine : RawStateMachine) (row : RawRecord) : String :=
  match row.values.get? machine.stateField with
  | some (.text state) => state
  | _ => ""

def checkTransition (command : RawCommand) (machine : RawStateMachine) (row : RawRecord) :
    Exec CommandError Unit := do
  let state := machine.stateOf row
  rejectIf (state ≠ command.fromState ∨ state ∈ machine.terminalStates.keys)
    (.fail (.invalidTransition state command.toState))
  rejectAny command.guards (fun guard => row.values.get? guard.fieldId ≠ some guard.equals)
    fun guard => .fail (.guardFailed guard.fieldId)

/-- The list with the first record of the same key replaced. -/
def replaceRow (new : RawRecord) : List RawRecord → Option (List RawRecord)
  | [] => none
  | row :: rest =>
      if row.tableId = new.tableId ∧ row.id = new.id then some (new :: rest)
      else (replaceRow new rest).map (row :: ·)

/-- The record after the command, before it is validated. -/
def PreparedCommand.proposed (prepared : PreparedCommand) (row : RawRecord) : RawRecord :=
  { row with
    values := (row.values.extend prepared.request.inputs).insert prepared.machine.stateField
      (.text prepared.command.toState) }

/-- The declared fields of the record as the payload of an event. -/
def projectEvent (proposed : RawRecord) (event : RawEventIntent) :
    Exec CommandError CheckedEventIntent := do
  let entries ← event.fields.keys.mapM fun field => do
    let value ← Exec.expect "no entry found for key" (proposed.values.get? field)
    .ok (field, value)
  .ok ⟨event.eventId, .ofList entries⟩

def decideCommand (prepared : PreparedCommand) (dataRevision : U64) :
    Exec CommandError CheckedTransitionBatch := do
  rejectIf (dataRevision.val = 0) (.fail .revisionRequired)
  let row ← Exec.expect "prepared row"
    (prepared.facts.find prepared.machine.tableId prepared.request.recordId)
  checkTransition prepared.command prepared.machine row
  let finalRows ← Exec.expect "prepared row"
    (replaceRow (prepared.proposed row) prepared.facts.records)
  let finalFacts ← Exec.lift .kernel
    (validateRecords prepared.spec prepared.context.scope finalRows)
  let proposed ← Exec.expect "validated row"
    (finalFacts.find prepared.machine.tableId prepared.request.recordId)
  rejectIf (¬ prepared.policy.allows prepared.context proposed .write) (.fail (.policy .denied))
  let events ← prepared.command.events.mapM (projectEvent proposed)
  .ok {
    prepared
    expectedRevision := dataRevision
    writes := [proposed]
    events
    receipt := ⟨prepared.command.commandId, prepared.request.recordId,
      prepared.command.toState⟩ }

def sessionEnd : U64 := ⟨100, by decide, by decide⟩

def ticketHost (actor : ActorId) : SessionVerifier where
  currentTime now := now
  accessSnapshot _ scope := .ok (
    { actor, expiresAt := sessionEnd, revoked := false },
    { actor, scope, active := true, revision := U64.one,
      grants := [.read, .write, .submit], roles := .empty },
    { scope, bindingId := "store:" ++ scope.tenantId, allowedMutationOrigins := [] })

def ticketActor : ActorId := ⟨"actor_a", by decide⟩

def ticketCaller : Caller := ⟨"credential", ticketScope, .nativeBearer, U64.one⟩

def ticketContext : TrustedContext :=
  ⟨ticketActor, ticketScope, .empty, U64.one, "store:t"⟩

def ticketFacts : CheckedRecords :=
  ⟨ticketScope, [openTicket recA ticketActor.text]⟩

def closeTicket : RawCommandRequest where
  commandId := cmdClose
  recordId := recA
  idempotencyKey := "k"
  inputs := .ofList [(fldN, .text "done")]

end Evobase
